import LazyConfig.Proofs.Syntax.PathSpelling

/-!
# Canonical paths

A canonical path is a word with trailers behind it, where every index and every bound of a slice is a
single token in any spelling, there are no blanks, and the second colon of a slice stands only before
a step. It is read as exactly these steps, and written as the very text that it was read from.
-/

namespace LazyConfig

namespace Path

open Syntax (Bounds)

/-! ### Words, values and trailers -/

/-- A word as it can stand in a text: no keyword, and nothing but the word. -/
structure Word where
  token : Token
  legible : token.Legible
  isWord : token.kind = .word

/-- A token that is a value by itself, in the spelling that its text has. -/
structure Atom where
  token : Token
  legible : token.Legible
  isValue : Syntax.startsValue token.kind

-- the sign of a number is a part of the token
example : Token.Legible { kind := .integer, text := "-1", value := .int (-1) } := by decide +kernel

namespace Atom

def text (v : Atom) : String := v.token.text

def tree (v : Atom) : Node := .leaf v.token.bare

end Atom

/-- What stands behind the word of a canonical path. -/
inductive Trailer where
  | member (name : Word)
  | index (operand : Atom)
  | slice (start stop step : Option Atom)

namespace Trailer

def text : Trailer → String
  | member name => "." ++ name.token.text
  | index operand => "[" ++ operand.text ++ "]"
  | slice start stop step =>
    sliceText ((start.map Atom.text).getD "") ((stop.map Atom.text).getD "")
      (step.map Atom.text)

/-- The step that a trailer stands for. -/
def step : Trailer → Step
  | member name => .member name.token.text
  | index operand => .index operand.tree
  | slice start stop step =>
    .slice ⟨start.map Atom.tree, stop.map Atom.tree, step.map Atom.tree, {}⟩

/-- The tree of a path with one more trailer. -/
def extend (base : Node) : Trailer → Node
  | member name => .member base name.token.bare
  | index operand => .index base operand.tree
  | slice start stop step =>
    .slice base ⟨start.map Atom.tree, stop.map Atom.tree, step.map Atom.tree, {}⟩

end Trailer

/-- A word and the trailers behind it. -/
structure Canonical where
  head : Word
  trailers : List Trailer

namespace Canonical

def text (path : Canonical) : String :=
  path.head.token.text ++ String.join (path.trailers.map Trailer.text)

def tree (path : Canonical) : Node := path.trailers.foldl Trailer.extend (.leaf path.head.token.bare)

end Canonical

/-! ### Steps of canonical paths -/

/-- The name that a word stands for is its text. -/
theorem Word.name_eq (word : Word) : word.token.bare.name = word.token.text := by
  change word.token.name = word.token.text
  rw [Token.name, word.legible.value_of_word word.isWord]
  rfl

theorem head?_extend (base : Node) (trailer : Trailer) :
    (trailer.extend base).head? = base.head? := by
  cases trailer <;> rfl

theorem steps_extend (base : Node) (trailer : Trailer) :
    (trailer.extend base).steps = base.steps ++ [trailer.step] := by
  cases trailer with
  | member name => simp [Trailer.extend, Trailer.step, Node.steps, Node.stepsReversed, name.name_eq]
  | index => simp [Trailer.extend, Trailer.step, Node.steps, Node.stepsReversed]
  | slice => simp [Trailer.extend, Trailer.step, Node.steps, Node.stepsReversed]

theorem head?_foldl_extend (base : Node) (trailers : List Trailer) :
    (trailers.foldl Trailer.extend base).head? = base.head? := by
  -- every trailer makes a new base for those behind it
  induction trailers generalizing base with
  | nil => rfl
  | cons trailer trailers ih => rw [List.foldl_cons, ih, head?_extend]

theorem steps_foldl_extend (base : Node) (trailers : List Trailer) :
    (trailers.foldl Trailer.extend base).steps = base.steps ++ trailers.map Trailer.step := by
  induction trailers generalizing base with
  | nil => simp
  | cons trailer trailers ih => simp [ih, steps_extend]

/-! ### Texts of canonical paths -/

theorem Atom.operandText (v : Atom) : OperandText v.tree v.text :=
  .value v.legible v.isValue

theorem boundText_map (bound : Option Atom) :
    BoundText (bound.map Atom.tree) ((bound.map Atom.text).getD "") := by
  cases bound with
  | none => rfl
  | some v => exact v.operandText

variable {base : Node} {text : String}

theorem PathText.trailer (path : PathText base text) (trailer : Trailer) :
    PathText (trailer.extend base) (text ++ trailer.text) := by
  cases trailer with
  | member name => exact path.member name.legible name.isWord
  | index operand => exact path.index operand.operandText
  | slice start stop step =>
    have sliced := path.slice (boundText_map start) (boundText_map stop) (boundText_map step)
    -- the text of a step that is left out does not matter
    cases step <;> exact sliced

theorem PathText.trailers (path : PathText base text) (trailers : List Trailer) :
    PathText (trailers.foldl Trailer.extend base)
      (text ++ String.join (trailers.map Trailer.text)) := by
  induction trailers generalizing base text with
  | nil => simpa using path
  | cons trailer trailers ih => simpa [String.append_assoc] using ih (path.trailer trailer)

theorem Canonical.pathText (path : Canonical) : PathText path.tree path.text :=
  (PathText.word path.head.legible path.head.isWord).trailers path.trailers

/-- A canonical path is read, it has its trailers as its steps in their order, and it is written as
the text that it was read from. -/
theorem Canonical.round_trip (path : Canonical) :
    ∃ p, Path.ofString path.text = .ok p ∧
      p.head?.map Token.bare = some path.head.token.bare ∧
      p.steps.map Step.bare = path.trailers.map Trailer.step ∧
      p.sourceText = .ok path.text := by
  obtain ⟨p, read, same⟩ := path.pathText.read
  refine ⟨p, read, ?_, ?_, ?_⟩
  · rw [← Node.head?_bare, same, Canonical.tree, head?_foldl_extend]
    rfl
  · rw [← Node.steps_bare, same, Canonical.tree, steps_foldl_extend]
    rfl
  · rw [← sourceText_bare, same]
    exact path.pathText.written

example : (Path.ofString "foo[::-1].bar['a b']").toOption.map Node.sourceText =
    some (.ok "foo[::-1].bar['a b']") := by decide +kernel

end Path

end LazyConfig
