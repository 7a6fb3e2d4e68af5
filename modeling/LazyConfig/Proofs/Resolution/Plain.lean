import LazyConfig.Evaluation.Inclusion
import LazyConfig.Proofs.Syntax.Sites

/-!
# Plain trees

Trees of literals, lists, mappings and references, whose paths go by names, literal indices and
literal slices. Such a tree asks for nothing but other parts of its own document.
-/

namespace LazyConfig

open Syntax (Bounds)

namespace Token

/-- Whether the token stands for a value by itself. -/
def isLiteral (t : Token) : Bool :=
  match t.kind with
  | .string | .integer | .float | .complex | .false | .true | .none => true
  | _ => false

/-- Whether the token is a name. -/
def isName (t : Token) : Bool := t.kind = .word && t.value.text?.isSome

end Token

namespace Node

def isLiteral : Node → Bool
  | leaf token => token.isLiteral
  | _ => false

/-- Whether the bounds that are there are literals. -/
def literalBounds (bounds : Bounds Node) : Bool :=
  bounds.start.all isLiteral && bounds.stop.all isLiteral && bounds.step.all isLiteral

/-- Whether the tree is a path of a name, and names, literals and slices between literals. -/
def isPlainPath : Node → Bool
  | leaf token => token.isName
  | member base _ => base.isPlainPath
  | index base operand => base.isPlainPath && operand.isLiteral
  | slice base bounds => base.isPlainPath && literalBounds bounds
  | _ => false

mutual

def isPlain : Node → Bool
  | leaf token => token.isLiteral
  | reference path _ => path.isPlainPath
  | list elements _ => allPlain elements
  | mapping entries _ => entriesPlain entries
  | _ => false

def allPlain : List Node → Bool
  | [] => true
  | node :: rest => node.isPlain && allPlain rest

def entriesPlain : List (Token × Node) → Bool
  | [] => true
  | (_, node) :: rest => node.isPlain && entriesPlain rest

end

theorem allPlain_iff {nodes : List Node} : allPlain nodes ↔ ∀ n ∈ nodes, n.isPlain := by
  induction nodes with
  | nil => simp [allPlain]
  | cons node rest ih => simp [allPlain, ih]

theorem entriesPlain_iff {entries : List (Token × Node)} :
    entriesPlain entries ↔ ∀ e ∈ entries, e.2.isPlain := by
  induction entries with
  | nil => simp [entriesPlain]
  | cons entry rest ih => simp [entriesPlain, ih]

end Node

/-- Whether the operands of a step are literals. -/
def Step.isPlain : Step → Bool
  | .member _ => true
  | .index operand => operand.isLiteral
  | .slice bounds => Node.literalBounds bounds
  | .operator _ _ => false

/-! ### Paths -/

namespace Node

theorem head?_of_isPlainPath : ∀ path : Node, path.isPlainPath →
    ∃ head, path.head? = some head ∧ head.isName
  | leaf token, plain => ⟨token, rfl, plain⟩
  | member base _, plain => head?_of_isPlainPath base plain
  | index base operand, plain => by
    simp only [isPlainPath, Bool.and_eq_true] at plain
    exact head?_of_isPlainPath base plain.1
  | slice base bounds, plain => by
    simp only [isPlainPath, Bool.and_eq_true] at plain
    exact head?_of_isPlainPath base plain.1

theorem stepsReversed_isPlain : ∀ path : Node, path.isPlainPath →
    ∀ step ∈ path.stepsReversed, step.isPlain
  | leaf token, _ => by simp [stepsReversed]
  | member base name, plain => by
    have before := stepsReversed_isPlain base plain
    simpa [stepsReversed, Step.isPlain] using before
  | index base operand, plain => by
    simp only [isPlainPath, Bool.and_eq_true] at plain
    have before := stepsReversed_isPlain base plain.1
    simpa [stepsReversed, Step.isPlain, plain.2] using before
  | slice base bounds, plain => by
    simp only [isPlainPath, Bool.and_eq_true] at plain
    have before := stepsReversed_isPlain base plain.1
    simpa [stepsReversed, Step.isPlain, plain.2] using before

theorem steps_isPlain {path : Node} (plain : path.isPlainPath) : ∀ step ∈ path.steps, step.isPlain :=
  fun step among => stepsReversed_isPlain _ plain step (List.mem_reverse.mp among)

theorem isLiteral_iff {n : Node} : n.isLiteral ↔ ∃ token, n = leaf token ∧ token.isLiteral := by
  cases n <;> simp [isLiteral]

private theorem boundText_of_isLiteral (mark : String) {bound : Option Node}
    (literal : bound.all isLiteral) : ∃ text, Path.boundText mark bound = .ok text := by
  cases bound with
  | none => exact ⟨"", rfl⟩
  | some bound =>
    obtain ⟨token, rfl, -⟩ := isLiteral_iff.mp (by simpa using literal)
    exact ⟨mark ++ token.text, rfl⟩

private theorem spine_of_isPlainPath : ∀ path : Node, path.isPlainPath →
    ∃ text, Path.spine path = .ok text
  | leaf token, plain => by
    obtain ⟨-, text⟩ : token.kind = .word ∧ token.value.text?.isSome := by
      simpa [isPlainPath, Token.isName] using plain
    cases value : token.value <;> simp [value, Token.Literal.text?] at text <;>
      simp [Path.spine, value, Token.Literal.describe?]
  | member base name, plain => by
    obtain ⟨text, written⟩ := spine_of_isPlainPath base plain
    exact ⟨text ++ "." ++ name.name, by
      simp only [Path.spine, written, Path.beforeStep]
      rfl⟩
  | index base operand, plain => by
    simp only [isPlainPath, Bool.and_eq_true] at plain
    obtain ⟨text, written⟩ := spine_of_isPlainPath base plain.1
    obtain ⟨token, rfl, -⟩ := isLiteral_iff.mp plain.2
    exact ⟨text ++ "[" ++ token.text ++ "]", by
      simp only [Path.spine, written, Path.beforeStep, Path.ofSpine]
      rfl⟩
  | slice base ⟨start, stop, step, span⟩, plain => by
    simp only [isPlainPath, Bool.and_eq_true, literalBounds] at plain
    obtain ⟨text, written⟩ := spine_of_isPlainPath base plain.1
    obtain ⟨first, startText⟩ := boundText_of_isLiteral "" plain.2.1.1
    obtain ⟨last, stopText⟩ := boundText_of_isLiteral ":" plain.2.1.2
    obtain ⟨width, stepText⟩ := boundText_of_isLiteral ":" plain.2.2
    exact ⟨_, by
      simp only [Path.spine, written, Path.beforeStep, Path.boundsText, startText, stopText,
        stepText]
      rfl⟩

/-- A plain path can be written as text. -/
theorem sourceText_of_isPlainPath {path : Node} (plain : path.isPlainPath) :
    ∃ text, path.sourceText = .ok text := by
  obtain ⟨text, written⟩ := spine_of_isPlainPath path plain
  unfold sourceText Path.ofSpine
  split
  · exact ⟨_, rfl⟩
  case h_2 operator =>
    rw [written] at operator
    cases operator
  · exact ⟨text, written⟩

/-! ### Trees of one source -/

/-- What a container or a reference is known by. -/
def site? : Node → Option Site
  | reference path sigil => some ⟨path.source, sigil⟩
  | list _ span => some ⟨span.source, span.start⟩
  | mapping _ span => some ⟨span.source, span.start⟩
  | _ => none

@[simp] theorem source_inSource (source : Nat) : ∀ n : Node, (n.inSource source).source = source
  | leaf _ | list _ _ | mapping _ _ => rfl
  | unary _ operand _ => source_inSource source operand
  | reference path _ => source_inSource source path
  | binary _ left _ => source_inSource source left
  | member base _ | index base _ | slice base _ => source_inSource source base

mutual

theorem sites_inSource (source : Nat) : ∀ n : Node,
    (n.inSource source).sites = n.sites.map fun (l, n) => (l, n.inSource source)
  | leaf _ => rfl
  | unary _ operand _ => by simp [inSource, sites, sites_inSource source operand]
  | reference path _ => by simp [inSource, sites, sites_inSource source path]
  | binary _ left right => by
    simp [inSource, sites, sites_inSource source left, sites_inSource source right]
  | member base _ => by simp [inSource, sites, sites_inSource source base]
  | index base operand => by
    simp [inSource, sites, sites_inSource source base, sites_inSource source operand]
  | slice base bounds => by
    simp [inSource, sites, sites_inSource source base, boundsSites_inSource source bounds]
  | list elements _ => by simp [inSource, sites, allSites_inSource source elements]
  | mapping entries _ => by simp [inSource, sites, entriesSites_inSource source entries]

theorem boundsSites_inSource (source : Nat) : ∀ bounds : Bounds Node,
    boundsSites (boundsInSource source bounds) =
      (boundsSites bounds).map fun (l, n) => (l, n.inSource source)
  | ⟨start, stop, step, _⟩ => by
    simp [boundsInSource, boundsSites, boundSites_inSource source start,
      boundSites_inSource source stop, boundSites_inSource source step]

theorem boundSites_inSource (source : Nat) : ∀ bound : Option Node,
    boundSites (boundInSource source bound) =
      (boundSites bound).map fun (l, n) => (l, n.inSource source)
  | none => rfl
  | some bound => by simp [boundInSource, boundSites, sites_inSource source bound]

theorem allSites_inSource (source : Nat) : ∀ nodes : List Node,
    allSites (allInSource source nodes) =
      (allSites nodes).map fun (l, n) => (l, n.inSource source)
  | [] => rfl
  | node :: rest => by
    simp [allInSource, allSites, sites_inSource source node, allSites_inSource source rest]

theorem entriesSites_inSource (source : Nat) : ∀ entries : List (Token × Node),
    entriesSites (entriesInSource source entries) =
      (entriesSites entries).map fun (l, n) => (l, n.inSource source)
  | [] => rfl
  | (_, node) :: rest => by
    simp [entriesInSource, entriesSites, sites_inSource source node,
      entriesSites_inSource source rest]

end

theorem Sited.inSource {n : Node} (sited : n.Sited) (source : Nat) : (n.inSource source).Sited := by
  simpa [Sited, starts, sites_inSource, Function.comp_def] using sited

/-- What stands at a place of a tree is known by this place. -/
def StandsAt (location : Location) (n : Node) : Prop :=
  ∃ source, n.site? = some ⟨source, location⟩

mutual

theorem standsAt_of_mem : ∀ n : Node, ∀ part ∈ n.sites, StandsAt part.1 part.2
  | leaf _ => by simp [sites]
  | unary _ operand _ => standsAt_of_mem operand
  | reference path sigil =>
    List.forall_mem_cons.mpr ⟨⟨_, rfl⟩, standsAt_of_mem path⟩
  | binary _ left right =>
    List.forall_mem_append.mpr ⟨standsAt_of_mem left, standsAt_of_mem right⟩
  | member base _ => standsAt_of_mem base
  | index base operand =>
    List.forall_mem_append.mpr ⟨standsAt_of_mem base, standsAt_of_mem operand⟩
  | slice base bounds =>
    List.forall_mem_append.mpr ⟨standsAt_of_mem base, standsAt_of_mem_bounds bounds⟩
  | list elements _ =>
    List.forall_mem_cons.mpr ⟨⟨_, rfl⟩, standsAt_of_mem_all elements⟩
  | mapping entries _ =>
    List.forall_mem_cons.mpr ⟨⟨_, rfl⟩, standsAt_of_mem_entries entries⟩

theorem standsAt_of_mem_bounds : ∀ bounds : Bounds Node,
    ∀ part ∈ boundsSites bounds, StandsAt part.1 part.2
  | ⟨start, stop, step, _⟩ =>
    List.forall_mem_append.mpr ⟨List.forall_mem_append.mpr
      ⟨standsAt_of_mem_bound start, standsAt_of_mem_bound stop⟩, standsAt_of_mem_bound step⟩

theorem standsAt_of_mem_bound : ∀ bound : Option Node,
    ∀ part ∈ boundSites bound, StandsAt part.1 part.2
  | none => by simp [boundSites]
  | some bound => standsAt_of_mem bound

theorem standsAt_of_mem_all : ∀ nodes : List Node, ∀ part ∈ allSites nodes, StandsAt part.1 part.2
  | [] => by simp [allSites]
  | node :: rest =>
    List.forall_mem_append.mpr ⟨standsAt_of_mem node, standsAt_of_mem_all rest⟩

theorem standsAt_of_mem_entries : ∀ entries : List (Token × Node),
    ∀ part ∈ entriesSites entries, StandsAt part.1 part.2
  | [] => by simp [entriesSites]
  | (_, node) :: rest =>
    List.forall_mem_append.mpr ⟨standsAt_of_mem node, standsAt_of_mem_entries rest⟩

end

/-- The places in a tree of one source. -/
theorem site?_of_mem {n part : Node} {source : Nat} {location : Location}
    (among : (location, part) ∈ (n.inSource source).sites) :
    part.site? = some ⟨source, location⟩ := by
  obtain ⟨other, found⟩ := standsAt_of_mem _ _ among
  rw [sites_inSource] at among
  obtain ⟨⟨l, original⟩, -, same⟩ := List.mem_map.mp among
  cases same
  cases original <;> simp_all [inSource, site?]

/-! ### Plain trees in another source -/

@[simp] theorem isLiteral_inSource (source : Nat) (n : Node) :
    (n.inSource source).isLiteral = n.isLiteral := by
  cases n <;> rfl

@[simp] theorem literalBounds_inSource (source : Nat) (bounds : Bounds Node) :
    literalBounds (boundsInSource source bounds) = literalBounds bounds := by
  have bound (b : Option Node) : (boundInSource source b).all isLiteral = b.all isLiteral := by
    cases b <;> simp [boundInSource]
  obtain ⟨start, stop, step, span⟩ := bounds
  simp [boundsInSource, literalBounds, bound]

@[simp] theorem isPlainPath_inSource (source : Nat) : ∀ n : Node,
    (n.inSource source).isPlainPath = n.isPlainPath
  | leaf _ => rfl
  | unary _ _ _ => rfl
  | reference _ _ => rfl
  | binary _ _ _ => rfl
  | member base _ => isPlainPath_inSource source base
  | index base operand => by
    simp [inSource, isPlainPath, isPlainPath_inSource source base]
  | slice base bounds => by
    simp [inSource, isPlainPath, isPlainPath_inSource source base]
  | list _ _ => rfl
  | mapping _ _ => rfl

mutual

theorem isPlain_inSource (source : Nat) : ∀ n : Node, (n.inSource source).isPlain = n.isPlain
  | leaf _ => rfl
  | unary _ _ _ => rfl
  | reference path _ => isPlainPath_inSource source path
  | binary _ _ _ => rfl
  | member _ _ => rfl
  | index _ _ => rfl
  | slice _ _ => rfl
  | list elements _ => allPlain_inSource source elements
  | mapping entries _ => entriesPlain_inSource source entries

theorem allPlain_inSource (source : Nat) : ∀ nodes : List Node,
    allPlain (allInSource source nodes) = allPlain nodes
  | [] => rfl
  | node :: rest => by
    simp [allInSource, allPlain, isPlain_inSource source node, allPlain_inSource source rest]

theorem entriesPlain_inSource (source : Nat) : ∀ entries : List (Token × Node),
    entriesPlain (entriesInSource source entries) = entriesPlain entries
  | [] => rfl
  | (_, node) :: rest => by
    simp [entriesInSource, entriesPlain, isPlain_inSource source node,
      entriesPlain_inSource source rest]

end

end Node

end LazyConfig
