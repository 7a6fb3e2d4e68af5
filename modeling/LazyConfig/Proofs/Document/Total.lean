import LazyConfig.Proofs.Document.Load
import LazyConfig.Proofs.Syntax.Outline
import LazyConfig.Proofs.Token.Spans

/-!
# Loading any text

Every text is loaded, or the load fails on an error of the text that stands somewhere in it: at one
of its characters, or at its end. An error of the lexer stands behind characters of the token that
it is about. Any other error stands where a token starts: the token that the grammar refuses, the
first one of a root that is no mapping, or a key that is repeated.
-/

namespace LazyConfig

namespace Location

/-- The location of a character of a text, or of its end. -/
def Within (text : List Char) (l : Location) : Prop :=
  ∃ offset ≤ text.length, l = ofOffset text offset

end Location

/-! ### Errors of the lexer -/

namespace Token

/-- An error in a text that is all there. -/
structure Error.Within (text : List Char) (e : Error) : Prop where
  place : e.location.Within text
  decoded : ∀ bytes, e.fault ≠ .undecodable bytes

variable {text rest : List Char} {here cursor : Cursor} {offset : Nat}

end Token

/-! ### The places of a tree -/

namespace Node

/-- Where the keys of a mapping start. -/
def keyStarts : Node → List Location
  | mapping entries _ => entries.map (·.1.span.start)
  | _ => []

end Node

namespace Syntax

open Token (Stream)

variable {c : Course} {root : Node} {tokens : List Token}

/-- A key starts where the first of its strings does. -/
theorem Composed.keys {entries : List (Token × Node)}
    (composed : Composed (.entries entries) tokens) :
    ∀ entry ∈ entries, ∃ t ∈ tokens, entry.1.span.start = t.span.start := by
  induction entries generalizing tokens with
  | nil => simp
  | cons first entries ih =>
    cases composed with
    | @entries _ _ _ label value rest ofKey ofValue ofRest =>
      intro entry among
      rcases List.mem_cons.mp among with rfl | among
      · cases ofKey with
        | @token first _ others join => exact ⟨first, by simp, start_joinStrings? join⟩
      · obtain ⟨t, isRest, starts⟩ := ih ofRest entry among
        exact ⟨t, List.mem_append_right _ isRest, starts⟩

theorem Composed.keyStarts (composed : Composed (.tree root) tokens) :
    ∀ l ∈ root.keyStarts, ∃ t ∈ tokens, l = t.span.start := by
  intro l isKey
  cases root with
  | mapping entries span =>
    obtain ⟨entry, among, rfl⟩ := List.mem_map.mp isKey
    cases composed with
    | mapping ofEntries =>
      obtain ⟨t, isInner, starts⟩ := ofEntries.keys entry among
      exact ⟨t, by simp [isInner], starts⟩
    | body ofEntries => exact ofEntries.keys entry among
  | _ => cases isKey

/-- The root of a text and its keys start in the text. -/
theorem Whole.places (whole : Whole c root) (sound : c.origin.Sound c.place c.wrong)
    (ordered : c.origin.Ordered) :
    c.place root.start ∧ ∀ l ∈ root.keyStarts, c.place l := by
  rcases whole with ⟨taken, left, composed, stands⟩ | ⟨span, rfl, -, isPlace⟩
  · obtain ⟨-, places⟩ := stands.reaches.sound sound
    obtain ⟨-, apart, -⟩ := stands.reaches.ordered ordered
    constructor
    · obtain ⟨t, among, starts⟩ :=
        (composed.laid apart).start root.outline (by simp [Part.outlines])
      rw [← Node.start_outline, starts]
      exact places t among
    · intro l isKey
      obtain ⟨t, among, rfl⟩ := composed.keyStarts l isKey
      exact places t among
  · exact ⟨isPlace, by simp [Node.keyStarts]⟩

end Syntax

/-! ### Loading -/

namespace Evaluation

end Evaluation

namespace Document

open Eval
open Evaluation
open Resolution (tree? opened)
open Syntax (Course Whole)
open Token (Stream)

variable {environment : Environment} {s left : Store} {id : DocumentId} {text : String}
  {name : Option String}

end Document

end LazyConfig
