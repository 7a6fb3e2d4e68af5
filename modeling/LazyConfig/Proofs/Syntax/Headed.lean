import LazyConfig.Proofs.Resolution.Plain

/-!
# Trees and their heads

A test holds everywhere in a tree if it holds for the tree and for every tree in it. A path has heads
if it starts with a token, and so does every operand of a step that is written as part of its text;
such a path can be shown, unless an operator or a long number in it prevents that.
-/

namespace LazyConfig

open Syntax (Bounds InfixOp PrefixOp)

namespace Node

/-! ### Tests of every tree in a tree -/

section

variable (holds : Node → Bool)

mutual

/-- Whether a test holds for a tree and for every tree in it. -/
def everywhere : Node → Bool
  | leaf token => holds (leaf token)
  | unary op operand start => holds (unary op operand start) && operand.everywhere
  | reference path sigil => holds (reference path sigil) && path.everywhere
  | binary op left right => holds (binary op left right) && (left.everywhere && right.everywhere)
  | member base name => holds (member base name) && base.everywhere
  | index base operand => holds (index base operand) && (base.everywhere && operand.everywhere)
  | slice base bounds => holds (slice base bounds) && (base.everywhere && boundsEverywhere bounds)
  | list elements span => holds (list elements span) && allEverywhere elements
  | mapping entries span => holds (mapping entries span) && entriesEverywhere entries

def boundsEverywhere : Bounds Node → Bool
  | ⟨start, stop, step, _⟩ => boundEverywhere start && (boundEverywhere stop && boundEverywhere step)

def boundEverywhere : Option Node → Bool
  | none => true
  | some bound => bound.everywhere

def allEverywhere : List Node → Bool
  | [] => true
  | node :: rest => node.everywhere && allEverywhere rest

def entriesEverywhere : List (Token × Node) → Bool
  | [] => true
  | (_, node) :: rest => node.everywhere && entriesEverywhere rest

end

end

variable {holds : Node → Bool}

theorem boundsEverywhere_iff {bounds : Bounds Node} :
    boundsEverywhere holds bounds ↔ boundEverywhere holds bounds.start ∧
      boundEverywhere holds bounds.stop ∧ boundEverywhere holds bounds.step := by
  cases bounds
  simp only [boundsEverywhere, Bool.and_eq_true]

theorem everywhere_of_bound {bound : Option Node} (all : boundEverywhere holds bound) :
    ∀ n, bound = some n → n.everywhere holds := by
  rintro n rfl
  exact all

theorem allEverywhere_iff {nodes : List Node} :
    allEverywhere holds nodes ↔ ∀ n ∈ nodes, n.everywhere holds := by
  induction nodes with
  | nil => simp [allEverywhere]
  | cons node rest ih => simp [allEverywhere, ih]

theorem entriesEverywhere_iff {entries : List (Token × Node)} :
    entriesEverywhere holds entries ↔ ∀ e ∈ entries, e.2.everywhere holds := by
  induction entries with
  | nil => simp [entriesEverywhere]
  | cons entry rest ih => simp [entriesEverywhere, ih]

mutual

/-- A test that does not depend on the source of a tree holds everywhere in the tree from another
source. -/
theorem everywhere_inSource {k : Nat} (same : ∀ n : Node, holds (n.inSource k) = holds n) :
    ∀ n : Node, (n.inSource k).everywhere holds = n.everywhere holds
  | leaf token => same (leaf token)
  | unary op operand start => by
    rw [inSource, everywhere, everywhere, everywhere_inSource same operand]
    exact congrArg (· && _) (same (unary op operand start))
  | reference path sigil => by
    rw [inSource, everywhere, everywhere, everywhere_inSource same path]
    exact congrArg (· && _) (same (reference path sigil))
  | binary op left right => by
    rw [inSource, everywhere, everywhere, everywhere_inSource same left,
      everywhere_inSource same right]
    exact congrArg (· && _) (same (binary op left right))
  | member base name => by
    rw [inSource, everywhere, everywhere, everywhere_inSource same base]
    exact congrArg (· && _) (same (member base name))
  | index base operand => by
    rw [inSource, everywhere, everywhere, everywhere_inSource same base,
      everywhere_inSource same operand]
    exact congrArg (· && _) (same (index base operand))
  | slice base bounds => by
    rw [inSource, everywhere, everywhere, everywhere_inSource same base,
      boundsEverywhere_inSource same bounds]
    exact congrArg (· && _) (same (slice base bounds))
  | list elements span => by
    rw [inSource, everywhere, everywhere, allEverywhere_inSource same elements]
    exact congrArg (· && _) (same (list elements span))
  | mapping entries span => by
    rw [inSource, everywhere, everywhere, entriesEverywhere_inSource same entries]
    exact congrArg (· && _) (same (mapping entries span))

theorem boundsEverywhere_inSource {k : Nat} (same : ∀ n : Node, holds (n.inSource k) = holds n) :
    ∀ bounds : Bounds Node,
      boundsEverywhere holds (boundsInSource k bounds) = boundsEverywhere holds bounds
  | ⟨start, stop, step, _⟩ => by
    rw [boundsInSource, boundsEverywhere, boundsEverywhere, boundEverywhere_inSource same start,
      boundEverywhere_inSource same stop, boundEverywhere_inSource same step]

theorem boundEverywhere_inSource {k : Nat} (same : ∀ n : Node, holds (n.inSource k) = holds n) :
    ∀ bound : Option Node,
      boundEverywhere holds (boundInSource k bound) = boundEverywhere holds bound
  | none => rfl
  | some bound => everywhere_inSource same bound

theorem allEverywhere_inSource {k : Nat} (same : ∀ n : Node, holds (n.inSource k) = holds n) :
    ∀ nodes : List Node, allEverywhere holds (allInSource k nodes) = allEverywhere holds nodes
  | [] => rfl
  | node :: rest => by
    rw [allInSource, allEverywhere, allEverywhere, everywhere_inSource same node,
      allEverywhere_inSource same rest]

theorem entriesEverywhere_inSource {k : Nat} (same : ∀ n : Node, holds (n.inSource k) = holds n) :
    ∀ entries : List (Token × Node),
      entriesEverywhere holds (entriesInSource k entries) = entriesEverywhere holds entries
  | [] => rfl
  | (key, node) :: rest => by
    rw [entriesInSource, entriesEverywhere, entriesEverywhere, everywhere_inSource same node,
      entriesEverywhere_inSource same rest]

end

end Node

/-- Whether a test holds everywhere in the operands of a step. -/
def Step.everywhere (holds : Node → Bool) : Step → Bool
  | .member _ => true
  | .index operand => operand.everywhere holds
  | .operator _ operand => operand.everywhere holds
  | .slice bounds => Node.boundsEverywhere holds bounds

namespace Node

variable {holds : Node → Bool}

theorem stepsReversed_everywhere : ∀ path : Node, path.everywhere holds →
    ∀ step ∈ path.stepsReversed, step.everywhere holds
  | leaf _, _ => by simp [stepsReversed]
  | list _ _, _ => by simp [stepsReversed]
  | mapping _ _, _ => by simp [stepsReversed]
  | unary _ operand _, all => by
    rw [everywhere, Bool.and_eq_true] at all
    exact stepsReversed_everywhere operand all.2
  | reference path _, all => by
    rw [everywhere, Bool.and_eq_true] at all
    exact stepsReversed_everywhere path all.2
  | binary op left right, all => by
    simp only [everywhere, Bool.and_eq_true] at all
    exact List.forall_mem_cons.mpr ⟨all.2.2, stepsReversed_everywhere left all.2.1⟩
  | member base _, all => by
    rw [everywhere, Bool.and_eq_true] at all
    exact List.forall_mem_cons.mpr ⟨rfl, stepsReversed_everywhere base all.2⟩
  | index base operand, all => by
    simp only [everywhere, Bool.and_eq_true] at all
    exact List.forall_mem_cons.mpr ⟨all.2.2, stepsReversed_everywhere base all.2.1⟩
  | slice base bounds, all => by
    simp only [everywhere, Bool.and_eq_true] at all
    exact List.forall_mem_cons.mpr ⟨all.2.2, stepsReversed_everywhere base all.2.1⟩

theorem steps_everywhere {path : Node} (all : path.everywhere holds) :
    ∀ step ∈ path.steps, step.everywhere holds := by
  intro step among
  exact stepsReversed_everywhere path all step (List.mem_reverse.mp among)

/-! ### Heads -/

mutual

/-- Whether a path starts with a token, and so does every operand that its text contains. -/
def isHeaded : Node → Bool
  | leaf _ => true
  | unary _ operand _ => operand.isHeaded
  | reference path _ => path.isHeaded
  | binary _ left _ => left.isHeaded
  | member base _ => base.isHeaded
  | index base operand => base.isHeaded && operand.isHeaded
  | slice base bounds => base.isHeaded && boundsHeaded bounds
  | list _ _ => false
  | mapping _ _ => false

def boundsHeaded : Bounds Node → Bool
  | ⟨start, stop, step, _⟩ => boundHeaded start && (boundHeaded stop && boundHeaded step)

def boundHeaded : Option Node → Bool
  | none => true
  | some bound => bound.isHeaded

end

mutual

theorem isHeaded_inSource (k : Nat) : ∀ n : Node, (n.inSource k).isHeaded = n.isHeaded
  | leaf _ | list _ _ | mapping _ _ => rfl
  | unary _ operand _ => isHeaded_inSource k operand
  | reference path _ => isHeaded_inSource k path
  | binary _ left _ => isHeaded_inSource k left
  | member base _ => isHeaded_inSource k base
  | index base operand => by
    rw [inSource, isHeaded, isHeaded, isHeaded_inSource k base, isHeaded_inSource k operand]
  | slice base bounds => by
    rw [inSource, isHeaded, isHeaded, isHeaded_inSource k base, boundsHeaded_inSource k bounds]

theorem boundsHeaded_inSource (k : Nat) : ∀ bounds : Bounds Node,
    boundsHeaded (boundsInSource k bounds) = boundsHeaded bounds
  | ⟨start, stop, step, _⟩ => by
    rw [boundsInSource, boundsHeaded, boundsHeaded, boundHeaded_inSource k start,
      boundHeaded_inSource k stop, boundHeaded_inSource k step]

theorem boundHeaded_inSource (k : Nat) : ∀ bound : Option Node,
    boundHeaded (boundInSource k bound) = boundHeaded bound
  | none => rfl
  | some bound => isHeaded_inSource k bound

end

end Node

namespace Path

variable {α β : Type}

/-- Writing a text does not fail on a missing head. -/
def HasHead (result : Except SourceFault α) : Prop :=
  ∀ fault, result = .error fault → fault ≠ .noHead ∧ fault ≠ .stepFirst

theorem HasHead.ok (a : α) : HasHead (.ok a) := by
  intro fault failed
  cases failed

theorem HasHead.bind {first : Except SourceFault α} {next : α → Except SourceFault β}
    (hasHead : HasHead first) (goesOn : ∀ a, HasHead (next a)) : HasHead (first >>= next) := by
  cases first with
  | error fault =>
    intro other failed
    cases failed
    exact hasHead fault rfl
  | ok a => exact goesOn a

theorem HasHead.beforeStep {result : Except SourceFault String} (hasHead : HasHead result) :
    HasHead (beforeStep result) := by
  unfold Path.beforeStep
  split
  · exact absurd rfl (hasHead .noHead rfl).1
  · exact hasHead

theorem HasHead.ofSpine {result : Except SourceFault String} (node : Node)
    (hasHead : HasHead result) : HasHead (ofSpine node result) := by
  unfold Path.ofSpine
  split
  · exact .ok _
  · split
    all_goals
      intro fault failed
      cases failed
      simp
  · exact hasHead

mutual

theorem hasHead_spine : ∀ n : Node, n.isHeaded → HasHead (spine n)
  | .leaf token, _ => by
    rw [spine]
    split
    · exact .ok _
    · intro fault failed
      cases failed
      simp
  | .unary _ operand _, headed => hasHead_spine operand headed
  | .reference path _, headed => hasHead_spine path headed
  | .binary _ left _, headed => by
    rw [spine]
    refine (hasHead_spine left headed).beforeStep.bind fun _ => ?_
    intro fault failed
    cases failed
    simp
  | .member base _, headed => by
    rw [spine]
    exact (hasHead_spine base headed).beforeStep.bind fun _ => .ok _
  | .index base operand, headed => by
    obtain ⟨before, inside⟩ := Bool.and_eq_true_iff.mp headed
    rw [spine]
    exact (hasHead_spine base before).beforeStep.bind fun _ =>
      ((hasHead_spine operand inside).ofSpine operand).bind fun _ => .ok _
  | .slice base bounds, headed => by
    obtain ⟨before, inside⟩ := Bool.and_eq_true_iff.mp headed
    rw [spine]
    exact (hasHead_spine base before).beforeStep.bind fun _ =>
      (hasHead_boundsText bounds inside).bind fun _ => .ok _

theorem hasHead_boundsText : ∀ bounds : Bounds Node, Node.boundsHeaded bounds →
    HasHead (boundsText bounds)
  | ⟨start, stop, step, _⟩, headed => by
    simp only [Node.boundsHeaded, Bool.and_eq_true] at headed
    rw [boundsText]
    exact (hasHead_boundText "" start headed.1).bind fun _ =>
      (hasHead_boundText ":" stop headed.2.1).bind fun _ =>
        (hasHead_boundText ":" step headed.2.2).bind fun _ => .ok _

theorem hasHead_boundText (mark : String) : ∀ bound : Option Node, Node.boundHeaded bound →
    HasHead (boundText mark bound)
  | none, _ => .ok _
  | some bound, headed => by
    rw [boundText]
    exact ((hasHead_spine bound headed).ofSpine bound).bind fun _ => .ok _

end

/-- Writing a path with heads fails on an operator or a long number only. -/
theorem hasHead_sourceText {n : Node} (headed : n.isHeaded) : HasHead n.sourceText :=
  (hasHead_spine n headed).ofSpine n

end Path

namespace Node

/-! ### Trees that stand alone -/

/-- Whether a tree itself neither includes a file nor converts a text. If heads are asked for, the
path of a reference must have them. -/
def asksNothing (headed : Bool) : Node → Bool
  | leaf token => token.kind ≠ .backTick
  | unary op _ _ => op ≠ .located
  | reference path _ => !headed || path.isHeaded
  | _ => true

/-- Whether no tree in a tree includes a file or converts a text. If heads are asked for, all paths of
references in it have them. -/
def standsAlone (headed : Bool) (n : Node) : Bool := n.everywhere (asksNothing headed)

/-- The same of a path, and if heads are asked for, the path has them itself. -/
def leadsAlone (headed : Bool) (path : Node) : Bool :=
  (!headed || path.isHeaded) && path.standsAlone headed

section

variable {headed : Bool} {operand path left right : Node} {start sigil : Location} {span : Span}

theorem standsAlone_leaf {token : Token} (alone : (leaf token).standsAlone headed) :
    token.kind ≠ .backTick := by
  simpa [standsAlone, everywhere, asksNothing] using alone

theorem standsAlone_unary {op : PrefixOp} (alone : (unary op operand start).standsAlone headed) :
    op ≠ .located ∧ operand.standsAlone headed := by
  simpa [standsAlone, everywhere, asksNothing] using alone

theorem standsAlone_reference (alone : (reference path sigil).standsAlone headed) :
    path.leadsAlone headed := by
  rwa [standsAlone, everywhere] at alone

theorem standsAlone_binary {op : InfixOp} (alone : (binary op left right).standsAlone headed) :
    left.standsAlone headed ∧ right.standsAlone headed := by
  simpa [standsAlone, everywhere, asksNothing] using alone

theorem standsAlone_elements {elements : List Node}
    (alone : (list elements span).standsAlone headed) : ∀ n ∈ elements, n.standsAlone headed := by
  rw [standsAlone, everywhere, Bool.and_eq_true] at alone
  exact allEverywhere_iff.mp alone.2

theorem standsAlone_entries {entries : List (Token × Node)}
    (alone : (mapping entries span).standsAlone headed) :
    ∀ e ∈ entries, e.2.standsAlone headed := by
  rw [standsAlone, everywhere, Bool.and_eq_true] at alone
  exact entriesEverywhere_iff.mp alone.2

/-- With heads, a path can be shown but for operators and long numbers in it. -/
theorem hasHead_of_leadsAlone (alone : path.leadsAlone headed) (withHeads : headed = true) :
    Path.HasHead path.sourceText := by
  rw [leadsAlone, withHeads, Bool.and_eq_true] at alone
  exact Path.hasHead_sourceText alone.1

theorem steps_of_leadsAlone (alone : path.leadsAlone headed) :
    ∀ step ∈ path.steps, step.everywhere (asksNothing headed) := by
  rw [leadsAlone, Bool.and_eq_true] at alone
  exact steps_everywhere alone.2

end

theorem standsAlone_inSource (headed : Bool) (k : Nat) (n : Node) :
    (n.inSource k).standsAlone headed = n.standsAlone headed := by
  apply everywhere_inSource
  intro n
  cases n with
  | reference path sigil => exact congrArg (!headed || ·) (isHeaded_inSource k path)
  | _ => rfl

theorem leadsAlone_inSource (headed : Bool) (k : Nat) (path : Node) :
    (path.inSource k).leadsAlone headed = path.leadsAlone headed := by
  rw [leadsAlone, leadsAlone, isHeaded_inSource, standsAlone_inSource]

end Node

end LazyConfig
