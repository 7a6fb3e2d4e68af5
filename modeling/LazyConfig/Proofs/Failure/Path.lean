import LazyConfig.Proofs.Failure.View
import LazyConfig.Proofs.Slice.Positions

/-!
# Contained paths

Following a path in a local store is contained: a step never leads to another document, an index or a
slice never leads out of its list, and what a message shows of a path fails only as it may.
-/

namespace LazyConfig.Evaluation

open Eval
open Resolution (stride positions sliced_eq entryOf walk follow_eq reference_eq resolve)
open Syntax (Bounds)

variable {headed : Bool} {m : Machine} {path : Node}

/-- The operand of a step is local, or its bounds stand alone. -/
def ReadyStep.IsLocal (headed : Bool) : ReadyStep → Prop
  | .operand v => v.IsLocal
  | .slice bounds => Node.boundsEverywhere (Node.asksNothing headed) bounds

/-- What a path has led to: a value in the first document. -/
def LocallyReached (reached : DocumentId × Value) : Prop := reached.1 = 0 ∧ reached.2.IsLocal

/-- A path without a head can be shown where heads are not asked for only. -/
theorem contained_sourceText (alone : path.leadsAlone headed) :
    Contained headed (fun _ => True) (sourceText path) := by
  have hasHead := Node.hasHead_of_leadsAlone alone
  have unheaded {fault : Path.SourceFault} (failed : path.sourceText = .error fault)
      (headless : fault = .noHead ∨ fault = .stepFirst) : headed = false := by
    rw [Bool.eq_false_iff]
    intro withHeads
    obtain ⟨notHead, notStep⟩ := hasHead withHeads fault failed
    exact headless.elim notHead notStep
  unfold sourceText
  split
  · exact .pure trivial
  · rename_i failed
    exact .failHost (unheaded failed (.inl rfl))
  · rename_i failed
    exact .failHost (unheaded failed (.inr rfl))
  · exact .failHost trivial
  · exact .fail _ _
  · exact .fail _ _

section

variable (answers : m.IsLocal headed)

include answers

/-! ### Slices -/

theorem contained_bound {node : Node} (alone : node.standsAlone headed) :
    Contained headed (fun _ => True) (bound m 0 node) := by
  refine (answers.evaluate node alone).bind fun v _ => ?_
  split
  · exact .pure trivial
  · exact (Contained.describe _).bind fun _ _ => .fail _ _

theorem contained_stride {bounds : Bounds Node}
    (alone : Node.boundsEverywhere (Node.asksNothing headed) bounds) :
    Contained headed (fun _ => True) (stride m 0 bounds) := by
  have ofStep := (Node.boundsEverywhere_iff.mp alone).2.2
  unfold stride
  split
  · exact .pure trivial
  · rename_i isStep
    exact contained_bound answers (Node.everywhere_of_bound ofStep _ isStep)

theorem contained_positions {bounds : Bounds Node}
    (alone : Node.boundsEverywhere (Node.asksNothing headed) bounds) (size : Nat) (step : Int) :
    Contained headed (fun selected : List Nat => ∀ p ∈ selected, p < size)
      (positions m 0 size bounds step) := by
  obtain ⟨ofStart, ofStop, -⟩ := Node.boundsEverywhere_iff.mp alone
  unfold positions
  split
  · exact .fail _ _
  split
  · exact .pure (by simp)
  · refine (Contained.optionMapM fun node isStart =>
      contained_bound answers (Node.everywhere_of_bound ofStart node isStart)).bind fun start _ => ?_
    refine (Contained.optionMapM fun node isStop =>
      contained_bound answers (Node.everywhere_of_bound ofStop node isStop)).bind fun stop _ => ?_
    exact .pure fun p among => Slice.lt_of_mem_slicePositions among

theorem contained_sliced (id : ViewId) {bounds : Bounds Node}
    (alone : Node.boundsEverywhere (Node.asksNothing headed) bounds) :
    Contained headed Value.IsLocal (sliced m 0 id bounds) := by
  intro environment s outside isLocal
  rw [sliced_eq, ContainedFrom, run_bind, run_viewSlots]
  dsimp only
  rw [run_bind, run_viewOwner, (isLocal.views id).owner_eq]
  refine (contained_stride answers alone environment s outside isLocal).bind
    fun step first ranStep isFirst _ => ?_
  refine (contained_positions answers alone (s.view id).slots.length step environment first outside
    isFirst).bind fun selected second ranSelected isSecond inside => ?_
  -- evaluating the bounds has taken no slot away
  have kept : s.Keeps second := ((evolving_stride answers.asked 0 bounds).keeps ranStep).trans
    ((evolving_positions answers.asked 0 _ bounds step).keeps ranSelected)
  refine (containedFrom_elements outside (fun index => evolving_element answers.asked id index)
    (fun index s isLocal => containedFrom_element answers outside isLocal) selected second isSecond
    fun index among => kept.slot_lt (inside index among)).bind fun items left _ isLeft areItems => ?_
  have isView : (View.list 0 (items.map .value)).IsLocal headed := by
    refine ⟨rfl, fun slot among => ?_⟩
    obtain ⟨v, isItem, rfl⟩ := List.mem_map.mp among
    exact areItems v isItem
  exact (Contained.addView isView).bind (fun id _ => .pure trivial) environment left outside isLeft

/-! ### Steps -/

theorem contained_ready {step : Step} (alone : step.everywhere (Node.asksNothing headed)) :
    Contained headed (·.IsLocal headed) (ready m 0 step) := by
  cases step with
  | member name => exact (Contained.newText name).bind fun v outside => .pure outside.isLocal
  | index operand => exact (answers.evaluate operand alone).bind fun v isValue => .pure isValue
  | operator _ operand => exact (answers.evaluate operand alone).bind fun v isValue => .pure isValue
  | slice bounds => exact .pure alone

theorem contained_stepInto (id : ViewId) (key : String) :
    Contained headed LocallyReached (stepInto m 0 id key) := by
  refine (Contained.entries id).bind fun entries areLocal => ?_
  split
  · exact .fail _ _
  · rename_i slot isEntry
    obtain ⟨entry, among, rfl⟩ := mem_of_lookup isEntry
    exact (contained_slotValue answers (areLocal entry among)).bind fun v isValue =>
      .pure ⟨rfl, isValue⟩

theorem contained_elementAt (id : ViewId) (index : Int) :
    Contained headed LocallyReached (elementAt m id index) := by
  refine (Contained.viewOwner id).bind fun evaluator isFirst => ?_
  subst isFirst
  refine (Contained.slots id).bind fun present areLocal => ?_
  have isLocal {position : Int} {slot : Slot}
      (isSlot : (if position < 0 then none else present[position.toNat]?) = some slot) :
      slot.IsLocal headed := by
    split at isSlot
    · cases isSlot
    · exact areLocal slot (List.mem_of_getElem? isSlot)
  dsimp only
  split
  · exact (Contained.shown _).bind fun _ _ => .fail _ _
  · rename_i v isSlot
    exact .pure ⟨rfl, isLocal isSlot⟩
  · rename_i node isSlot
    refine (answers.evaluate node (isLocal isSlot)).bind fun v isValue => ?_
    exact (Contained.setSlot id _ isValue).bind fun _ _ => .pure ⟨rfl, isValue⟩

theorem contained_keyed {locate : Eval (DocumentId × ViewId)}
    (located : Contained headed (·.1 = 0) locate) {step : ReadyStep} :
    Contained headed LocallyReached (keyed m locate step) := by
  unfold keyed
  split
  · exact .fail _ _
  · refine located.bind fun place isFirst => ?_
    obtain ⟨evaluator, view⟩ := place
    obtain rfl : evaluator = 0 := isFirst
    exact contained_stepInto answers view _
  · exact (Contained.describe _).bind fun _ _ => .fail _ _

theorem contained_take (alone : path.leadsAlone headed) {v : Value} (isValue : v.IsLocal)
    {step : ReadyStep} (isStep : step.IsLocal headed) :
    Contained headed LocallyReached (take m path v step) := by
  unfold take
  split
  · exact contained_keyed answers ((Contained.viewOwner _).bind fun owner isFirst => .pure isFirst)
  · exact absurd isValue (Value.not_isLocal_document _)
  · refine (Contained.viewOwner _).bind fun evaluator isFirst => ?_
    subst isFirst
    split
    · exact (contained_sliced answers _ isStep).bind fun w isSlice => .pure ⟨rfl, isSlice⟩
    · exact contained_elementAt answers _ _
    · exact (Contained.describe _).bind fun _ _ => .fail _ _
  · split
    · exact .fail _ _
    · exact (contained_sourceText alone).bind fun _ _ => .fail _ _

/-! ### Paths and references -/

theorem contained_entryOf (head : Token) : Contained headed LocallyReached (entryOf m 0 head) := by
  refine Contained.document.bind fun d isDocument => ?_
  split
  · -- the first document has a root
    rename_i notLoaded
    rw [notLoaded] at isDocument
    cases isDocument.1
  · refine (Contained.viewOwner _).bind fun evaluator isFirst => ?_
    subst isFirst
    refine (Contained.entries _).bind fun entries areLocal => ?_
    split
    · exact .fail _ _
    · rename_i slot isEntry
      obtain ⟨entry, among, rfl⟩ := mem_of_lookup isEntry
      exact (contained_slotValue answers (areLocal entry among)).bind fun v isValue =>
        .pure ⟨rfl, isValue⟩

theorem contained_walk (alone : path.leadsAlone headed) {reached : DocumentId × Value}
    (isReached : LocallyReached reached) : Contained headed LocallyReached (walk m path reached) := by
  refine .foldlM (fun step among reached isReached => ?_) isReached
  obtain ⟨evaluator, v⟩ := reached
  obtain ⟨rfl, isValue⟩ : evaluator = 0 ∧ v.IsLocal := isReached
  refine (contained_ready answers (Node.steps_of_leadsAlone alone step among)).bind
    fun step isStep => ?_
  exact contained_take answers alone isValue isStep

theorem contained_follow (alone : path.leadsAlone headed) :
    Contained headed Value.IsLocal (follow m 0 path) := by
  rw [follow_eq]
  split
  · exact .fail _ _
  · split
    · exact .fail _ _
    · refine (contained_entryOf answers _).bind fun reached isReached => ?_
      exact (contained_walk answers alone isReached).bind fun reached isReached =>
        .pure isReached.2

theorem contained_reference (alone : path.leadsAlone headed) (sigil : Location) :
    Contained headed Value.IsLocal (reference m 0 path sigil) := by
  rw [reference_eq]
  refine Contained.document.bind fun d isDocument => ?_
  dsimp only
  split
  · -- the report shows the paths of all references that are pending
    have texts : Contained headed (fun texts : List String => ∀ text ∈ texts, True)
        (d.pending.mapM pendingText) := .mapM fun p among =>
      (contained_sourceText (isDocument.2 p among)).bind fun _ _ => .pure trivial
    exact texts.bind fun _ _ => .fail _ _
  · refine Contained.bind (Contained.modifyDocument ?_ ?_) fun _ _ => ?_
    · exact fun _ loaded => loaded
    · exact fun d pending => List.forall_mem_cons.mpr ⟨alone, pending⟩
    · refine (contained_follow answers alone).andFinally ?_ ?_
      · exact fun _ loaded => loaded
      · exact fun d pending p among => pending p (List.mem_of_mem_filter among)

end

end LazyConfig.Evaluation
