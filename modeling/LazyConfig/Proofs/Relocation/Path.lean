import LazyConfig.Proofs.Relocation.View

/-!
# Paths in relocated stores

A path that is followed from a relocated document leads to the relocated value. Where a document or
a view stands in a store does not matter to the steps of a path, to the slices that it takes and to
the references that wait for it.
-/

namespace LazyConfig

open Eval
open Evaluation
open Resolution
open Syntax (Bounds)

namespace Evaluation.ReadyStep

def relocate (r : Relocation) : ReadyStep → ReadyStep
  | operand v => operand (v.relocate r)
  | slice bounds => slice bounds

def Within (scope : Scope) : ReadyStep → Prop
  | operand v => v.Within scope
  | slice _ => True

end Evaluation.ReadyStep

def Cargo.readyStep (r : Relocation) : Cargo ReadyStep :=
  ⟨ReadyStep.relocate r, ReadyStep.Within, fun {_ _ step} le within => by
    cases step with
    | operand v => exact Value.Within.mono le (show v.Within _ from within)
    | slice bounds => trivial⟩

/-- The value that a path has reached, and the document that evaluates what comes next. -/
abbrev Cargo.reached (r : Relocation) : Cargo (DocumentId × Value) :=
  (Cargo.document r).pair (.value r)

namespace Evaluation

variable {r : Relocation} {scope : Scope}

theorem alike_sourceText (path : Node) :
    Alike r .plain scope (sourceText path) (sourceText path) := by
  unfold sourceText
  split
  · exact .plain _
  · exact .failHost _
  · exact .failHost _
  · exact .failHost _
  · exact .fail _ _
  · exact .fail _ _

theorem alike_reached {evaluator : DocumentId} {v : Value} (inside : evaluator < scope.documents)
    (within : v.Within scope) :
    Alike r (.reached r) scope (pure (evaluator, v))
      (pure (r.document evaluator, v.relocate r)) :=
  @Alike.pure _ _ _ (.reached r) (evaluator, v) ⟨inside, within⟩

variable {m : Machine} (asks : m.AsksAlike r)

include asks

theorem alike_evaluate {id : DocumentId} (node : Node) (inside : id < scope.documents) :
    Alike r (.value r) scope (m.evaluate id node) (m.evaluate (r.document id) node) :=
  @asks scope (.evaluate id node) inside

/-! ### Slices -/

theorem alike_bound {evaluator : DocumentId} (node : Node) (inside : evaluator < scope.documents) :
    Alike r .plain scope (bound m evaluator node) (bound m (r.document evaluator) node) := by
  refine (alike_evaluate asks node inside).bind fun {wider} _ v within => ?_
  have refused : Alike r (.plain (α := Int)) wider
      (do fail (.notInteger (← describe v)) node.start)
      (do fail (.notInteger (← describe (v.relocate r))) node.start) :=
    (alike_describe within).bind fun _ _ _ => .fail _ _
  cases v with
  | number n mark =>
    cases n with
    | int n => exact .plain n
    | _ => exact refused
  | _ =>
    simp only [Cargo.value, Value.relocate] at refused ⊢
    exact refused

theorem alike_stride {evaluator : DocumentId} (bounds : Bounds Node)
    (inside : evaluator < scope.documents) :
    Alike r .plain scope (stride m evaluator bounds) (stride m (r.document evaluator) bounds) := by
  unfold stride
  split
  · exact .plain _
  · exact alike_bound asks _ inside

theorem alike_positions {evaluator : DocumentId} (size : Nat) (bounds : Bounds Node) (step : Int)
    (inside : evaluator < scope.documents) :
    Alike r .plain scope (positions m evaluator size bounds step)
      (positions m (r.document evaluator) size bounds step) := by
  unfold positions
  split
  · exact .fail _ _
  split
  · exact .plain _
  · have plain (item : Option Int) : (Cargo.plain (α := Int)).option.relocate item = item :=
      congrFun Option.map_id item
    refine (Alike.optionMapM (fun node => alike_bound asks node inside) _).bind
      fun {wider} le start _ => ?_
    refine (Alike.optionMapM (fun node =>
      alike_bound asks node ((Cargo.document r).mono le inside)) _).bind fun _ stop _ => ?_
    rw [plain, plain]
    exact .plain _

theorem alike_sliced {evaluator : DocumentId} {id : ViewId} (bounds : Bounds Node)
    (inside : evaluator < scope.documents) (viewInside : id < scope.views) :
    Alike r (.value r) scope (sliced m evaluator id bounds)
      (sliced m (r.document evaluator) (r.view id) bounds) := by
  rw [sliced_eq, sliced_eq]
  refine (Alike.slots viewInside).bind fun {a} le present _ => ?_
  refine (Alike.viewOwner ((Cargo.view r).mono le viewInside)).bind
    fun {b} more owner ownerInside => ?_
  have on := le.trans more
  refine (alike_stride asks bounds ((Cargo.document r).mono on inside)).bind fun {c} more step _ => ?_
  have on := on.trans more
  rw [show ((Cargo.slot r).list.relocate present).length = present.length from List.length_map _]
  refine (alike_positions asks present.length bounds step ((Cargo.document r).mono on inside)).bind
    fun {d} further selected _ => ?_
  have items : Alike r (Cargo.value r).list d (selected.mapM (element m id))
      (selected.mapM (element m (r.view id))) :=
    .mapM_plain fun most index =>
      alike_element asks index ((Cargo.view r).mono ((on.trans further).trans most) viewInside)
  refine items.bind fun {e} last items within => ?_
  have there := (Cargo.document r).mono ((more.trans further).trans last) ownerInside
  exact (alike_viewOfValues there within).bind fun _ id present =>
    @Alike.value _ _ (.listView id) present

/-! ### Steps -/

theorem alike_ready {evaluator : DocumentId} (step : Step) (inside : evaluator < scope.documents) :
    Alike r (.readyStep r) scope (ready m evaluator step) (ready m (r.document evaluator) step) := by
  have operand {wider : Scope} {v : Value} (within : v.Within wider) :
      Alike r (.readyStep r) wider (pure (.operand v)) (pure (.operand (v.relocate r))) :=
    @Alike.pure _ _ _ (.readyStep r) (.operand v) within
  cases step with
  | member name => exact (Alike.newText name).bind fun _ _ within => operand within
  | index node => exact (alike_evaluate asks node inside).bind fun _ _ within => operand within
  | operator _ node => exact (alike_evaluate asks node inside).bind fun _ _ within => operand within
  | slice bounds => exact @Alike.pure _ _ _ (.readyStep r) (.slice bounds) trivial

theorem alike_stepInto {evaluator : DocumentId} {id : ViewId} (key : String)
    (inside : evaluator < scope.documents) (viewInside : id < scope.views) :
    Alike r (.reached r) scope (stepInto m evaluator id key)
      (stepInto m (r.document evaluator) (r.view id) key) := by
  refine (Alike.entries viewInside).bind fun {wider} le entries within => ?_
  rw [Cargo.lookup_relocate]
  cases found : entries.lookup key with
  | none => exact .fail _ _
  | some slot =>
    have slotWithin : slot.Within wider := @Cargo.within_lookup _ _ _ (.slot r) _ _ _ _ within found
    have there := (Cargo.document r).mono le inside
    exact (alike_slotValue asks there slotWithin).bind fun more _ vWithin =>
      alike_reached ((Cargo.document r).mono more there) vWithin

theorem alike_elementAt {id : ViewId} (index : Int) (inside : id < scope.views) :
    Alike r (.reached r) scope (elementAt m id index) (elementAt m (r.view id) index) := by
  refine (Alike.viewOwner inside).bind fun {wide} le evaluator evaluatorInside => ?_
  refine (Alike.slots ((Cargo.view r).mono le inside)).bind fun {wider} more present within => ?_
  have there := (Cargo.view r).mono (le.trans more) inside
  have evaluatorThere := (Cargo.document r).mono more evaluatorInside
  rw [show ((Cargo.slot r).list.relocate present).length = present.length from List.length_map _]
  dsimp only
  generalize (if -(present.length : Int) ≤ index ∧ index < 0 then index + present.length
    else index) = position
  have outOfRange : Alike r (.reached r) wider
      (do fail (.outOfRange (← shown (Decimal.intText? index))
        (toString ((present.length : Int) - 1))))
      (do fail (.outOfRange (← shown (Decimal.intText? index))
        (toString ((present.length : Int) - 1)))) :=
    (Alike.shown _).bind fun _ _ _ => .fail _ _
  by_cases negative : position < 0
  · simp only [if_pos negative]
    exact outOfRange
  · simp only [if_neg negative]
    rw [show ((Cargo.slot r).list.relocate present)[position.toNat]? =
      present[position.toNat]?.map (Slot.relocate r) from List.getElem?_map]
    cases found : present[position.toNat]? with
    | none => exact outOfRange
    | some slot =>
      have slotWithin := within slot (List.mem_of_getElem? found)
      cases slot with
      | value v => exact alike_reached evaluatorThere slotWithin
      | node node =>
        refine (alike_evaluate asks node evaluatorThere).bind fun more v vWithin => ?_
        refine (Alike.setSlot position.toNat ((Cargo.view r).mono more there) vWithin).bind
          fun most _ _ => ?_
        exact alike_reached ((Cargo.document r).mono (more.trans most) evaluatorThere)
          (vWithin.mono most)

theorem alike_keyed {id other : Eval (DocumentId × ViewId)} {step : ReadyStep}
    (found : Alike r ((Cargo.document r).pair (.view r)) scope id other)
    (within : step.Within scope) :
    Alike r (.reached r) scope (keyed m id step) (keyed m other (step.relocate r)) := by
  cases step with
  | slice bounds => exact .fail _ _
  | operand v =>
    have refused : Alike r (.reached r) scope (do fail (.notString (← describe v)))
        (do fail (.notString (← describe (v.relocate r)))) :=
      (alike_describe within).bind fun _ _ _ => .fail _ _
    cases v with
    | text key mark =>
      exact found.bind fun _ pair inside => alike_stepInto asks key inside.1 inside.2
    | _ =>
      simp only [ReadyStep.relocate, Value.relocate] at refused ⊢
      exact refused

theorem alike_take (path : Node) {v : Value} {step : ReadyStep} (within : v.Within scope)
    (stepWithin : step.Within scope) :
    Alike r (.reached r) scope (take m path v step)
      (take m path (v.relocate r) (step.relocate r)) := by
  cases v with
  | mappingView id =>
    refine alike_keyed asks ?_ stepWithin
    refine (Alike.viewOwner within).bind fun le owner inside => ?_
    exact @Alike.pure _ _ _ ((Cargo.document r).pair (.view r)) (owner, id)
      ⟨inside, (Cargo.view r).mono le within⟩
  | document id =>
    refine alike_keyed asks ?_ stepWithin
    refine (Alike.document within).bind fun le d dWithin => ?_
    rw [Cargo.root_content]
    cases isRoot : d.root with
    | none => exact .failHost _
    | some root =>
      exact @Alike.pure _ _ _ ((Cargo.document r).pair (.view r)) (id, root)
        ⟨(Cargo.document r).mono le within, dWithin.root root isRoot⟩
  | listView id =>
    refine (Alike.viewOwner within).bind fun {wider} le evaluator inside => ?_
    have there := (Cargo.view r).mono le within
    cases step with
    | slice bounds =>
      exact (alike_sliced asks bounds inside there).bind fun more _ vWithin =>
        alike_reached ((Cargo.document r).mono more inside) vWithin
    | operand v =>
      have refused : Alike r (.reached r) wider (do fail (.notInteger (← describe v)))
          (do fail (.notInteger (← describe (v.relocate r)))) :=
        (alike_describe (Value.Within.mono le stepWithin)).bind fun _ _ _ => .fail _ _
      cases v with
      | number n mark =>
        cases n with
        | int index => exact alike_elementAt asks index there
        | _ => exact refused
      | _ =>
        simp only [ReadyStep.relocate, Value.relocate] at refused ⊢
        exact refused
  | _ =>
    simp only [Value.relocate]
    cases step with
    | slice bounds => exact .fail _ _
    | operand v => exact (alike_sourceText path).bind fun _ _ _ => .fail _ _

/-! ### Following a path -/

theorem alike_entryOf {id : DocumentId} (head : Token) (inside : id < scope.documents) :
    Alike r (.reached r) scope (entryOf m id head) (entryOf m (r.document id) head) := by
  refine (Alike.document inside).bind fun {a} _ d within => ?_
  rw [Cargo.root_content]
  cases isRoot : d.root with
  | none => exact .failHost _
  | some root =>
    have rootInside := within.root root isRoot
    refine (Alike.viewOwner rootInside).bind fun {b} le evaluator evaluatorInside => ?_
    refine (Alike.entries ((Cargo.view r).mono le rootInside)).bind
      fun {c} more present presentWithin => ?_
    rw [Cargo.lookup_relocate]
    cases found : present.lookup head.name with
    | none => exact .fail _ _
    | some slot =>
      have slotWithin : slot.Within c :=
        @Cargo.within_lookup _ _ _ (.slot r) _ _ _ _ presentWithin found
      have there := (Cargo.document r).mono more evaluatorInside
      exact (alike_slotValue asks there slotWithin).bind fun most _ vWithin =>
        alike_reached ((Cargo.document r).mono most there) vWithin

theorem alike_walk (path : Node) {reached : DocumentId × Value}
    (within : (Cargo.reached r).Within scope reached) :
    Alike r (.reached r) scope (walk m path reached)
      (walk m path ((Cargo.reached r).relocate reached)) := by
  refine Alike.foldlM (d := .reached r) (fun {wider} le reached step within => ?_) within
  refine (alike_ready asks step within.1).bind fun more ready readyWithin => ?_
  exact alike_take asks path (within.2.mono more) readyWithin

theorem alike_follow {id : DocumentId} (path : Node) (inside : id < scope.documents) :
    Alike r (.value r) scope (follow m id path) (follow m (r.document id) path) := by
  rw [follow_eq, follow_eq]
  split
  · exact .fail _ _
  split
  · exact .fail _ _
  · refine (alike_entryOf asks _ inside).bind fun _ first firstWithin => ?_
    exact (alike_walk asks path firstWithin).bind fun _ last lastWithin => .value lastWithin.2

theorem alike_followText {id : DocumentId} (path : String) (inside : id < scope.documents) :
    Alike r (.value r) scope (followText m id path) (followText m (r.document id) path) := by
  refine Alike.fresh.bind fun {wider} le source _ => ?_
  cases Path.ofString path with
  | ok path => exact alike_follow asks _ ((Cargo.document r).mono le inside)
  | error e => exact .fail _ _

/-! ### References -/

theorem alike_resolve {id : DocumentId} (path : Node) (sigil : Location)
    (inside : id < scope.documents) :
    Alike r (.value r) scope (resolve m id path sigil) (resolve m (r.document id) path sigil) := by
  refine Alike.bind (c := .plain) (.modifyDocument inside (fun d => rfl)
    (fun _ d within => { within with }) fun d => rfl) fun {wider} le _ _ => ?_
  have there := (Cargo.document r).mono le inside
  exact .andFinally (alike_follow asks path there) there (fun d => rfl)
    (fun _ d within => { within with }) fun d => rfl

theorem alike_reference {id : DocumentId} (path : Node) (sigil : Location)
    (inside : id < scope.documents) :
    Alike r (.value r) scope (reference m id path sigil)
      (reference m (r.document id) path sigil) := by
  rw [reference_eq, reference_eq]
  refine (Alike.document inside).bind fun {wider} le d _ => ?_
  rw [show ((Cargo.content r).relocate d).pending = d.pending from rfl]
  dsimp only
  split
  · have texts : Alike r (Cargo.plain (α := String)).list wider (d.pending.mapM pendingText)
        (d.pending.mapM pendingText) :=
      .mapM_plain fun _ p => (alike_sourceText p.path).bind fun _ _ _ => .plain _
    refine texts.bind fun _ texts _ => ?_
    rw [show (Cargo.plain (α := String)).list.relocate texts = texts from List.map_id texts]
    exact .fail _ _
  · exact alike_resolve asks path sigil ((Cargo.document r).mono le inside)

end Evaluation

end LazyConfig
