import LazyConfig.Proofs.Evaluation.Steps
import LazyConfig.Proofs.Resolution.Tracks

/-!
# Following plain paths

If evaluating the parts of a plain document tracks their meanings, then following a plain path
tracks what the path means.
-/

namespace LazyConfig.Resolution

open Eval
open Evaluation
open Syntax (Bounds)
open Trace (Ends)

variable {d : PlainDocument} {limits : Limits} {views : List Meaning} {s : Store}

/-- The parts of the document and literals are evaluated to what they mean, and in the same way by
another machine. -/
def Asks (d : PlainDocument) (limits : Limits) (m m' : Machine) : Prop :=
  ∀ views s n, Consistent d limits.kept views s → d.Part n ∨ n.isLiteral →
    Tracks d limits views s (m.evaluate d.id n) (m'.evaluate d.id n) Denotes (d.meaning · n)

/-! ### Elements -/

private theorem getElem?_of_forall₂ {α β : Type} {R : α → β → Prop} {first : List α}
    {second : List β} {i : Nat} {a : α} (related : List.Forall₂ R first second)
    (found : first[i]? = some a) : ∃ b, second[i]? = some b ∧ R a b := by
  obtain ⟨inside, rfl⟩ := List.getElem?_eq_some_iff.mp found
  exact ⟨second.get ⟨i, related.length_eq ▸ inside⟩, List.getElem?_eq_getElem _,
    (List.forall₂_iff_get.mp related).2 i inside _⟩

private theorem getElem?_eq_none_of_forall₂ {α β : Type} {R : α → β → Prop} {first : List α}
    {second : List β} {i : Nat} (related : List.Forall₂ R first second)
    (none : first[i]? = Option.none) : second[i]? = Option.none := by
  rw [List.getElem?_eq_none_iff] at none ⊢
  exact related.length_eq ▸ none

/-- Keeping a value in the slot where it belongs. -/
theorem tracks_setSlot {v : ViewId} {m n : Meaning} {cells : List (Node ⊕ Meaning)} {index : Nat}
    {value : Value} {cell : Node ⊕ Meaning} {course : Nat → Trace Meaning}
    (steady : Consistent d limits.kept views s) (found : views[v]? = some m)
    (isList : m.cells = some cells) (isCell : cells[index]? = some cell)
    (fit : SlotFits d views (.value value) cell) (denotes : Denotes views value n)
    (ends : Ends course (.done n)) :
    Tracks d limits views s (do setSlot v index value; return value)
      (do setSlot v index value; return value) Denotes course := by
  obtain ⟨slots, isView, -⟩ := (steady.fits v m found).slots isList
  refine ⟨⟨views, List.prefix_rfl, ?_, ?_⟩, fun _ => rfl⟩
  · simp only [run_bind, run_setSlot isView, run_pure]
    exact steady.setSlot found isList isView isCell fit
  · simp only [run_bind, run_setSlot isView, run_pure]
    exact ⟨n, denotes, ends⟩

/-- A tree in a slot is evaluated, and the slot keeps its value. -/
theorem tracks_evaluated {m m' : Machine} (asks : Asks d limits m m') {v : ViewId} {of : Meaning}
    {cells : List (Node ⊕ Meaning)} {index : Nat} {n : Node}
    (steady : Consistent d limits.kept views s) (found : views[v]? = some of)
    (isList : of.cells = some cells) (isCell : cells[index]? = some (.inl n)) (part : d.Part n) :
    Tracks d limits views s
      (do let value ← m.evaluate d.id n; setSlot v index value; return value)
      (do let value ← m'.evaluate d.id n; setSlot v index value; return value)
      Denotes (d.meaning · n) := by
  refine ((asks views s n steady (.inl part)).bind (k := fun _ => Trace.done)
    fun more s value n' longer steady denotes ends => ?_).of_eq fun depth => bind_pure _
  exact tracks_setSlot steady (getElem?_of_longer longer found) isList isCell
    ⟨part, n', ends, denotes⟩ denotes (Ends.const _)

/-- The element that a slice or an iteration looks at. -/
theorem tracks_element {m m' : Machine} (asks : Asks d limits m m') {v : ViewId} {of : Meaning}
    {cells : List (Node ⊕ Meaning)} (index : Nat) (steady : Consistent d limits.kept views s)
    (found : views[v]? = some of) (isList : of.cells = some cells) :
    Tracks d limits views s (element m v index) (element m' v index) Denotes
      fun depth => Meaning.nth (d.meaning depth) cells index := by
  obtain ⟨slots, isView, fits⟩ := (steady.fits v of found).slots isList
  refine tracks_read (run_slots isView) ?_
  unfold Meaning.nth
  cases inSlots : slots[index]? with
  | none =>
    rw [getElem?_eq_none_of_forall₂ fits inSlots]
    exact tracks_failHost steady (Ends.const _)
  | some slot =>
    obtain ⟨cell, isCell, fit⟩ := getElem?_of_forall₂ fits inSlots
    rw [isCell]
    refine tracks_read (run_viewOwner v) ?_
    rw [isView]
    cases slot with
    | node node =>
      cases cell with
      | inl n =>
        obtain ⟨rfl, part⟩ := fit
        exact tracks_evaluated asks steady found isList isCell part
      | inr n => exact fit.elim
    | value value =>
      cases cell with
      | inl n =>
        obtain ⟨part, n', ends, denotes⟩ := fit
        refine tracks_read (run_pure ..) ?_
        exact tracks_setSlot steady found isList isCell ⟨part, n', ends, denotes⟩ denotes ends
      | inr n =>
        refine tracks_read (run_pure ..) ?_
        exact tracks_setSlot steady found isList isCell fit fit (Ends.const _)

/-- A value that a path has led to, and the document that evaluates what comes next. -/
def Reaches (d : PlainDocument) (views : List Meaning) (at_ : DocumentId × Value) (m : Meaning) :
    Prop :=
  at_.1 = d.id ∧ Denotes views at_.2 m

theorem Tracks.reaches {e e' : Eval Value} {course : Nat → Trace Meaning}
    (tracks : Tracks d limits views s e e' Denotes course) :
    Tracks d limits views s (do return (d.id, ← e)) (do return (d.id, ← e')) (Reaches d) course :=
  (tracks.bind (k := fun _ => Trace.done) fun _ _ _ _ _ steady denotes _ =>
    tracks_pure steady ⟨rfl, denotes⟩ (Ends.const _)).of_eq fun _ => bind_pure _

/-- The element that an index leads to. -/
theorem tracks_elementAt {m m' : Machine} (asks : Asks d limits m m') {v : ViewId} {of : Meaning}
    (index : Int) (steady : Consistent d limits.kept views s) (found : views[v]? = some of)
    (isList : of.cells.isSome) :
    Tracks d limits views s (elementAt m v index) (elementAt m' v index) (Reaches d)
      fun depth => of.element (d.meaning depth) index := by
  obtain ⟨cells, isList⟩ := Option.isSome_iff_exists.mp isList
  obtain ⟨slots, isView, fits⟩ := (steady.fits v of found).slots isList
  have size : slots.length = cells.length := fits.length_eq
  refine tracks_read (run_viewOwner v) (tracks_read (run_slots isView) ?_)
  simp only [Meaning.element, isList, size, isView, View.owner]
  generalize (if -(cells.length : Int) ≤ index ∧ index < 0 then index + cells.length else index) =
    position
  generalize Decimal.intText? index = text
  have outside {last : String} {course : Nat → Trace Meaning} (ends : Ends course .failed) :
      Tracks d limits views s (do fail (.outOfRange (← shown text) last))
        (do fail (.outOfRange (← shown text) last)) (Reaches d) course :=
    tracks_fail_shown (c := fun text => .outOfRange text last) steady (shows_shown _)
      (by simp [Cause.category]) ends
  by_cases before : position < 0
  · simp only [before, if_true]
    exact outside (Ends.const _)
  simp only [before, if_false, Meaning.nth]
  cases inSlots : slots[position.toNat]? with
  | none =>
    rw [getElem?_eq_none_of_forall₂ fits inSlots]
    exact outside (Ends.const _)
  | some slot =>
    obtain ⟨cell, isCell, fit⟩ := getElem?_of_forall₂ fits inSlots
    rw [isCell]
    cases slot with
    | node node =>
      cases cell with
      | inl n =>
        obtain ⟨rfl, part⟩ := fit
        have evaluated := (tracks_evaluated asks steady found isList isCell part).reaches
        simp only [bind_assoc, pure_bind] at evaluated
        exact evaluated
      | inr n => exact fit.elim
    | value value =>
      cases cell with
      | inl n =>
        obtain ⟨part, n', ends, denotes⟩ := fit
        exact tracks_pure steady ⟨rfl, denotes⟩ ends
      | inr n => exact tracks_pure steady ⟨rfl, fit⟩ (Ends.const _)

/-! ### Slices -/

/-- A literal stands for itself. -/
theorem ends_literal {token : Token} :
    Ends (d.meaning · (.leaf token)) (.done (.scalar (.ofLiteral token.span token.value))) :=
  (Ends.const _).succ rfl fun _ => rfl

theorem tracks_bound {m m' : Machine} (asks : Asks d limits m m') {n : Node} (literal : n.isLiteral)
    (steady : Consistent d limits.kept views s) :
    Tracks d limits views s (bound m d.id n) (bound m' d.id n) (fun _ => Eq)
      fun depth => Meaning.bound (d.meaning depth) n := by
  refine (asks views s n steady (.inr literal)).bind fun more s v meant longer steady denotes _ => ?_
  have refuse : Tracks d limits more s (do fail (.notInteger (← describe v)) n.start)
      (do fail (.notInteger (← describe v)) n.start) (fun _ => Eq)
      fun _ => (Trace.failed : Trace Int) :=
    tracks_fail_shown (c := .notInteger) steady (shows_describe v) (by simp [Cause.category])
      (Ends.const _)
  rw [denotes.integer_eq]
  cases v
  case number x mark =>
    cases x
    case int n => exact tracks_pure steady rfl (Ends.const _)
    all_goals exact refuse
  all_goals exact refuse

/-- What a bound that may be absent stands for. -/
theorem tracks_bound? {m m' : Machine} (asks : Asks d limits m m') {bound : Option Node}
    (literal : bound.all Node.isLiteral) (steady : Consistent d limits.kept views s) :
    Tracks d limits views s (bound.mapM (Evaluation.bound m d.id))
      (bound.mapM (Evaluation.bound m' d.id)) (fun _ => Eq)
      fun depth => bound.mapM (Meaning.bound (d.meaning depth)) := by
  cases bound with
  | none => exact tracks_pure steady rfl (Ends.const _)
  | some n =>
    have tracks := tracks_bound asks (by simpa using literal : n.isLiteral) steady
    exact (tracks.bind (k := fun _ i => pure (some i)) fun _ _ _ _ _ steady same _ =>
      tracks_pure steady (congrArg some same) (Ends.const _))

theorem tracks_stride {m m' : Machine} (asks : Asks d limits m m') {bounds : Bounds Node}
    (literal : bounds.step.all Node.isLiteral) (steady : Consistent d limits.kept views s) :
    Tracks d limits views s (stride m d.id bounds) (stride m' d.id bounds) (fun _ => Eq)
      fun depth => Meaning.stride (d.meaning depth) bounds := by
  unfold stride Meaning.stride
  cases step : bounds.step with
  | none => exact tracks_pure steady rfl (Ends.const _)
  | some n =>
    rw [step] at literal
    exact tracks_bound asks (by simpa using literal) steady

theorem tracks_positions {m m' : Machine} (asks : Asks d limits m m') {bounds : Bounds Node}
    (size : Nat) (step : Int) (literal : Node.literalBounds bounds)
    (steady : Consistent d limits.kept views s) :
    Tracks d limits views s (positions m d.id size bounds step)
      (positions m' d.id size bounds step) (fun _ => Eq)
      fun depth => Meaning.positions (d.meaning depth) size bounds step := by
  simp only [Node.literalBounds, Bool.and_eq_true] at literal
  unfold positions Meaning.positions
  split
  · exact tracks_fail steady (by simp [Cause.category]) (Ends.const _)
  split
  · exact tracks_pure steady rfl (Ends.const _)
  · refine (tracks_bound? asks literal.1.1 steady).bind fun more s start first longer steady same _ => ?_
    subst same
    refine (tracks_bound? asks literal.1.2 steady).bind fun most s stop last longer steady same _ => ?_
    subst same
    exact tracks_pure steady rfl (Ends.const _)

/-- A list of values of its own. -/
theorem tracks_addPart {items : List Value} {meant : List Meaning}
    (steady : Consistent d limits.kept views s) (denote : List.Forall₂ (Denotes views) items meant) :
    Tracks d limits views s (do return .listView (← addView (.list d.id (items.map .value))))
      (do return .listView (← addView (.list d.id (items.map .value)))) Denotes fun _ => pure (Meaning.part meant) := by
  have fit : ViewFits d views (.list d.id (items.map .value)) (.part meant) :=
    ⟨_, rfl, List.forall₂_map_left_iff.mpr (List.forall₂_map_right_iff.mpr denote)⟩
  refine ⟨⟨views ++ [.part meant], List.prefix_append _ _, ?_, ?_⟩, fun _ => rfl⟩
  · simp only [run_bind, run_addView, run_pure]
    exact steady.addView fit
  · simp only [run_bind, run_addView, run_pure]
    refine ⟨.part meant, ⟨?_, rfl⟩, Ends.const _⟩
    simp [← steady.size]

/-- A slice is a list of its own, whose elements have been looked at. -/
theorem tracks_sliced {m m' : Machine} (asks : Asks d limits m m') {v : ViewId} {of : Meaning}
    {bounds : Bounds Node} (literal : Node.literalBounds bounds)
    (steady : Consistent d limits.kept views s) (found : views[v]? = some of)
    (isList : of.cells.isSome) :
    Tracks d limits views s (sliced m d.id v bounds) (sliced m' d.id v bounds) Denotes
      fun depth => of.slice (d.meaning depth) bounds := by
  obtain ⟨cells, isList⟩ := Option.isSome_iff_exists.mp isList
  obtain ⟨slots, isView, fits⟩ := (steady.fits v of found).slots isList
  rw [sliced_eq, sliced_eq]
  refine tracks_read (run_slots isView) (tracks_read (run_viewOwner v) ?_)
  simp only [Meaning.slice, isList, isView, View.owner, fits.length_eq]
  have literalStep : bounds.step.all Node.isLiteral := by
    simp only [Node.literalBounds, Bool.and_eq_true] at literal
    exact literal.2
  refine (tracks_stride asks literalStep steady).bind fun more s step same longer steady eq _ => ?_
  subst eq
  refine (tracks_positions asks cells.length step literal steady).bind
    fun most s selected same further steady eq _ => ?_
  subst eq
  have here := getElem?_of_longer (longer.trans further) found
  refine (tracks_mapM (r := Denotes) (t := fun depth => Meaning.nth (d.meaning depth) cells)
    (fun longer denotes => denotes.mono longer) steady fun later s index _ longer steady =>
      tracks_element asks index steady (getElem?_of_longer longer here) isList).bind
        fun later s items meant longer steady denote _ => ?_
  exact tracks_addPart steady denote

/-! ### Steps -/

/-- A number that is given out does not count. -/
theorem tracks_freshMark {α β : Type} {rel : List Meaning → α → β → Prop} {course : Nat → Trace β}
    {next next' : Mark → Eval α} (steady : Consistent d limits.kept views s)
    (goOn : ∀ mark s, Consistent d limits.kept views s →
      Tracks d limits views s (next mark) (next' mark) rel course) :
    Tracks d limits views s (freshMark >>= next) (freshMark >>= next') rel course := by
  obtain ⟨agrees, mirrors⟩ := goOn (.made s.serial) s.fresh.2 steady.fresh
  refine ⟨?_, ?_⟩
  · rw [run_bind, run_freshMark]
    exact agrees
  · rw [run_bind, run_bind, run_freshMark]
    exact mirrors

/-- The entry under a key of a mapping. -/
theorem tracks_slotValue {m m' : Machine} (asks : Asks d limits m m') {slot : Slot}
    (isNode : ∃ n, slot = .node n ∧ d.Part n) (steady : Consistent d limits.kept views s) :
    Tracks d limits views s (slotValue m d.id slot) (slotValue m' d.id slot) Denotes
      fun depth => Meaning.ofSlot (d.meaning depth) slot := by
  obtain ⟨n, rfl, part⟩ := isNode
  exact asks views s n steady (.inl part)

theorem tracks_stepInto {m m' : Machine} (asks : Asks d limits m m') {v : ViewId}
    {entries : List (String × Slot)} (key : String) (steady : Consistent d limits.kept views s)
    (found : views[v]? = some (.mapping entries)) :
    Tracks d limits views s (stepInto m d.id v key) (stepInto m' d.id v key) (Reaches d)
      fun depth => (Meaning.mapping entries).under (d.meaning depth) key := by
  obtain ⟨isView, nodes⟩ := steady.fits v _ found
  refine tracks_read (run_entries isView) ?_
  simp only [Meaning.under]
  cases present : entries.lookup key with
  | none => exact tracks_fail steady (by simp [Cause.category]) (Ends.const _)
  | some slot =>
    obtain ⟨entry, among, rfl⟩ := mem_of_lookup present
    exact (tracks_slotValue asks (nodes entry among) steady).reaches

/-- What a step leads to whose operand has been evaluated. -/
theorem tracks_take {m m' : Machine} (asks : Asks d limits m m') {path : Node} {v operand : Value}
    {meant : Meaning} (plain : path.isPlainPath) (steady : Consistent d limits.kept views s)
    (denotes : Denotes views v meant) :
    Tracks d limits views s (take m path v (.operand operand))
      (take m' path v (.operand operand)) (Reaches d)
      fun depth => meant.item (d.meaning depth) (.scalar operand) := by
  have refuse {c : String → Cause} (other : ∀ text, (c text).category ≠ .circular)
      {course : Nat → Trace Meaning} (ends : Ends course .failed) :
      Tracks d limits views s (do fail (c (← describe operand)))
        (do fail (c (← describe operand))) (Reaches d) course :=
    tracks_fail_shown steady (shows_describe operand) other ends
  have notString {course : Nat → Trace Meaning} (ends : Ends course .failed) :=
    refuse (c := .notString) (by simp [Cause.category]) ends
  have notInteger {course : Nat → Trace Meaning} (ends : Ends course .failed) :=
    refuse (c := .notInteger) (by simp [Cause.category]) ends
  cases v
  case mappingView id =>
    obtain ⟨entries, rfl, found⟩ := denotes
    obtain ⟨isView, -⟩ := steady.fits id _ found
    unfold take keyed
    cases operand
    case text key mark =>
      refine tracks_read (a := (d.id, id)) ?_ (tracks_stepInto asks key steady found)
      simp only [run_bind, run_viewOwner, isView, run_pure, View.owner]
    case number x mark =>
      cases x <;> exact notString (Ends.const _)
    all_goals exact notString (Ends.const _)
  case listView id =>
    obtain ⟨found, isList⟩ := denotes
    obtain ⟨cells, isCells⟩ := Option.isSome_iff_exists.mp isList
    obtain ⟨slots, isView, -⟩ := (steady.fits id _ found).slots isCells
    refine tracks_read (run_viewOwner id) ?_
    cases operand
    case number x mark =>
      cases x
      case int index => exact tracks_elementAt asks index steady found isList
      all_goals exact notInteger (Ends.const _)
    case text key mark =>
      cases meant <;> simp only [Meaning.cells, reduceCtorEq] at isCells <;>
        exact notInteger (Ends.const _)
    all_goals exact notInteger (Ends.const _)
  case document id => exact denotes.elim
  all_goals
    obtain rfl := denotes
    have missing {course : Nat → Trace Meaning} (ends : Ends course .failed) :
        Tracks d limits views s (do fail (.notFound (← sourceText path)))
          (do fail (.notFound (← sourceText path))) (Reaches d) course := by
      obtain ⟨text, written⟩ := Node.sourceText_of_isPlainPath plain
      refine tracks_read (a := text) ?_ (tracks_fail steady (by simp [Cause.category]) ends)
      simp only [sourceText, written, run_pure]
    cases operand
    case number x mark => cases x <;> exact missing (Ends.const _)
    all_goals exact missing (Ends.const _)

theorem tracks_takeSlice {m m' : Machine} (asks : Asks d limits m m') {path : Node} {v : Value}
    {meant : Meaning} {bounds : Bounds Node} (literal : Node.literalBounds bounds)
    (steady : Consistent d limits.kept views s) (denotes : Denotes views v meant) :
    Tracks d limits views s (take m path v (.slice bounds)) (take m' path v (.slice bounds))
      (Reaches d)
      fun depth => meant.slice (d.meaning depth) bounds := by
  have refuse {course : Nat → Trace Meaning} (ends : Ends course .failed) :
      Tracks d limits views s (fail .notAList bounds.span.start)
        (fail .notAList bounds.span.start) (Reaches d) course :=
    tracks_fail steady (by simp [Cause.category]) ends
  cases v
  case listView id =>
    obtain ⟨found, isList⟩ := denotes
    obtain ⟨cells, isCells⟩ := Option.isSome_iff_exists.mp isList
    obtain ⟨slots, isView, -⟩ := (steady.fits id _ found).slots isCells
    refine tracks_read (run_viewOwner id) ?_
    rw [isView]
    exact (tracks_sliced asks literal steady found isList).reaches
  case mappingView id =>
    obtain ⟨entries, rfl, -⟩ := denotes
    exact refuse (Ends.const _)
  case document id => exact denotes.elim
  all_goals
    obtain rfl := denotes
    exact refuse (Ends.const _)

/-- A step of a plain path. -/
theorem tracks_step {m m' : Machine} (asks : Asks d limits m m') {path : Node} {v : Value}
    {meant : Meaning} {step : Step} (plain : path.isPlainPath) (isPlain : step.isPlain)
    (steady : Consistent d limits.kept views s) (denotes : Denotes views v meant) :
    Tracks d limits views s (do take m path v (← ready m d.id step))
      (do take m' path v (← ready m' d.id step)) (Reaches d)
      fun depth => meant.step (d.meaning depth) step := by
  cases step with
  | member name =>
    simp only [ready, newText, bind_assoc, pure_bind]
    refine tracks_freshMark steady fun mark s steady => ?_
    exact tracks_take asks plain steady denotes
  | index operand =>
    simp only [ready, bind_assoc, pure_bind]
    refine (asks views s operand steady (.inr isPlain)).bind
      fun more s value meaning longer steady means _ => ?_
    exact (tracks_take asks plain steady (denotes.mono longer)).of_eq fun _ => means.item_eq.symm
  | slice bounds =>
    simp only [ready, pure_bind]
    exact tracks_takeSlice asks isPlain steady denotes
  | operator op operand => cases isPlain

theorem tracks_steps {m m' : Machine} (asks : Asks d limits m m') {path : Node} {steps : List Step}
    {at_ : DocumentId × Value} {meant : Meaning} (plain : path.isPlainPath)
    (arePlain : ∀ step ∈ steps, step.isPlain) (steady : Consistent d limits.kept views s)
    (reaches : Reaches d views at_ meant) :
    Tracks d limits views s
      (steps.foldlM (fun (evaluator, v) step => do take m path v (← ready m evaluator step)) at_)
      (steps.foldlM (fun (evaluator, v) step => do take m' path v (← ready m' evaluator step)) at_)
      (Reaches d) fun depth => steps.foldlM (fun m step => m.step (d.meaning depth) step) meant := by
  induction steps generalizing views s at_ meant with
  | nil => exact tracks_pure steady reaches (Ends.const _)
  | cons step steps ih =>
    obtain ⟨evaluator, v⟩ := at_
    obtain ⟨rfl, denotes⟩ := reaches
    simp only [List.foldlM_cons]
    refine (tracks_step asks plain (arePlain step (by simp)) steady denotes).bind
      fun more s next meaning longer steady reaches _ => ?_
    exact ih (fun step among => arePlain step (by simp [among])) steady reaches

/-- A plain path leads to what it means. -/
theorem tracks_follow {m m' : Machine} (asks : Asks d limits m m') {path : Node}
    (plain : path.isPlainPath) (steady : Consistent d limits.kept views s) :
    Tracks d limits views s (follow m d.id path) (follow m' d.id path) Denotes
      fun depth => Meaning.along (d.meaning depth) d.entries path := by
  obtain ⟨head, isHead, name⟩ := Node.head?_of_isPlainPath path plain
  have word : head.kind = .word := by
    simp only [Token.isName, Bool.and_eq_true, decide_eq_true_eq] at name
    exact name.1
  obtain ⟨v, isRoot, found⟩ := steady.root
  obtain ⟨isView, nodes⟩ := steady.fits v _ found
  simp only [follow, Meaning.along, isHead, word, ne_eq, not_true_eq_false, if_false,
    Meaning.under]
  refine tracks_read (run_document d.id) ?_
  simp only [isRoot]
  refine tracks_read (run_viewOwner v) (tracks_read (run_entries isView) ?_)
  rw [isView]
  cases present : d.entries.lookup head.name with
  | none => exact tracks_fail steady (by simp [Cause.category]) (Ends.const _)
  | some slot =>
    obtain ⟨entry, among, rfl⟩ := mem_of_lookup present
    refine (tracks_slotValue asks (nodes entry among) steady).bind
      fun more s first meaning longer steady denotes _ => ?_
    refine ((tracks_steps asks plain (Node.steps_isPlain plain) steady ⟨rfl, denotes⟩).bind
      (k := fun _ => Trace.done) fun most s last meaning longer steady reaches _ =>
        tracks_pure steady reaches.2 (Ends.const _)).of_eq fun _ => bind_pure _

end LazyConfig.Resolution
