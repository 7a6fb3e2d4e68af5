import LazyConfig.Proofs.Container.Materialize
import LazyConfig.Proofs.Merge.Mapping

/-!
# Walking through views of plain values

A path leads through views to what stands for the part of the plain value that its keys and indices
lead to, and to an error if there is no such part.
-/

namespace LazyConfig

/-- A move from a container to something inside it. -/
inductive Move where
  | key (name : String)
  | index (n : Int)

namespace Value

/-- The item of a list at an index; a negative one counts from the end once. -/
def itemAt? (items : List Value) (n : Int) : Option Value :=
  let position := if -(items.length : Int) ≤ n ∧ n < 0 then n + items.length else n
  if position < 0 then none else items[position.toNat]?

/-- What stands in a plain value where the move leads to. -/
def part? (v : Value) : Move → Option Value
  | .key name =>
    match v with
    | dict entries _ => entries.lookup name
    | _ => none
  | .index n =>
    match v with
    | list items _ => itemAt? items n
    | _ => none

/-- What stands in a plain value where the moves lead to, one after the other. -/
def descend? (v : Value) : List Move → Option Value
  | [] => some v
  | move :: moves => (v.part? move).bind (descend? · moves)

theorem mem_of_itemAt? {items : List Value} {n : Int} {part : Value}
    (found : itemAt? items n = some part) : part ∈ items := by
  rw [itemAt?] at found
  generalize (if -(items.length : Int) ≤ n ∧ n < 0 then n + items.length else n) = position at found
  by_cases before : position < 0
  · rw [if_pos before] at found
    cases found
  · rw [if_neg before] at found
    exact List.mem_of_getElem? found

theorem isPlain_part? {v part : Value} (plain : v.isPlain = true) {move : Move}
    (found : v.part? move = some part) : part.isPlain = true := by
  cases move with
  | key name =>
    cases v with
    | dict entries mark =>
      rw [isPlain] at plain
      exact isPlain_of_lookup plain found
    | _ => cases found
  | index n =>
    cases v with
    | list items mark =>
      rw [isPlain] at plain
      exact isPlain_of_mem plain (mem_of_itemAt? found)
    | _ => cases found

end Value

namespace Evaluation

open Eval
open Resolution (walk)

/-! ### Slots -/

section

variable {s : Store}

theorem EntriesStand.lookup {entries values : List (String × Value)}
    (stand : EntriesStand s values entries) (key : String) :
    match entries.lookup key with
    | none => values.lookup key = none
    | some v => ∃ w, values.lookup key = some w ∧ Stands s w v := by
  induction entries generalizing values with
  | nil =>
    rw [EntriesStand] at stand
    subst stand
    rfl
  | cons entry entries ih =>
    rw [EntriesStand] at stand
    obtain ⟨w, rest, rfl, first, others⟩ := stand
    rw [List.lookup_cons, List.lookup_cons]
    cases key == entry.1 with
    | true => exact ⟨w, rfl, first⟩
    | false => exact ih others

theorem ItemsStand.length {items values : List Value} (stand : ItemsStand s values items) :
    values.length = items.length := by
  induction items generalizing values with
  | nil =>
    rw [ItemsStand] at stand
    subst stand
    rfl
  | cons v items ih =>
    rw [ItemsStand] at stand
    obtain ⟨w, rest, rfl, first, others⟩ := stand
    rw [List.length_cons, List.length_cons, ih others]

theorem ItemsStand.getElem? {items values : List Value} (stand : ItemsStand s values items)
    (index : Nat) :
    match items[index]? with
    | none => values[index]? = none
    | some v => ∃ w, values[index]? = some w ∧ Stands s w v := by
  induction items generalizing values index with
  | nil =>
    rw [ItemsStand] at stand
    subst stand
    rfl
  | cons v items ih =>
    rw [ItemsStand] at stand
    obtain ⟨w, rest, rfl, first, others⟩ := stand
    cases index with
    | zero => exact ⟨w, rfl, first⟩
    | succ index => exact ih others index

theorem lookup_slots (values : List (String × Value)) (key : String) :
    (values.map fun entry => (entry.1, Slot.value entry.2)).lookup key =
      (values.lookup key).map .value := by
  induction values with
  | nil => rfl
  | cons entry values ih =>
    rw [List.map_cons, List.lookup_cons, List.lookup_cons, ih]
    cases key == entry.1 <;> rfl

end

/-! ### Steps -/

/-- The operand of a step asks for this move. -/
inductive Asks : Value → Move → Prop
  | key (name : String) (mark : Mark) : Asks (.text name mark) (.key name)
  | index (n : Int) (mark : Mark) : Asks (.number (.int n) mark) (.index n)

/-- A step leads to what stands for the part of the plain value, or fails. -/
def LeadsTo (s : Store) (result : Except Failure (DocumentId × Value) × Store)
    (part : Option Value) : Prop :=
  match part with
  | some part => ∃ owner w, result = (.ok (owner, w), s) ∧ Stands s w part
  | none => ∃ failure left, result = (.error failure, left)

section

variable {environment : Environment} {s : Store} {m : Machine} {id : ViewId} {owner : DocumentId}

/-- An error fails, and so does what it would show. -/
theorem run_fail_with {α β : Type} (e : Eval α) (cause : α → Cause) (location : Option Location) :
    ∃ failure left, (do fail (cause (← e)) location : Eval β).run environment s =
      (.error failure, left) := by
  rw [run_bind]
  rcases e.run environment s with ⟨failure | a, left⟩
  · exact ⟨failure, left, rfl⟩
  · exact ⟨_, left, rfl⟩

theorem leadsTo_stepInto {entries values : List (String × Value)} (evaluator : DocumentId)
    (isView : s.view id = .mapping owner (values.map fun entry => (entry.1, .value entry.2)))
    (stand : EntriesStand s values entries) (key : String) :
    LeadsTo s ((stepInto m evaluator id key).run environment s) (entries.lookup key) := by
  have found := stand.lookup key
  rw [stepInto, run_bind, run_entries isView]
  dsimp only
  rw [lookup_slots]
  cases isPart : entries.lookup key with
  | none =>
    rw [isPart] at found
    rw [found]
    exact ⟨_, _, rfl⟩
  | some part =>
    rw [isPart] at found
    obtain ⟨w, isValue, stands⟩ := found
    rw [isValue]
    exact ⟨evaluator, w, rfl, stands⟩

theorem leadsTo_elementAt {items values : List Value}
    (isView : s.view id = .list owner (values.map .value)) (stand : ItemsStand s values items)
    (n : Int) :
    LeadsTo s ((elementAt m id n).run environment s) (Value.itemAt? items n) := by
  have outside : ∃ failure left, (do
      fail (.outOfRange (← shown (Decimal.intText? n)) (toString ((items.length : Int) - 1))) :
        Eval (DocumentId × Value)).run environment s = (.error failure, left) :=
    run_fail_with _ (fun text => .outOfRange text _) none
  rw [elementAt, run_bind, run_viewOwner]
  dsimp only
  rw [run_bind, run_slots isView]
  dsimp only
  rw [List.length_map, stand.length, Value.itemAt?]
  generalize (if -(items.length : Int) ≤ n ∧ n < 0 then n + items.length else n) = position
  by_cases before : position < 0
  · rw [if_pos before, if_pos before]
    exact outside
  · rw [if_neg before, if_neg before, List.getElem?_map]
    have found := stand.getElem? position.toNat
    cases isItem : items[position.toNat]? with
    | none =>
      rw [isItem] at found
      rw [found]
      exact outside
    | some part =>
      rw [isItem] at found
      obtain ⟨w, isValue, stands⟩ := found
      rw [isValue]
      exact ⟨_, w, rfl, stands⟩

/-- A step takes what stands for a plain value to what stands for its part. -/
theorem leadsTo_take (path : Node) {v w operand : Value} {move : Move} (plain : v.isPlain = true)
    (stands : Stands s w v) (asks : Asks operand move) :
    LeadsTo s ((take m path w (.operand operand)).run environment s) (v.part? move) := by
  cases v with
  | list items mark =>
    rw [Stands] at stands
    obtain ⟨id, owner, values, rfl, inside, isView, parts⟩ := stands
    rw [take, run_bind, run_viewOwner]
    cases asks with
    | key name mark => exact run_fail_with _ Cause.notInteger none
    | index n mark => exact leadsTo_elementAt isView parts n
  | dict entries mark =>
    rw [Stands] at stands
    obtain ⟨id, owner, values, rfl, inside, isView, parts⟩ := stands
    rw [take]
    cases asks with
    | key name mark => exact leadsTo_stepInto _ isView parts name
    | index n mark => exact run_fail_with _ Cause.notString none
  | object | function | listView | mappingView | document => simp [Value.isPlain] at plain
  | null | absent | bool | number | text | date | dateTime =>
    simp only [Stands] at stands
    subst stands
    cases asks with
    | key name mark => exact run_fail_with _ Cause.notFound none
    | index n mark => exact run_fail_with _ Cause.notFound none

end

/-! ### Paths -/

/-- A step of a path is written as a name or an integer. -/
inductive Written : Step → Move → Prop
  | member (name : String) : Written (.member name) (.key name)
  | index (token : Token) (n : Int) (isInteger : token.kind = .integer)
      (value : token.value = .int n) : Written (.index (.leaf token)) (.index n)

section

variable {environment : Environment} {depth : Nat}

theorem run_ready_written (environment : Environment) (depth : Nat) {step : Step} {move : Move}
    (written : Written step move) (evaluator : DocumentId) (s : Store) :
    ∃ operand serial, Asks operand move ∧
      (ready ⟨answerWithin (depth + 1)⟩ evaluator step).run environment s =
        (.ok (.operand operand), { s with serial }) := by
  cases written with
  | member name => exact ⟨_, _, .key name _, rfl⟩
  | index token n isInteger value =>
    refine ⟨.number (.int n) (.written token.span.source token.span.start), s.serial,
      .index n _, ?_⟩
    change (do return ReadyStep.operand (← tokenValue ⟨answerWithin depth⟩ evaluator token) :
      Eval ReadyStep).run environment s = _
    rw [tokenValue, isInteger, value]
    rfl

/-- A path of names and integers leads from what stands for a plain value to what stands for the
part of it, and fails if there is none. -/
theorem leadsTo_steps (path : Node) {steps : List Step} {moves : List Move}
    (written : List.Forall₂ Written steps moves) {v w : Value} {s : Store}
    (plain : v.isPlain = true) (stands : Stands s w v) (evaluator : DocumentId) :
    ∃ serial, LeadsTo { s with serial }
      ((steps.foldlM (fun (evaluator, v) step => do
        take ⟨answerWithin (depth + 1)⟩ path v (← ready ⟨answerWithin (depth + 1)⟩ evaluator step))
          (evaluator, w)).run environment s)
      (v.descend? moves) := by
  induction written generalizing v w s evaluator with
  | nil => exact ⟨s.serial, evaluator, w, rfl, stands⟩
  | @cons step move steps moves isStep rest ih =>
    obtain ⟨operand, serial, asks, isReady⟩ :=
      run_ready_written environment depth isStep evaluator s
    -- the operand of a step takes serial numbers at most, which no view depends on
    have stays : Stands { s with serial } w v := stands.later (.numbered s serial)
    have taken : LeadsTo { s with serial }
        ((take ⟨answerWithin (depth + 1)⟩ path w (.operand operand)).run environment
          { s with serial }) (v.part? move) := leadsTo_take path plain stays asks
    rw [List.foldlM_cons, bind_assoc, run_bind, isReady]
    dsimp only
    rw [run_bind, Value.descend?]
    cases isPart : v.part? move with
    | none =>
      rw [isPart] at taken
      obtain ⟨failure, left, failed⟩ := taken
      rw [failed]
      exact ⟨serial, failure, left, rfl⟩
    | some part =>
      rw [isPart] at taken
      obtain ⟨owner, reached, ran, partStands⟩ := taken
      rw [ran]
      exact ih (Value.isPlain_part? plain isPart) partStands owner

theorem leadsTo_walk {path : Node} {moves : List Move}
    (written : List.Forall₂ Written path.steps moves) {v w : Value} {s : Store}
    (plain : v.isPlain = true) (stands : Stands s w v) (evaluator : DocumentId) :
    ∃ serial, LeadsTo { s with serial }
      ((walk ⟨answerWithin (depth + 1)⟩ path (evaluator, w)).run environment s)
      (v.descend? moves) :=
  leadsTo_steps path written plain stands evaluator

end

end Evaluation

end LazyConfig
