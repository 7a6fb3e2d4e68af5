import LazyConfig.Proofs.Document.History
import LazyConfig.Proofs.Relocation.Machine

/-!
# Operations in relocated stores

An operation that is relocated gives the relocated answer, and so do sessions of operations, one
after another.
-/

namespace LazyConfig

open Eval
open Evaluation

variable {r : Relocation} {scope : Scope}

/-! ### Loading -/

namespace Document

theorem alike_create (caching : Bool) :
    Alike r (.document r) scope (create caching) (create caching) := by
  have created : ({ cache := if caching then some [] else none } : Document).Within scope :=
    { parent := fun _ isParent => by cases isParent
      root := fun _ isRoot => by cases isRoot
      cache := fun entries kept => by
        cases caching <;> cases kept
        exact fun _ among => by cases among
      views := fun _ among => by cases among }
  have added := Alike.addDocument (r := r) created
  rwa [show ({ cache := if caching then some [] else none } : Document).relocate r =
    { cache := if caching then some [] else none } by cases caching <;> rfl] at added

theorem alike_outerChain {id : DocumentId} (inside : id < scope.documents) :
    Alike r .plain scope (outerChain id) (outerChain (r.document id)) := by
  refine (Alike.document inside).bind fun _ d within => ?_
  rw [Cargo.parent_content]
  cases isParent : d.parent with
  | none => exact .plain _
  | some parent =>
    exact (Alike.document (within.parent parent isParent)).bind fun _ outer _ =>
      .plain outer.includeChain

theorem alike_placeAt {id : DocumentId} (name : String) (inside : id < scope.documents) :
    Alike r .plain scope (placeAt id name) (placeAt (r.document id) name) := by
  refine (alike_outerChain inside).bind fun {wider} le outer _ => ?_
  refine .world fun environment _ => ?_
  exact .modifyDocument ((Cargo.document r).mono le inside) (fun d => rfl)
    (fun _ d within => { within with }) fun d => rfl

/-- What a load does once the document has its place. -/
theorem alike_rooted {id : DocumentId} (entries : List (Token × Node)) (span : Span)
    (inside : id < scope.documents) :
    Alike r .plain scope
      (do
        modifyDocument id fun d => { d with views := [] }
        let view ← mappingView id entries span
        modifyDocument id fun d => { d with root := some view, cache := d.cache.map fun _ => [] })
      (do
        modifyDocument (r.document id) fun d => { d with views := [] }
        let view ← mappingView (r.document id) entries span
        modifyDocument (r.document id) fun d =>
          { d with root := some view, cache := d.cache.map fun _ => [] }) := by
  refine Alike.bind (c := .plain) (.modifyDocument inside (fun d => rfl)
    (fun _ d within => { within with views := fun _ among => by cases among }) fun d => rfl)
    fun {wide} le _ _ => ?_
  have there := (Cargo.document r).mono le inside
  refine (alike_mappingView entries span there).bind fun {wider} more view present => ?_
  refine .modifyDocument ((Cargo.document r).mono more there) (fun d => ?_)
    (fun most d within => ?_) fun d => rfl
  · simp only [Document.relocate, Cargo.view]
    cases d.cache <;> rfl
  · refine { within with root := fun root isRoot => ?_, cache := fun entries kept => ?_ }
    · exact Option.some.inj isRoot ▸ (Cargo.view r).mono most present
    · obtain ⟨-, -, rfl⟩ := Option.map_eq_some_iff.mp kept
      exact fun _ among => by cases among

theorem alike_load {id : DocumentId} (text : Text.Decoded) (name : Option String)
    (inside : id < scope.documents) :
    Alike r .plain scope (load id text name) (load (r.document id) text name) := by
  refine (alike_parsed rootTree text).bind fun {wider} le root _ => ?_
  have there := (Cargo.document r).mono le inside
  cases root with
  | mapping entries span =>
    refine .world fun environment _ => ?_
    cases name.filter environment.world.files.isFile with
    | none => exact alike_rooted entries span there
    | some file =>
      exact (alike_placeAt file there).bind fun more _ _ =>
        alike_rooted entries span ((Cargo.document r).mono more there)
  | _ => exact .fail _ _

theorem alike_loadFile {id : DocumentId} (name : String) (inside : id < scope.documents) :
    Alike r .plain scope (loadFile id name) (loadFile (r.document id) name) :=
  (alike_readFile name).bind fun le text _ =>
    alike_load text (some name) ((Cargo.document r).mono le inside)

end Document

/-! ### Looking into views -/

namespace Evaluation

theorem alike_itemAt {id : ViewId} (index : Int) (inside : id < scope.views) :
    Alike r (.value r) scope (itemAt id index) (itemAt (r.view id) index) := by
  refine (Alike.slots inside).bind fun {wider} le slots _ => ?_
  rw [show ((Cargo.slot r).list.relocate slots).length = slots.length from List.length_map _]
  have there := (Cargo.view r).mono le inside
  have reached (position : Int) : Alike r (.value r) wider
      (do element (← machine) id position.toNat)
      (do element (← machine) (r.view id) position.toNat) :=
    alike_machine fun m asks => alike_element asks _ there
  dsimp only
  split
  · split
    · exact Alike.failHost _
    · exact reached _
  · exact reached _

theorem alike_itemUnder {id : ViewId} (key : String) (inside : id < scope.views) :
    Alike r (.value r) scope (itemUnder id key) (itemUnder (r.view id) key) := by
  refine alike_machine fun m asks => (alike_entryValue? asks key inside).bind fun _ v within => ?_
  cases v with
  | none => exact .fail _ _
  | some v => exact .value (within v rfl)

theorem alike_item {v key : Value} (within : v.Within scope) (keyWithin : key.Within scope) :
    Alike r (.value r) scope (item v key) (item (v.relocate r) (key.relocate r)) := by
  have noItems : Alike r (.value r) scope (failHost .noItems) (failHost .noItems) := .failHost _
  have refused : Alike r (.value r) scope (do fail (.notFound (← describe key)))
      (do fail (.notFound (← describe (key.relocate r)))) :=
    (alike_describe keyWithin).bind fun _ _ _ => .fail _ _
  cases v with
  | listView id =>
    cases key with
    | number n mark =>
      cases n with
      | int index => exact alike_itemAt index within
      | _ => exact noItems
    | _ =>
      simp only [Value.relocate, item]
      exact noItems
  | mappingView id =>
    cases key with
    | text key mark => exact alike_itemUnder key within
    | _ =>
      simp only [Value.relocate, item] at refused ⊢
      exact refused
  | document id =>
    cases key with
    | text key mark =>
      exact alike_machine fun m asks =>
        alike_lookup asks key within (fun _ isSome => by cases isSome)
    | _ =>
      simp only [Value.relocate, item]
      exact noItems
  | _ =>
    simp only [Value.relocate, item]
    exact noItems

theorem alike_entryItems {id : ViewId} (inside : id < scope.views) :
    Alike r (Cargo.value r).entries scope (entryItems id) (entryItems (r.view id)) := by
  refine alike_machine fun m asks => ?_
  refine (Alike.viewOwner inside).bind fun {wide} le owner ownerInside => ?_
  refine (Alike.entries ((Cargo.view r).mono le inside)).bind fun {wider} more entries within => ?_
  refine Alike.mapM (fun {widest} most entry entryWithin => ?_) within
  have there := (Cargo.document r).mono (more.trans most) ownerInside
  refine (alike_iterating (alike_slotValue asks there entryWithin.2)).bind fun _ v vWithin => ?_
  exact @Alike.pure _ _ _ (Cargo.plain.pair (.value r)) (entry.1, v) ⟨trivial, vWithin⟩

end Evaluation

/-! ### Operations -/

namespace Operation

def relocate (r : Relocation) : Operation → Operation
  | create caching => create caching
  | load id text name => load (r.document id) text name
  | loadFile id name => loadFile (r.document id) name
  | setCaching id caching => setCaching (r.document id) caching
  | get id key default? => get (r.document id) key (default?.map (Value.relocate r))
  | follow id path => follow (r.document id) path
  | evaluate id node => evaluate (r.document id) node
  | evaluateOperand id node side => evaluateOperand (r.document id) node side
  | convert id text => convert (r.document id) text
  | asDict id => asDict (r.document id)
  | keys id => keys (r.document id)
  | contains id key => contains (r.document id) key
  | item v key => item (v.relocate r) (key.relocate r)
  | items id => items (r.view id)
  | entryItems id => entryItems (r.view id)
  | complete v => complete (v.relocate r)

/-- The documents and views that an operation is about are there. -/
def Within (scope : Scope) : Operation → Prop
  | create _ => True
  | load id _ _ | loadFile id _ | setCaching id _ | follow id _ | evaluate id _
  | evaluateOperand id _ _ | convert id _ | asDict id | keys id | contains id _ =>
    id < scope.documents
  | get id _ default? => id < scope.documents ∧ ∀ v, default? = some v → v.Within scope
  | item v key => v.Within scope ∧ key.Within scope
  | items id | entryItems id => id < scope.views
  | complete v => v.Within scope

end Operation

namespace Answer

def relocate (r : Relocation) : Answer → Answer
  | done => done
  | value v => value (v.relocate r)
  | values items => values ((Cargo.value r).list.relocate items)
  | entries items => entries ((Cargo.value r).entries.relocate items)
  | keys names => keys names
  | holds b => holds b

def Within (scope : Scope) : Answer → Prop
  | value v => v.Within scope
  | values items => ∀ v ∈ items, v.Within scope
  | entries items => ∀ entry ∈ items, True ∧ entry.2.Within scope
  | _ => True

theorem Within.mono {scope wider : Scope} (le : scope ≤ wider) :
    ∀ {answer : Answer}, answer.Within scope → answer.Within wider
  | value v, within => Value.Within.mono le (show v.Within scope from within)
  | values _, within => fun v among => (within v among).mono le
  | entries _, within => fun entry among => ⟨trivial, (within entry among).2.mono le⟩
  | done, _ | keys _, _ | holds _, _ => trivial

end Answer

def Cargo.answer (r : Relocation) : Cargo Answer :=
  ⟨Answer.relocate r, Answer.Within, fun le => Answer.Within.mono le⟩

/-- A relocated operation gives the relocated answer. -/
theorem Operation.alike_perform {operation : Operation} (within : operation.Within scope) :
    Alike r (.answer r) scope operation.perform (operation.relocate r).perform := by
  have done {e other : Eval Unit} (alike : Alike r .plain scope e other) :
      Alike r (.answer r) scope (do e; return .done) (do other; return .done) :=
    alike.bind fun _ _ _ => @Alike.pure _ _ _ (.answer r) .done trivial
  have value {e other : Eval Value} (alike : Alike r (.value r) scope e other) :
      Alike r (.answer r) scope (do return .value (← e)) (do return .value (← other)) :=
    alike.bind fun _ v vWithin => @Alike.pure _ _ _ (.answer r) (.value v) vWithin
  cases operation with
  | create caching =>
    exact (Document.alike_create caching).bind fun _ id inside =>
      @Alike.pure _ _ _ (.answer r) (.value (.document id)) inside
  | load id text name => exact done (Document.alike_load text name within)
  | loadFile id name => exact done (Document.alike_loadFile name within)
  | setCaching id caching =>
    refine done (.modifyDocument within (fun d => ?_) (fun _ d dWithin => ?_) fun d => rfl)
    · simp only [Document.relocate]
      cases caching <;> cases d.cache <;> rfl
    · refine { dWithin with cache := fun entries kept => ?_ }
      cases caching with
      | false => cases kept
      | true =>
        cases kept
        intro entry among
        cases isCache : d.cache with
        | none =>
          rw [isCache] at among
          cases among
        | some before =>
          rw [isCache] at among
          exact dWithin.cache before isCache entry among
  | get id key default? =>
    exact value (alike_machine fun m asks => alike_lookup asks key within.1 within.2)
  | follow id path => exact value (alike_machine fun m asks => alike_followText asks path within)
  | evaluate id node => exact value (alike_machine fun m asks => alike_evaluate asks node within)
  | evaluateOperand id node side =>
    refine value ?_
    unfold Document.evaluateOperand
    split
    · exact alike_machine fun m asks => alike_operandValue asks _ within
    · exact .failHost _
  | convert id text =>
    refine value (alike_machine fun m asks => Alike.freshMark.bind fun le mark _ => ?_)
    exact alike_convert asks text _ ((Cargo.document r).mono le within)
  | asDict id => exact value (alike_machine fun m asks => alike_documentDict asks within)
  | keys id =>
    have names : Alike r .plain scope (Document.keys id) (Document.keys (r.document id)) := by
      refine (Alike.document within).bind fun _ d dWithin => ?_
      rw [Cargo.root_content]
      cases isRoot : d.root with
      | none => exact .plain _
      | some root => exact alike_keys (dWithin.root root isRoot)
    exact names.bind fun _ names _ => @Alike.pure _ _ _ (.answer r) (.keys names) trivial
  | contains id key =>
    have holds : Alike r .plain scope (Document.contains id key)
        (Document.contains (r.document id) key) := by
      refine (Alike.document within).bind fun _ d dWithin => ?_
      rw [Cargo.root_content]
      cases isRoot : d.root with
      | none => exact .plain _
      | some root => exact alike_hasKey key (dWithin.root root isRoot)
    exact holds.bind fun _ b _ => @Alike.pure _ _ _ (.answer r) (.holds b) trivial
  | item v key => exact value (alike_item within.1 within.2)
  | items id =>
    have all : Alike r (Cargo.value r).list scope (Evaluation.items id)
        (Evaluation.items (r.view id)) :=
      alike_machine fun m asks => alike_elements asks within
    exact all.bind fun _ items itemsWithin =>
      @Alike.pure _ _ _ (.answer r) (.values items) itemsWithin
  | entryItems id =>
    exact (alike_entryItems within).bind fun _ items itemsWithin =>
      @Alike.pure _ _ _ (.answer r) (.entries items) itemsWithin
  | complete v => exact value (alike_machine fun m asks => alike_unwrap asks within)

/-! ### Sessions -/

/-- The answers to operations, each in an environment of its own. -/
def Store.answers (s : Store) : List (Environment × Operation) → List (Except Failure Answer)
  | [] => []
  | (environment, operation) :: session =>
    (operation.perform.run environment s).1 :: (operation.step environment s).answers session

/-- What a session gives the operations is there: their values come from outside or from what has
been answered before. -/
def Store.Accepts (s : Store) : List (Environment × Operation) → Prop
  | [] => True
  | (environment, operation) :: session =>
    environment.IsOutside ∧ operation.Within s.scope ∧
      (operation.step environment s).Accepts session

/-- The same operations at other numbers. -/
def Relocation.session (r : Relocation) (session : List (Environment × Operation)) :
    List (Environment × Operation) :=
  session.map fun entry => (entry.1, entry.2.relocate r)

/-- The store that a relocated operation leaves is the relocated one. -/
theorem Relocated.step {s t : Store} (relocated : Relocated r s t) {environment : Environment}
    {operation : Operation} (outside : environment.IsOutside) (within : operation.Within s.scope) :
    Relocated r (operation.step environment s) ((operation.relocate r).step environment t) ∧
      ((operation.relocate r).perform.run environment t).1 =
        (operation.perform.run environment s).1.map (Answer.relocate r) := by
  obtain ⟨result, left, there, ran, otherRan, after, -, -⟩ :=
    Operation.alike_perform (r := r) within environment s t outside relocated le_rfl
  unfold Operation.step
  rw [ran, otherRan]
  exact ⟨after, rfl⟩

theorem Relocated.answers {s t : Store} (relocated : Relocated r s t)
    {session : List (Environment × Operation)} (accepted : s.Accepts session) :
    t.answers (r.session session) = (s.answers session).map (Except.map (Answer.relocate r)) := by
  induction session generalizing s t with
  | nil => rfl
  | cons entry session ih =>
    obtain ⟨environment, operation⟩ := entry
    obtain ⟨outside, within, rest⟩ := accepted
    obtain ⟨after, same⟩ := relocated.step outside within
    rw [Store.answers, List.map_cons, ← same, ← ih after rest]
    rfl

end LazyConfig
