import LazyConfig.Proofs.Evaluation.Evolution

/-!
# Histories

What can be done with documents, one operation after another. An operation that fails leaves what it
has changed until then, and the next one goes on from there.
-/

namespace LazyConfig

open Eval
open Evaluation

/-- What can be asked of documents and views, and what can be done with them. -/
inductive Operation where
  | create (caching : Bool)
  | load (id : DocumentId) (text : Text.Decoded) (name : Option String)
  | loadFile (id : DocumentId) (name : String)
  | setCaching (id : DocumentId) (caching : Bool)
  | get (id : DocumentId) (key : String) (default? : Option Value)
  | follow (id : DocumentId) (path : String)
  | evaluate (id : DocumentId) (node : Node)
  | evaluateOperand (id : DocumentId) (node : Node) (side : Syntax.Side)
  | convert (id : DocumentId) (text : String)
  | asDict (id : DocumentId)
  | keys (id : DocumentId)
  | contains (id : DocumentId) (key : String)
  | item (v key : Value)
  | items (id : ViewId)
  | entryItems (id : ViewId)
  | complete (v : Value)

/-- What an operation gives. -/
inductive Answer where
  | done
  | value (v : Value)
  | values (items : List Value)
  | entries (entries : List (String × Value))
  | keys (keys : List String)
  | holds (b : Bool)

namespace Operation

def perform : Operation → Eval Answer
  | create caching => do return .value (.document (← Document.create caching))
  | load id text name => do
    Document.load id text name
    return .done
  | loadFile id name => do
    Document.loadFile id name
    return .done
  | setCaching id caching => do
    Document.setCaching id caching
    return .done
  | get id key default? => do return .value (← Document.get id key default?)
  | follow id path => do return .value (← Document.follow id path)
  | evaluate id node => do return .value (← Document.evaluate id node)
  | evaluateOperand id node side => do return .value (← Document.evaluateOperand id node side)
  | convert id text => do return .value (← Document.convert id text)
  | asDict id => do return .value (← Document.asDict id)
  | keys id => do return .keys (← Document.keys id)
  | contains id key => do return .holds (← Document.contains id key)
  | item v key => do return .value (← Evaluation.item v key)
  | items id => do return .values (← Evaluation.items id)
  | entryItems id => do return .entries (← Evaluation.entryItems id)
  | complete v => do return .value (← Evaluation.complete v)

/-- The store that an operation leaves. -/
def step (operation : Operation) (environment : Environment) (s : Store) : Store :=
  (operation.perform.run environment s).2

end Operation

/-- The store that operations leave, each in an environment of its own. -/
def Store.after (history : List (Environment × Operation)) (s : Store) : Store :=
  history.foldl (fun s entry => entry.2.step entry.1 s) s

/-- A relation between stores that every operation keeps to holds between the first store and the
last. -/
theorem Store.after_related {r : Store → Store → Prop} (refl : ∀ s, r s s)
    (trans : ∀ {s middle left}, r s middle → r middle left → r s left)
    (step : ∀ (operation : Operation) environment s, r s (operation.step environment s))
    (history : List (Environment × Operation)) (s : Store) : r s (s.after history) := by
  induction history generalizing s with
  | nil => exact refl s
  | cons entry history ih => exact trans (step entry.2 entry.1 s) (ih _)

/-! ### What operations change -/

/-- Loading a document changes it as evaluations do; besides, it may put it at a file. -/
inductive Loads (files : FileTree) (id : DocumentId) (s left : Store) : Prop where
  | inPlace (evolves : Evolves files s left)
  | placed {middle : Store} {name : String} (isFile : files.isFile name)
      (first : Evolves files s middle)
      (second : Evolves files
        (middle.setDocument id ((middle.document id).atFile files (middle.outerChain id) name)) left)

/-- What an operation does to the store. -/
inductive Operates (files : FileTree) (operation : Operation) (s left : Store) : Prop where
  | evolves (evolves : Evolves files s left)
  | creates (caching : Bool) (isCreate : operation = .create caching)
      (same : left = (s.addDocument { cache := if caching then some [] else none }).2)
  | loads (id : DocumentId)
      (isLoad : (∃ text name, operation = .load id text name) ∨ ∃ name, operation = .loadFile id name)
      (loads : Loads files id s left)

/-- What a load does once the document has its place. -/
theorem Document.evolving_rooted (id : DocumentId) (entries : List (Token × Node)) (span : Span) :
    (do
      modifyDocument id fun d => { d with views := [] }
      let view ← mappingView id entries span
      modifyDocument id fun d => { d with root := some view, cache := d.cache.map fun _ => [] } :
        Eval Unit).Evolving :=
  (evolving_keep id (·.root) (·.cache) _).bind fun _ => (evolving_mappingView id entries span).bind
    fun view => evolving_keep id (fun _ => some view) (·.cache.map fun _ => []) (·.views)

theorem Document.loads_load (environment : Environment) (s : Store) (id : DocumentId)
    (text : Text.Decoded) (name : Option String) :
    Loads environment.world.files id s ((load id text name).run environment s).2 := by
  have parsing := evolving_parsed rootTree text environment s
  unfold load
  rw [run_bind]
  rcases ran : (parsed rootTree text).run environment s with ⟨failure | root, middle⟩
  · rw [ran] at parsing
    exact .inPlace parsing
  · rw [ran] at parsing
    dsimp only
    split
    · rename_i entries span
      rw [run_bind, run_world]
      dsimp only
      cases isFile : name.filter environment.world.files.isFile with
      | none =>
        exact .inPlace (parsing.trans (evolving_rooted id entries span environment middle))
      | some file =>
        dsimp only
        rw [run_bind, run_placeAt]
        exact .placed (Option.filter_eq_some_iff.mp isFile).2 parsing
          (evolving_rooted id entries span environment _)
    · exact .inPlace parsing

theorem Document.loads_loadFile (environment : Environment) (s : Store) (id : DocumentId)
    (name : String) :
    Loads environment.world.files id s ((loadFile id name).run environment s).2 := by
  rw [loadFile, run_bind, readFile]
  cases read : environment.world.files.read environment.settings.encoding name with
  | error fault =>
    simp only [run_bind, run_world, run_settings, read, run_failHost]
    exact .inPlace (.refl s)
  | ok text =>
    simp only [run_bind, run_world, run_settings, read, run_pure]
    exact loads_load environment s id text (some name)

namespace Evaluation

theorem evolving_itemAt (id : ViewId) (index : Int) : (itemAt id index).Evolving := by
  refine (Evolving.slots id).bind fun slots => ?_
  have reached (position : Int) : (do element (← machine) id position.toNat : Eval Value).Evolving :=
    evolving_machine fun m asked => evolving_element asked id _
  dsimp only
  split
  · split
    · exact (Evolving.failHost _).bind fun _ => reached _
    · exact reached _
  · exact reached _

theorem evolving_itemUnder (id : ViewId) (key : String) : (itemUnder id key).Evolving := by
  refine evolving_machine fun m asked => (evolving_entryValue? asked id key).bind fun v => ?_
  cases v with
  | none => exact .fail _ _
  | some v => exact .pure v

theorem evolving_item (v key : Value) : (item v key).Evolving := by
  unfold item
  split
  · exact evolving_itemAt _ _
  · exact evolving_itemUnder _ _
  · exact (evolving_describe _).bind fun _ => .fail _ _
  · exact evolving_machine fun m asked => asked _
  · exact .failHost _

theorem evolving_entryItems (id : ViewId) : (entryItems id).Evolving :=
  evolving_machine fun _ asked => (Evolving.viewOwner id).bind fun owner =>
    (Evolving.entries id).bind fun _ => .mapM (fun entry : String × Slot =>
      (evolving_iterating (evolving_slotValue asked owner entry.2)).bind fun _ => .pure _) _

end Evaluation

theorem Operation.operates (operation : Operation) (environment : Environment) (s : Store) :
    Operates environment.world.files operation s (operation.step environment s) := by
  have answering {α : Type} {e : Eval α} (evolving : e.Evolving) (answer : α → Answer)
      (same : operation.perform = (do return answer (← e))) :
      Operates environment.world.files operation s (operation.step environment s) := by
    refine .evolves ?_
    unfold Operation.step
    rw [same]
    exact evolving.bind (fun a => .pure (answer a)) environment s
  cases operation with
  | create caching => exact .creates caching rfl rfl
  | load id text name =>
    have loads := Document.loads_load environment s id text name
    refine .loads id (.inl ⟨text, name, rfl⟩) ?_
    unfold Operation.step
    rw [perform, run_bind]
    rcases ran : (Document.load id text name).run environment s with ⟨failure | _, left⟩ <;>
      rw [ran] at loads <;> exact loads
  | loadFile id name =>
    have loads := Document.loads_loadFile environment s id name
    refine .loads id (.inr ⟨name, rfl⟩) ?_
    unfold Operation.step
    rw [perform, run_bind]
    rcases ran : (Document.loadFile id name).run environment s with ⟨failure | _, left⟩ <;>
      rw [ran] at loads <;> exact loads
  | setCaching id caching =>
    exact answering (evolving_keep id (·.root) _ (·.views)) (fun _ => .done) rfl
  | get id key default? =>
    exact answering (evolving_machine fun m asked => asked _) .value rfl
  | follow id path =>
    exact answering (evolving_machine fun m asked => evolving_followText asked id path) .value rfl
  | evaluate id node =>
    exact answering (evolving_machine fun m asked => asked _) .value rfl
  | evaluateOperand id node side =>
    refine answering (e := Document.evaluateOperand id node side) ?_ .value rfl
    unfold Document.evaluateOperand
    split
    · exact evolving_machine fun m asked => evolving_operandValue asked id _
    · exact .failHost _
  | convert id text =>
    refine answering (e := Document.convert id text) ?_ .value rfl
    exact evolving_machine fun m asked => Evolving.freshMark.bind fun mark =>
      evolving_convert asked id text _
  | asDict id =>
    exact answering (evolving_machine fun m asked => evolving_documentDict asked id) .value rfl
  | keys id =>
    refine answering (e := Document.keys id) ((Evolving.document id).bind fun d => ?_) .keys rfl
    split
    · exact evolving_keys _
    · exact .pure _
  | contains id key =>
    refine answering (e := Document.contains id key) ((Evolving.document id).bind fun d => ?_)
      .holds rfl
    split
    · exact evolving_hasKey _ _
    · exact .pure _
  | item v key => exact answering (evolving_item v key) .value rfl
  | items id =>
    exact answering (evolving_machine fun m asked => evolving_elements asked id) .values rfl
  | entryItems id => exact answering (evolving_entryItems id) .entries rfl
  | complete v =>
    exact answering (evolving_machine fun m asked => evolving_unwrap asked v) .value rfl

end LazyConfig
