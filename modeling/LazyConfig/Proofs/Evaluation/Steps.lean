import LazyConfig.Document.Load
import LazyConfig.Evaluation.Machine
import LazyConfig.Proofs.Evaluation.Run

/-!
# Evaluations in steps

Evaluations that break off in the middle or go on after a branch, written as the steps that they
consist of.
-/

namespace LazyConfig.Evaluation

theorem mem_of_lookup {α : Type} {key : String} {a : α} {entries : List (String × α)}
    (found : entries.lookup key = some a) : ∃ entry ∈ entries, entry.2 = a := by
  obtain ⟨before, after, rfl, -⟩ := List.lookup_eq_some_iff.mp found
  exact ⟨(key, a), by simp, rfl⟩

private theorem mem_put {key : String} {slot : Slot} {found : List (String × Slot)}
    {entry : String × Slot} (among : entry ∈ collectEntries.put key slot found) :
    entry ∈ found ∨ entry.2 = slot := by
  induction found with
  | nil => exact .inr (by simp_all [collectEntries.put])
  | cons first rest ih =>
    unfold collectEntries.put at among
    split at among
    · rcases List.mem_cons.mp among with rfl | among
      · exact .inr rfl
      · exact .inl (List.mem_cons_of_mem _ among)
    · rcases List.mem_cons.mp among with rfl | among
      · exact .inl List.mem_cons_self
      · exact (ih among).imp_left (List.mem_cons_of_mem _)

/-- The view of a mapping holds trees of this mapping. -/
theorem mem_collectEntries {unique : Bool} {seen : List (String × Location)}
    {found result : List (String × Slot)} {entries : List (Token × Node)}
    (collected : collectEntries unique seen found entries = .ok result) {entry : String × Slot}
    (among : entry ∈ result) : entry ∈ found ∨ ∃ e ∈ entries, entry.2 = .node e.2 := by
  induction entries generalizing seen found with
  | nil =>
    cases collected
    exact .inl among
  | cons first rest ih =>
    unfold collectEntries at collected
    dsimp only at collected
    split at collected
    · cases collected
    · rcases ih collected with inFound | ⟨e, inRest, same⟩
      · rcases mem_put inFound with inFound | same
        · exact .inl inFound
        · exact .inr ⟨first, List.mem_cons_self, same⟩
      · exact .inr ⟨e, List.mem_cons_of_mem _ inRest, same⟩

/-- The entries of a mapping can only fail to be collected on a repeated key. -/
theorem category_of_collectEntries {unique : Bool} {seen : List (String × Location)}
    {found : List (String × Slot)} {entries : List (Token × Node)} {e : Error}
    (failed : collectEntries unique seen found entries = .error e) : e.category = .duplicateKey := by
  induction entries generalizing seen found with
  | nil => cases failed
  | cons entry rest ih =>
    unfold collectEntries at failed
    dsimp only at failed
    split at failed
    · cases failed
      rfl
    · exact ih failed

end LazyConfig.Evaluation

namespace LazyConfig.Resolution

open Eval
open Evaluation
open Syntax (Bounds)

/-- The step between the positions of a slice. -/
def stride (m : Machine) (evaluator : DocumentId) (bounds : Bounds Node) : Eval Int :=
  match bounds.step with
  | none => pure 1
  | some node => bound m evaluator node

/-- The positions of a list that a slice goes through. -/
def positions (m : Machine) (evaluator : DocumentId) (size : Nat) (bounds : Bounds Node)
    (stride : Int) : Eval (List Nat) :=
  if stride = 0 then fail .zeroStep bounds.span.start
  else if size = 0 then pure []
  else do
    let start ← bounds.start.mapM (bound m evaluator)
    let stop ← bounds.stop.mapM (bound m evaluator)
    return slicePositions size start stop stride

theorem sliced_eq (m : Machine) (evaluator : DocumentId) (id : ViewId) (bounds : Bounds Node) :
    sliced m evaluator id bounds = do
      let present ← Eval.slots id
      let owner ← viewOwner id
      let step ← stride m evaluator bounds
      let selected ← positions m evaluator present.length bounds step
      let items ← selected.mapM (element m id)
      return .listView (← addView (.list owner (items.map .value))) := by
  unfold sliced
  refine congrArg (Eval.slots id >>= ·) (funext fun present => ?_)
  refine congrArg (viewOwner id >>= ·) (funext fun owner => ?_)
  let next (selected : List Nat) : Eval Value := do
    let items ← selected.mapM (element m id)
    return .listView (← addView (.list owner (items.map .value)))
  have rest (step : Int) :
      (if step = 0 then fail .zeroStep bounds.span.start >>= fun _ : Unit =>
          if present.length = 0 then pure [] >>= next
          else do
            let start ← bounds.start.mapM (bound m evaluator)
            let stop ← bounds.stop.mapM (bound m evaluator)
            pure (slicePositions present.length start stop step) >>= next
        else if present.length = 0 then pure [] >>= next
          else do
            let start ← bounds.start.mapM (bound m evaluator)
            let stop ← bounds.stop.mapM (bound m evaluator)
            pure (slicePositions present.length start stop step) >>= next) =
        positions m evaluator present.length bounds step >>= next := by
    unfold positions
    split
    · rfl
    · split <;> simp only [bind_assoc]
  unfold stride
  cases bounds.step with
  | none => exact rest 1
  | some node => exact congrArg (bound m evaluator node >>= ·) (funext rest)

/-- The entry that a path starts with, and the document that evaluates it. -/
def entryOf (m : Machine) (id : DocumentId) (head : Token) : Eval (DocumentId × Value) := do
  match (← Eval.document id).root with
  | none => failHost .noAttribute
  | some root =>
    let evaluator ← viewOwner root
    match (← entries root).lookup head.name with
    | none => fail (.notFound head.name) head.span.start
    | some slot => return (evaluator, ← slotValue m evaluator slot)

/-- What the steps of a path lead to, and the document that evaluates what comes next. -/
def walk (m : Machine) (path : Node) (reached : DocumentId × Value) :
    Eval (DocumentId × Value) :=
  path.steps.foldlM (fun (evaluator, v) step => do take m path v (← ready m evaluator step)) reached

theorem follow_eq (m : Machine) (id : DocumentId) (path : Node) :
    follow m id path =
      match path.head? with
      | none => fail (.notAPath path.start) path.start
      | some head =>
        if head.kind ≠ .word then fail (.notAPath path.start) path.start
        else do return (← walk m path (← entryOf m id head)).2 := by
  unfold follow
  cases path.head? with
  | none => rfl
  | some head =>
    dsimp only
    split
    · rfl
    · rw [entryOf, bind_assoc]
      refine congrArg (Eval.document id >>= ·) (funext fun d => ?_)
      cases d.root with
      | none => rfl
      | some root =>
        simp only [bind_assoc]
        refine congrArg (viewOwner root >>= ·) (funext fun evaluator => ?_)
        refine congrArg (entries root >>= ·) (funext fun present => ?_)
        cases present.lookup head.name with
        | none => rfl
        | some slot =>
          simp only [bind_assoc, pure_bind]
          rfl

/-! ### References -/

variable {s : Store}

/-- A reference is resolved without looking whether it is pending. -/
def resolve (m : Machine) (id : DocumentId) (path : Node) (sigil : Location) : Eval Value := do
  let site : Site := ⟨path.source, sigil⟩
  modifyDocument id fun d => { d with pending := ⟨site, path⟩ :: d.pending }
  andFinally (follow m id path)
    (modifyDocument id fun d => { d with pending := d.pending.filter (·.site ≠ site) })

theorem reference_eq (m : Machine) (id : DocumentId) (path : Node) (sigil : Location) :
    reference m id path sigil = (do
      let pending := (← Eval.document id).pending
      if pending.any (·.site = ⟨path.source, sigil⟩) then
        fail (.circular (sortTexts (← pending.mapM pendingText))) path.start
      else resolve m id path sigil) := by
  refine congrArg (Eval.document id >>= ·) (funext fun present => ?_)
  dsimp only
  split
  · refine congrArg (_ >>= ·) (funext fun texts => rfl)
  · rfl

theorem run_resolve (environment : Environment) (m : Machine) (id : DocumentId) (path : Node)
    (sigil : Location) :
    (resolve m id path sigil).run environment s =
      let begun := s.setDocument id { s.document id with
        pending := ⟨⟨path.source, sigil⟩, path⟩ :: (s.document id).pending }
      let (result, left) := (follow m id path).run environment begun
      (result, left.setDocument id { left.document id with
        pending := (left.document id).pending.filter (·.site ≠ ⟨path.source, sigil⟩) }) := by
  simp only [resolve, modifyDocument, run_bind, run_modify, run_andFinally]

end LazyConfig.Resolution

namespace LazyConfig.Evaluation

open Eval

variable (m : Machine)

/-- Evaluations that run alike are the same. -/
theorem ext_run {α : Type} {e other : Eval α}
    (same : ∀ environment s, e.run environment s = other.run environment s) : e = other :=
  funext fun environment => funext fun s => same environment s

/-- What becomes of a failure while an operator is applied. -/
def refuse : Failure → Eval Outcome
  | .host fault =>
    match fault.reason? with
    | some reason => return .refused reason
    | none => throw (.host fault)
  | other => throw other

theorem outcome_eq (owner : DocumentId) (op : Syntax.InfixOp) (left right : Value) :
    outcome m owner op left right = tryCatch (apply m owner op left right) refuse := by
  refine ext_run fun environment s => ?_
  unfold outcome
  rw [run_bind, run_tryCatch, run_tryCatch, run_bind]
  rcases (apply m owner op left right).run environment s with ⟨failure | v, behind⟩
  · cases failure with
    | host fault =>
      simp only [refuse]
      cases fault.reason? <;> rfl
    | error e => rfl
    | exhausted => rfl
  · rfl

/-- What becomes of a failure while the paths of a text are looked up. -/
def keepText : Failure → Eval Converted
  | .error _ => return none
  | other => throw other

theorem filledIn_eq (id : DocumentId) (pieces : List Conversion.Piece) :
    filledIn m id pieces =
      tryCatch (do return some (← joinedText (String.join (← pieces.mapM (pieceText m id)))))
        keepText := by
  refine ext_run fun environment s => ?_
  unfold filledIn
  simp only [run_bind, run_tryCatch]
  rcases (pieces.mapM (pieceText m id)).run environment s with ⟨failure | texts, behind⟩
  · cases failure <;> rfl
  · rfl

/-- What becomes of a failure of a lookup with a default. -/
def standIn (default : Value) : Failure → Eval (Value × Bool)
  | .error e => if e.category.coveredByDefault then return (default, false) else throw (.error e)
  | other => throw other

theorem withDefault_eq (default? : Option Value) (body : Eval Value) :
    withDefault default? body =
      match default? with
      | none => do return (← body, true)
      | some default => tryCatch (do return (← body, true)) (standIn default) := by
  cases default? with
  | none => rfl
  | some default =>
    refine ext_run fun environment s => ?_
    unfold withDefault
    simp only [run_bind, run_tryCatch]
    rcases body.run environment s with ⟨failure | v, behind⟩
    · cases failure with
      | host fault => rfl
      | error e =>
        simp only [standIn]
        cases e.category.coveredByDefault <;> rfl
      | exhausted => rfl
    · rfl

end LazyConfig.Evaluation

namespace LazyConfig.Conversion

open Eval
open Evaluation

/-- A text is converted without looking whether it is being converted. -/
def converting (m : Machine) (id : DocumentId) (text : String) : Eval Converted := do
  modifyDocument id fun d => { d with converting := text :: d.converting }
  andFinally (converterResult m id text)
    (modifyDocument id fun d => { d with converting := d.converting.filter (· ≠ text) })

/-- A text that has been converted to the very object that it is, or not at all, stays as it is
where that is allowed. -/
def settle (text : String) (mark : Mark) (result : Converted) : Eval Value := do
  match result.filter fun v => !v.same (.text text mark) with
  | some v => return v
  | none =>
    if (← settings).strictConversions then fail (.notConverted text)
    else return .text text mark

theorem convert_eq (m : Machine) (id : DocumentId) (text : String) (mark : Mark) :
    convert m id text mark = (do
      if (← Eval.document id).converting.contains text then fail (.circular ["`" ++ text ++ "`"])
      else settle text mark (← converting m id text)) := by
  refine congrArg (Eval.document id >>= ·) (funext fun d => ?_)
  split
  · rfl
  · simp only [converting, bind_assoc]
    refine congrArg (_ >>= ·) (funext fun _ => congrArg (_ >>= ·) (funext fun result => ?_))
    unfold settle
    cases result.filter fun v => !v.same (.text text mark) with
    | some v => rfl
    | none =>
      refine congrArg (Eval.settings >>= ·) (funext fun settings => ?_)
      split <;> rfl

theorem run_converting (environment : Environment) (m : Machine) (id : DocumentId) (text : String)
    (s : Store) :
    (converting m id text).run environment s =
      let begun := s.setDocument id { s.document id with
        converting := text :: (s.document id).converting }
      let (result, left) := (converterResult m id text).run environment begun
      (result, left.setDocument id { left.document id with
        converting := (left.document id).converting.filter (· ≠ text) }) := by
  simp only [converting, modifyDocument, run_bind, run_modify, run_andFinally]

end LazyConfig.Conversion

namespace LazyConfig.Inclusion

open Eval
open Evaluation

/-- The file that a name leads to, and its place. -/
def located? (d : Document) (environment : Environment) (name : String) :
    Option (String × Place) :=
  let files := environment.world.files
  (candidates d environment.settings.includePath files name).findSome? fun found =>
    (files.resolve? found).map fun place => (found, place)

/-- The value of the file of a name that stands at the given place. -/
def includedFile (id : DocumentId) (name : String) (start : Location) : Eval Value := do
  let outer ← Eval.document id
  match located? outer (← read) name with
  | none => fail (.notLocated name) start
  | some (found, place) =>
    if outer.includeChain.contains place.text then fail (.includesItself name) start
    else nested id found (← parsed Syntax.document (← readFile found))

private theorem read_twice {α : Type} (f : Environment → Environment → Eval α) :
    (read >>= fun outer => read >>= fun inner => f outer inner) = read >>= fun outer => f outer outer :=
  rfl

theorem included_eq (m : Machine) (id : DocumentId) (operand : Node) :
    included m id operand = (do
      match ← m.evaluate id operand with
      | .text name _ => includedFile id name operand.start
      | v => fail (.notFileName (← describe v)) operand.start) := by
  refine congrArg (m.evaluate id operand >>= ·) (funext fun v => ?_)
  cases v with
  | text name mark =>
    unfold includedFile
    refine congrArg (Eval.document id >>= ·) (funext fun outer => ?_)
    unfold Eval.world Eval.settings
    simp only [bind_assoc, pure_bind]
    rw [read_twice]
    refine congrArg (read >>= ·) (funext fun environment => ?_)
    cases isLocated : located? outer environment name with
    | none =>
      dsimp only [located?] at isLocated
      rw [isLocated]
    | some pair =>
      dsimp only [located?] at isLocated
      rw [isLocated]
      dsimp only
      split <;> rfl
  | _ => rfl

end LazyConfig.Inclusion

namespace LazyConfig

open Eval
open Evaluation

/-- The chain of files that leads to what the document's parent includes. -/
def Store.outerChain (s : Store) (id : DocumentId) : List String :=
  match (s.document id).parent with
  | some parent => (s.document parent).includeChain
  | none => []

theorem Document.run_placeAt {environment : Environment} {s : Store} (id : DocumentId)
    (name : String) :
    (placeAt id name).run environment s =
      (.ok (), s.setDocument id
        ((s.document id).atFile environment.world.files (s.outerChain id) name)) := by
  have chain : (Document.outerChain id).run environment s = (.ok (s.outerChain id), s) := by
    unfold Document.outerChain Store.outerChain
    rw [run_bind, run_document]
    dsimp only
    cases (s.document id).parent with
    | none => rfl
    | some parent => rfl
  simp only [placeAt, run_bind, chain, run_world, run_modifyDocument]

end LazyConfig
