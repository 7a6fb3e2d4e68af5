import Mathlib
import LazyConfig.Proofs.Inclusion.Nested

/-!
# Where the operands of a path are evaluated

A path is walked step by step. What a step finds in a container is evaluated by the document that
the container belongs to, and so is the operand of the next step. The operand of a step behind an
included document is therefore evaluated by this document, and not by the one that the path is
written in.
-/

namespace LazyConfig.Inclusion

open Eval
open Evaluation

/-- The document that evaluates what stands in a container. -/
def scope? (s : Store) : Value → Option DocumentId
  | .mappingView id => some (s.view id).owner
  | .listView id => some (s.view id).owner
  | .document id => some id
  | _ => none

/-- Some steps of a path from a value on. Each operand is evaluated by the document that evaluates
what the step before has found. -/
def walk (m : Machine) (path : Node) (start : DocumentId × Value) (steps : List Step) :
    Eval (DocumentId × Value) :=
  steps.foldlM (fun (evaluator, v) step => do take m path v (← ready m evaluator step)) start

variable {environment : Environment} {s left : Store} {m : Machine} {path : Node}

theorem scope_stepInto {evaluator next : DocumentId} {view : ViewId} {key : String} {v : Value}
    (ran : (stepInto m evaluator view key).run environment s = (.ok (next, v), left)) :
    next = evaluator := by
  obtain ⟨entries, middle, -, ran⟩ := run_bind_ok ran
  cases found : entries.lookup key with
  | none =>
    rw [found] at ran
    cases ran
  | some slot =>
    rw [found] at ran
    obtain ⟨w, last, -, ran⟩ := run_bind_ok ran
    cases ran
    rfl

theorem scope_elementAt {view : ViewId} {index : Int} {next : DocumentId} {v : Value}
    (ran : (elementAt m view index).run environment s = (.ok (next, v), left)) :
    next = (s.view view).owner := by
  rw [elementAt, run_bind, run_viewOwner] at ran
  dsimp only at ran
  obtain ⟨present, middle, -, ran⟩ := run_bind_ok ran
  split at ran
  · obtain ⟨_, _, -, ran⟩ := run_bind_ok ran
    cases ran
  · cases ran
    rfl
  · obtain ⟨w, behind, -, ran⟩ := run_bind_ok ran
    obtain ⟨_, _, -, ran⟩ := run_bind_ok ran
    cases ran
    rfl

theorem scope_keyed {container : Eval (DocumentId × ViewId)} {next : DocumentId}
    {step : ReadyStep} {v : Value}
    (ran : (keyed m container step).run environment s = (.ok (next, v), left)) :
    ∃ middle evaluator view, container.run environment s = (.ok (evaluator, view), middle) ∧
      next = evaluator := by
  unfold keyed at ran
  split at ran
  · cases ran
  · obtain ⟨⟨evaluator, view⟩, middle, found, ran⟩ := run_bind_ok ran
    exact ⟨middle, evaluator, view, found, scope_stepInto ran⟩
  · obtain ⟨_, _, -, ran⟩ := run_bind_ok ran
    cases ran

/-- The root of a document belongs to the document that evaluates what stands in it. -/
theorem scope_root {id evaluator : DocumentId} {view : ViewId}
    (ran : (do
      match (← Eval.document id).root with
      | some root => return (id, root)
      | none => failHost .noAttribute : Eval (DocumentId × ViewId)).run environment s =
        (.ok (evaluator, view), left)) : evaluator = id := by
  rw [run_bind, run_document] at ran
  dsimp only at ran
  cases root : (s.document id).root with
  | none =>
    rw [root] at ran
    cases ran
  | some found =>
    rw [root] at ran
    cases ran
    rfl

/-- What a step finds in a container is evaluated by the document that the container belongs to. -/
theorem scope_take {v w : Value} {step : ReadyStep} {next : DocumentId}
    (ran : (take m path v step).run environment s = (.ok (next, w), left)) :
    scope? s v = some next := by
  unfold take at ran
  split at ran
  · obtain ⟨middle, evaluator, view, found, rfl⟩ := scope_keyed ran
    cases found
    rfl
  · obtain ⟨middle, evaluator, view, found, rfl⟩ := scope_keyed ran
    exact congrArg some (scope_root found).symm
  · rw [run_bind, run_viewOwner] at ran
    dsimp only at ran
    split at ran
    · obtain ⟨w, middle, -, ran⟩ := run_bind_ok ran
      cases ran
      rfl
    · exact congrArg some (scope_elementAt ran).symm
    · obtain ⟨_, _, -, ran⟩ := run_bind_ok ran
      cases ran
  · split at ran
    · cases ran
    · obtain ⟨_, _, -, ran⟩ := run_bind_ok ran
      cases ran

/-! ### Operands behind a container -/

theorem walk_append (start : DocumentId × Value) (before after : List Step) :
    walk m path start (before ++ after) =
      walk m path start before >>= fun reached => walk m path reached after :=
  List.foldlM_append

theorem walk_cons (evaluator : DocumentId) (v : Value) (step : Step) (steps : List Step) :
    walk m path (evaluator, v) (step :: steps) = (do
      let step ← ready m evaluator step
      walk m path (← take m path v step) steps) := by
  simp only [walk, List.foldlM_cons, bind_assoc]

/-- A path that has reached an included document: what follows the step into it is walked in this
document, and the operand of an index behind this step is evaluated there, too. -/
theorem walk_index (reached inner : DocumentId) (entering : Step) (operand : Node)
    (after : List Step) :
    (walk m path (reached, .document inner) (entering :: .index operand :: after)).run
        environment s =
      (do
        let key ← ready m reached entering
        let (_, w) ← take m path (.document inner) key
        let index ← m.evaluate inner operand
        walk m path (← take m path w (.operand index)) after).run environment s := by
  rw [walk_cons, run_bind, run_bind]
  rcases (ready m reached entering).run environment s with ⟨_ | key, opened⟩
  · rfl
  dsimp only
  rw [run_bind, run_bind]
  rcases entered : (take m path (.document inner) key).run environment opened with
    ⟨_ | ⟨next, w⟩, left⟩
  · rfl
  obtain rfl : inner = next := Option.some.inj (scope_take entered)
  dsimp only
  rw [walk_cons, ready, bind_assoc]
  simp only [pure_bind]

/-- A path is followed by walking its steps from the value of its first name. -/
theorem run_follow {id : DocumentId} {head : Token} {root : ViewId} {owner : DocumentId}
    {entries : List (String × Slot)} {slot : Slot} {first : Value} {begun : Store}
    (isHead : path.head? = some head) (isWord : head.kind = .word)
    (isRoot : (s.document id).root = some root) (isView : s.view root = .mapping owner entries)
    (isEntry : entries.lookup head.name = some slot)
    (started : (slotValue m owner slot).run environment s = (.ok first, begun)) :
    (follow m id path).run environment s =
      (do
        let (_, v) ← walk m path (owner, first) path.steps
        return v).run environment begun := by
  have isOwner : (s.view root).owner = owner := by rw [isView]; rfl
  simp only [follow, isHead, isWord, ne_eq, not_true_eq_false, if_false, run_bind, run_document,
    isRoot, run_viewOwner, isOwner, run_entries isView, isEntry, started]
  rfl

/-- Wherever a path leads into an included document, the operand of the index behind the step into
it is evaluated by the included document: a reference there is looked up from its root, whichever
document the path is written in. -/
theorem follow_index {id : DocumentId} {head : Token} {root : ViewId} {owner : DocumentId}
    {entries : List (String × Slot)} {slot : Slot} {first : Value} {reached inner : DocumentId}
    {before after : List Step} {entering : Step} {operand : Node} {begun middle : Store}
    (isHead : path.head? = some head) (isWord : head.kind = .word)
    (isRoot : (s.document id).root = some root) (isView : s.view root = .mapping owner entries)
    (isEntry : entries.lookup head.name = some slot)
    (started : (slotValue m owner slot).run environment s = (.ok first, begun))
    (steps : path.steps = before ++ entering :: .index operand :: after)
    (walked : (walk m path (owner, first) before).run environment begun =
      (.ok (reached, .document inner), middle)) :
    (follow m id path).run environment s =
      (do
        let key ← ready m reached entering
        let (_, w) ← take m path (.document inner) key
        let index ← m.evaluate inner operand
        let (_, v) ← walk m path (← take m path w (.operand index)) after
        return v).run environment middle := by
  rw [run_follow isHead isWord isRoot isView isEntry started, steps, walk_append, bind_assoc,
    run_bind, walked]
  dsimp only
  rw [run_bind, walk_index, ← run_bind]
  simp only [bind_assoc]

/-! ### An index that is looked up in the included document -/

/-- A reference is followed while it is pending. -/
def pended (s : Store) (id : DocumentId) (path : Node) (sigil : Location) : Store :=
  s.setDocument id { s.document id with
    pending := ⟨⟨path.source, sigil⟩, path⟩ :: (s.document id).pending }

/-- What a document has at a key under which a reference leads to a number. -/
theorem run_get_reference (depth : Nat) {id : DocumentId} {root : ViewId} {key : String}
    {entries : List (String × Slot)} {sigil : Location} {n : Number} {mark : Mark}
    (deep : environment.depth = depth + 2)
    (notKept : (s.document id).cache.bind (·.lookup key) = none)
    (isRoot : (s.document id).root = some root) (isView : s.view root = .mapping id entries)
    (isEntry : entries.lookup key = some (.node (.reference path sigil)))
    (idle : (s.document id).pending = [])
    (followed : ((follow ⟨answerWithin depth⟩ id path).run environment
      (pended s id path sigil)).1 = .ok (.number n mark)) :
    ((Document.get id key).run environment s).1 = .ok (.number n mark) := by
  have isOwner : (s.view root).owner = id := by rw [isView]; rfl
  have started : (Document.get id key).run environment s =
      (lookupValue ⟨answerWithin (depth + 1)⟩ id key none).run environment s := by
    rw [Document.get, machine, run_bind, run_bind, run_read]
    dsimp only
    rw [run_pure, deep]
    rfl
  have resolved : ((slotValue ⟨answerWithin (depth + 1)⟩ id (.node (.reference path sigil))).run
      environment s).1 = .ok (.number n mark) := by
    change ((reference ⟨answerWithin depth⟩ id path sigil).run environment s).1 = _
    rw [Resolution.reference_eq, run_bind, run_document]
    simp only [idle, List.any_nil, Bool.false_eq_true, if_false, Resolution.run_resolve]
    rw [← idle]
    exact followed
  rcases ran : (slotValue ⟨answerWithin (depth + 1)⟩ id (.node (.reference path sigil))).run
    environment s with ⟨result, left⟩
  rw [ran] at resolved
  obtain rfl : result = .ok (.number n mark) := resolved
  rw [started]
  simp only [lookupValue, run_bind, run_document, notKept, isRoot, found, entryValue?,
    run_entries isView, isEntry, run_viewOwner, isOwner, ran, run_pure, unwrap, Bool.not_true,
    Bool.false_eq_true, if_false, run_modifyDocument]

/-- A file that has a key of its own under the name that the including document uses, and a
document with a reference whose index names this key. -/
def includedText : Text.Decoded := ⟨"i: 0\nl: [10, 20]".toList, none⟩

def crossingEnvironment : Environment where
  world := { files := ⟨[], [(["n"], .file "i: 0\nl: [10, 20]".toUTF8)]⟩ }
  settings := {}

def crossingText : Text.Decoded := ⟨"i: 1\nn: @'n'\nx: $\x7bn.l[$\x7bi\x7d]\x7d".toList, none⟩

def crossingStore : Store :=
  ((Resolution.opened false crossingText none).run crossingEnvironment {}).2

/-- The integer that an evaluation gives. -/
def integer? (result : Except Failure Value) : Option Int :=
  match result with
  | .ok (.number (.int n) _) => some n
  | _ => none

/-- Whether a path of a name and an index, followed from a store in which its first name has led to
the file, comes to an integer. -/
def comesTo (depth : Nat) (begun : Store) (path : Node) (n : Int) : Bool :=
  match path.steps, tree? includedText with
  | [entering, .index operand], .ok tree =>
    match tree.inSource begun.serial with
    | .mapping entries span =>
      match collectEntries true [] [] entries with
      | .ok slots =>
        let middle := withNested crossingEnvironment begun.fresh.2 0 "/n" span slots
        integer? ((do
          let key ← ready ⟨answerWithin depth⟩ 0 entering
          let (_, w) ← take ⟨answerWithin depth⟩ path (.document 1) key
          let index ← (Machine.mk (answerWithin depth)).evaluate 1 operand
          let (_, v) ← walk ⟨answerWithin depth⟩ path
            (← take ⟨answerWithin depth⟩ path w (.operand index)) []
          return v : Eval Value).run crossingEnvironment middle).1 = some n
      | .error _ => false
    | _ => false
  | _, _ => false

/-- Whether the entries of a view include the file and cross into it by a reference. -/
def crosses (depth : Nat) (s : Store) (n : Int) : View → Bool
  | .mapping owner entries =>
    match entries.lookup "n", entries.lookup "x" with
    | some (.node (.unary .located (.leaf file) _)), some (.node (.reference path sigil)) =>
      owner = 0 ∧ file.kind = .string ∧ file.value = .text "n" ∧
        path.head?.any (fun head => head.kind = .word ∧ head.name = "n") ∧
        comesTo depth (pended s 0 path sigil) path n
    | _, _ => false
  | .list _ _ => false

theorem eq_of_integer? {result : Except Failure Value} {n : Int}
    (isInteger : integer? result = some n) :
    ∃ mark, result = .ok (.number (.int n) mark) := by
  unfold integer? at isInteger
  split at isInteger
  · cases isInteger
    exact ⟨_, rfl⟩
  · cases isInteger

theorem read_included :
    crossingEnvironment.world.files.read .utf8 "/n" = .ok includedText := by cbv

theorem located_included : located? {} crossingEnvironment "n" = some ("/n", ["n"]) := by cbv

theorem run_string {m : Machine} {id : DocumentId} {token : Token} {text : String}
    (isString : token.kind = .string) (isText : token.value = .text text) :
    (tokenValue m id token).run environment s =
      (.ok (.text text (.ofText text (.written token.span.source token.span.start))), s) := by
  simp only [tokenValue, isString, isText, Value.ofLiteral, run_pure]

/-- A reference into an included document gives the element whose number the included document has
under the key in the index, although the document with the reference has another number there. -/
theorem index_looked_up_in_included :
    integer? ((Document.get 0 "i").run crossingEnvironment crossingStore).1 = some 1 ∧
      integer? ((Document.get 0 "x").run crossingEnvironment crossingStore).1 = some 10 := by
  refine ⟨by decide +kernel, ?_⟩
  have crossed : crosses 99998 crossingStore 10 (crossingStore.view 0) = true := by decide +kernel
  have isRoot : (crossingStore.document 0).root = some 0 := by decide +kernel
  have notKept : (crossingStore.document 0).cache.isNone = true := by decide +kernel
  have idle : (crossingStore.document 0).pending.isEmpty = true := by decide +kernel
  have unplaced : (crossingStore.document 0).directory = none ∧
    (crossingStore.document 0).includeChain = [] := by decide +kernel
  have present : 0 < crossingStore.documents.size ∧ crossingStore.documents.size = 1 := by
    decide +kernel
  generalize crossingStore = s at *
  unfold crosses at crossed
  split at crossed
  case h_2 => cases crossed
  rename_i owner entries isView
  split at crossed
  case h_2 => cases crossed
  rename_i file start path sigil isFile isReference
  simp only [decide_eq_true_eq] at crossed
  obtain ⟨rfl, isString, isText, isHead, comes⟩ := crossed
  obtain ⟨head, isHead, named⟩ := (Option.any_eq_true ..).mp isHead
  obtain ⟨isWord, isName⟩ : head.kind = .word ∧ head.name = "n" := by simpa using named
  unfold comesTo at comes
  split at comes
  case h_2 => cases comes
  rename_i entering operand tree steps isTree
  split at comes
  case h_2 => cases comes
  rename_i inner span shape
  split at comes
  case h_2 => cases comes
  rename_i slots collected
  let begun := pended s 0 path sigil
  have here : begun.document 0 = { s.document 0 with
      pending := ⟨⟨path.source, sigil⟩, path⟩ :: (s.document 0).pending } :=
    s.document_setDocument _ present.1
  have located : located? (begun.document 0) crossingEnvironment "n" = some ("/n", ["n"]) := by
    rw [← located_included, located?, located?, candidates, candidates, here, unplaced.1]
  have started : (slotValue ⟨answerWithin 99998⟩ 0
      (.node (.unary .located (.leaf file) start))).run crossingEnvironment begun =
        (.ok (.document 1), withNested crossingEnvironment begun.fresh.2 0 "/n" span slots) := by
    have size : begun.documents.size = 1 := by
      simpa [begun, pended, Store.setDocument] using present.2
    rw [← size]
    exact run_included_mapping (run_string isString isText) located
      (by rw [here, unplaced.2]; rfl) read_included isTree shape collected
  have followed := follow_index isHead isWord (by rw [here]; exact isRoot)
    (show begun.view 0 = .mapping 0 entries from isView) (isName ▸ isFile) started
    (show path.steps = [] ++ entering :: .index operand :: [] from steps) rfl
  have isNumber := of_decide_eq_true comes
  rw [← followed] at isNumber
  obtain ⟨mark, isNumber⟩ := eq_of_integer? isNumber
  rw [run_get_reference 99998 rfl (by rw [Option.isNone_iff_eq_none.mp notKept]; rfl) isRoot isView
    isReference (List.isEmpty_iff.mp idle) isNumber]
  rfl

end LazyConfig.Inclusion
