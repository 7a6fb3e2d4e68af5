import LazyConfig.Proofs.Inclusion.Scope

/-!
# Inclusion and inlining

A file that an index names is looked for from the document that evaluates the index. Behind a step
into an included document this is the directory of the included file, so that a path can fail there
although it does not fail in a document that has the text of the file in place of its name.
-/

namespace LazyConfig.Inclusion

open Eval
open Evaluation

variable {environment : Environment} {s left : Store} {path : Node}

/-- Only the directory of a document decides where files are looked for. -/
theorem located?_congr {d other : Document} (environment : Environment) (name : String)
    (same : d.directory = other.directory) :
    located? d environment name = located? other environment name := by
  simp only [located?, candidates, same]

/-- A file that is not found cannot be included. -/
theorem run_included_unlocated {m : Machine} {id : DocumentId} {operand : Node} {name : String}
    {mark : Mark} (named : (m.evaluate id operand).run environment s = (.ok (.text name mark), left))
    (unlocated : located? (left.document id) environment name = none) :
    (included m id operand).run environment s =
      (.error (.error ⟨.notLocated name, operand.start⟩), left) := by
  rw [included, run_bind, named]
  dsimp only
  rw [run_bind, run_document]
  dsimp only
  rw [run_bind, run_world]
  dsimp only
  rw [run_bind, run_settings]
  dsimp only [located?] at unlocated ⊢
  rw [unlocated]
  rfl

theorem run_literal {m : Machine} {id : DocumentId} {token : Token}
    (isInteger : token.kind = .integer) :
    (tokenValue m id token).run environment s = (.ok (.ofLiteral token.span token.value), s) := by
  simp only [tokenValue, isInteger, run_pure]

/-- A file that the index behind an entry of an included document names is looked for from the
included document, wherever else it could be found. -/
theorem run_walk_file {depth : Nat} {reached inner : DocumentId} {root : ViewId} {key name : String}
    {entries : List (String × Slot)} {entry file : Token} {start : Location} (after : List Step)
    (isRoot : (s.document inner).root = some root) (isView : s.view root = .mapping inner entries)
    (isEntry : entries.lookup key = some (.node (.leaf entry))) (isInteger : entry.kind = .integer)
    (isString : file.kind = .string) (isName : file.value = .text name)
    (unlocated : located? (s.document inner) environment name = none) :
    ((walk ⟨answerWithin (depth + 2)⟩ path (reached, .document inner)
        (.member key :: .index (.unary .located (.leaf file) start) :: after)).run environment s).1 =
      .error (.error ⟨.notLocated name, file.span.start⟩) := by
  let m : Machine := ⟨answerWithin (depth + 2)⟩
  have entered : (take m path (.document inner) (.operand (.text key
      (.ofText key (.made s.serial))))).run environment s.fresh.2 =
        (.ok (inner, .ofLiteral entry.span entry.value), s.fresh.2) := by
    have evaluated : (m.evaluate inner (.leaf entry)).run environment s.fresh.2 =
        (.ok (.ofLiteral entry.span entry.value), s.fresh.2) := run_literal isInteger
    have isRoot : (s.fresh.2.document inner).root = some root := isRoot
    have isView : s.fresh.2.view root = .mapping inner entries := isView
    simp only [take, keyed, run_bind, run_document, isRoot, run_pure, stepInto, run_entries isView,
      isEntry, slotValue, evaluated]
  have unopened : (m.evaluate inner (.unary .located (.leaf file) start)).run environment
      s.fresh.2 = (.error (.error ⟨.notLocated name, file.span.start⟩), s.fresh.2) :=
    run_included_unlocated (m := ⟨answerWithin (depth + 1)⟩) (run_string isString isName) unlocated
  rw [walk_index, run_bind]
  have named : (ready m reached (.member key)).run environment s =
      (.ok (.operand (.text key (.ofText key (.made s.serial)))), s.fresh.2) := by
    simp only [ready, newText, run_bind, run_freshMark, run_pure]
  rw [named]
  dsimp only
  rw [run_bind, entered]
  dsimp only
  rw [run_bind, unopened]

/-! ### A path into an included file and into its text -/

/-- A path that cannot be followed cannot be looked up. -/
theorem run_get_failed (depth : Nat) {id : DocumentId} {root : ViewId} {key : String} {path : Node}
    {entries : List (String × Slot)} {failure : Failure}
    (deep : environment.depth = depth + 1)
    (notKept : (s.document id).cache = none)
    (isRoot : (s.document id).root = some root) (isView : s.view root = .mapping id entries)
    (noEntry : entries.lookup key = none) (noName : Path.isIdentifier key = false)
    (isPath : Path.ofString key = .ok path)
    (failed : ((follow ⟨answerWithin depth⟩ id (path.inSource s.serial)).run environment
      s.fresh.2).1 = .error failure) :
    ((Document.get id key).run environment s).1 = .error failure := by
  have started : (Document.get id key).run environment s =
      (lookupValue ⟨answerWithin depth⟩ id key none).run environment s := by
    rw [Document.get, machine, run_bind, run_bind, run_read]
    dsimp only
    rw [run_pure, deep]
    rfl
  rcases ran : (follow ⟨answerWithin depth⟩ id (path.inSource s.serial)).run environment
    s.fresh.2 with ⟨result, left⟩
  rw [ran] at failed
  obtain rfl : result = .error failure := failed
  simp only [started, lookupValue, run_bind, run_document, notKept, Option.bind_none, isRoot, found,
    entryValue?, run_entries isView, noEntry, run_pure, noName, Bool.false_eq_true, if_false,
    withDefault, Resolution.run_followText isPath, ran]

/-- A file of one entry, and another file that is not beside it. -/
def inlinedEnvironment : Environment where
  world :=
    { files := ⟨[], [(["d", "f"], .file "l: 1".toUTF8), (["x"], .file "a: 1".toUTF8)]⟩ }
  settings := {}

/-- A document that includes the file, and the same with the file's text in its place. -/
def includingStore : Store :=
  ((Resolution.opened false ⟨"k: @'d/f'".toList, none⟩ none).run inlinedEnvironment {}).2

def inlinedStore : Store :=
  ((Resolution.opened false ⟨"k: \x7bl: 1\x7d".toList, none⟩ none).run inlinedEnvironment {}).2

/-- The path to the entry of the file and the name of the other file as an index. -/
def filePath : String := "k.l[@'x']"

/-- The category of the error that an evaluation ends in. -/
def category? (result : Except Failure Value) : Option Category :=
  match result with
  | .error (.error e) => some e.category
  | _ => none

theorem read_file :
    inlinedEnvironment.world.files.read .utf8 "/d/f" = .ok ⟨"l: 1".toList, none⟩ := by cbv

theorem located_file :
    located? {} inlinedEnvironment "d/f" = some ("/d/f", ["d", "f"]) := by cbv

theorem unlocated_other :
    located? { directory := some (inlinedEnvironment.world.files.directoryOf "/d/f") }
      inlinedEnvironment "x" = none := by cbv

theorem read_other :
    inlinedEnvironment.world.files.read .utf8 "/x" = .ok ⟨"a: 1".toList, none⟩ := by cbv

theorem located_other : located? {} inlinedEnvironment "x" = some ("/x", ["x"]) := by cbv

/-- Whether steps are those of the path. -/
def isFileSteps : List Step → Bool
  | [.member key, .index (.unary .located (.leaf file) _)] =>
    key = "l" ∧ file.kind = .string ∧ file.value = .text "x"
  | _ => false

theorem eq_of_isFileSteps {steps : List Step} (areSteps : isFileSteps steps = true) :
    ∃ file start, steps = [.member "l", .index (.unary .located (.leaf file) start)] ∧
      file.kind = .string ∧ file.value = .text "x" := by
  unfold isFileSteps at areSteps
  split at areSteps
  · obtain ⟨rfl, isString, isText⟩ := of_decide_eq_true areSteps
    exact ⟨_, _, rfl, isString, isText⟩
  · cases areSteps

theorem filePath_shape : ∃ path head file start, Path.ofString filePath = .ok path ∧
    (path.inSource 1).head? = some head ∧ head.kind = .word ∧ head.name = "k" ∧
    (path.inSource 1).steps = [.member "l", .index (.unary .located (.leaf file) start)] ∧
    file.kind = .string ∧ file.value = .text "x" := by
  obtain ⟨path, isPath, shape⟩ := Resolution.exists_of_any (Path.ofString filePath)
    (fun path => (path.inSource 1).head?.any (fun head => head.kind = .word ∧ head.name = "k") &&
      isFileSteps (path.inSource 1).steps) (by decide +kernel)
  obtain ⟨isHead, areSteps⟩ := Bool.and_eq_true_iff.mp shape
  obtain ⟨head, isHead, named⟩ := (Option.any_eq_true ..).mp isHead
  obtain ⟨isWord, isName⟩ := of_decide_eq_true named
  obtain ⟨file, start, steps, isString, isText⟩ := eq_of_isFileSteps areSteps
  exact ⟨path, head, file, start, isPath, isHead, isWord, isName, steps, isString, isText⟩

/-- Whether a view has the file under its key. -/
def includes : View → Bool
  | .mapping owner entries =>
    match entries.lookup "k" with
    | some (.node (.unary .located (.leaf file) _)) =>
      owner = 0 ∧ file.kind = .string ∧ file.value = .text "d/f" ∧ (entries.lookup filePath).isNone
    | _ => false
  | .list _ _ => false

/-- Whether a view has an integer under the key of the file's entry. -/
def holdsInteger (entries : List (String × Slot)) : Bool :=
  match entries.lookup "l" with
  | some (.node (.leaf entry)) => entry.kind = .integer
  | _ => false

theorem eq_of_holdsInteger {entries : List (String × Slot)} (holds : holdsInteger entries = true) :
    ∃ entry, entries.lookup "l" = some (.node (.leaf entry)) ∧ entry.kind = .integer := by
  unfold holdsInteger at holds
  split at holds
  · exact ⟨_, by assumption, of_decide_eq_true holds⟩
  · cases holds

theorem file_shape : ∃ tree entries span slots, tree? ⟨"l: 1".toList, none⟩ = .ok tree ∧
    tree.inSource 2 = .mapping entries span ∧ collectEntries true [] [] entries = .ok slots ∧
    holdsInteger slots = true :=
  exists_slots holdsInteger (by decide +kernel)

theorem inclusion_fails :
    category? ((Document.get 0 filePath).run inlinedEnvironment includingStore).1 =
      some .inclusion := by
  have shape : includes (includingStore.view 0) = true := by decide +kernel
  have facts : (includingStore.document 0).root = some 0 ∧ includingStore.serial = 1 ∧
      (includingStore.document 0).directory = none ∧
      (includingStore.document 0).includeChain = [] ∧ includingStore.documents.size = 1 ∧
      includingStore.views.size = 1 := by decide +kernel
  have notKept : (includingStore.document 0).cache.isNone = true := by decide +kernel
  generalize includingStore = s at *
  obtain ⟨isRoot, serial, directory, chain, documents, views⟩ := facts
  obtain ⟨path, head, other, start, isPath, isHead, isWord, isName, steps, isString, isText⟩ :=
    filePath_shape
  obtain ⟨tree, entries, span, slots, isTree, isMapping, collected, holds⟩ := file_shape
  obtain ⟨entry, isEntry, isInteger⟩ := eq_of_holdsInteger holds
  unfold includes at shape
  split at shape
  case h_2 => cases shape
  rename_i owner outer isView
  split at shape
  case h_2 => cases shape
  rename_i file sigil isFile
  obtain ⟨rfl, isFileString, isFileName, noEntry⟩ := of_decide_eq_true shape
  have named : ((Machine.mk (answerWithin 99998)).evaluate 0 (.leaf file)).run inlinedEnvironment
      s.fresh.2 = _ := run_string isFileString isFileName
  have started : (slotValue ⟨answerWithin 99999⟩ 0
      (.node (.unary .located (.leaf file) sigil))).run inlinedEnvironment s.fresh.2 =
        (.ok (.document 1),
          withNested inlinedEnvironment s.fresh.2.fresh.2 0 "/d/f" span slots) := by
    have located : located? (s.fresh.2.document 0) inlinedEnvironment "d/f" =
        some ("/d/f", ["d", "f"]) := by
      rw [← located_file]
      exact located?_congr _ _ directory
    have outside : (s.fresh.2.document 0).includeChain = [] := chain
    have isMapping : tree.inSource s.fresh.2.serial = .mapping entries span := by
      rw [← isMapping, Store.fresh, serial]
    rw [← documents]
    exact run_included_mapping named located (by rw [outside]; rfl) read_file isTree isMapping
      collected
  let middle := withNested inlinedEnvironment s.fresh.2.fresh.2 0 "/d/f" span slots
  have isNested : middle.document 1 =
      nestedDocument inlinedEnvironment s.fresh.2.fresh.2 0 "/d/f" span := by
    have last : middle.document s.documents.size = _ := s.fresh.2.fresh.2.document_addDocument _
    rwa [documents] at last
  have isInner : middle.view 1 = .mapping 1 slots := by
    have last : middle.view s.views.size = .mapping s.documents.size slots :=
      s.fresh.2.fresh.2.view_addView _
    rwa [views, documents] at last
  have unlocated : located? (middle.document 1) inlinedEnvironment "x" = none := by
    rw [← unlocated_other, isNested]
    exact located?_congr _ _ rfl
  have isInnerRoot : (middle.document 1).root = some 1 := by
    rw [isNested]
    exact congrArg some views
  have followed : ((follow ⟨answerWithin 99999⟩ 0 (path.inSource s.serial)).run inlinedEnvironment
      s.fresh.2).1 = .error (.error ⟨.notLocated "x", other.span.start⟩) := by
    rw [serial, run_follow isHead isWord (show (s.fresh.2.document 0).root = _ from isRoot)
      (show s.fresh.2.view 0 = _ from isView) (isName ▸ isFile) started, steps, run_bind]
    have walked : ((walk ⟨answerWithin 99999⟩ (path.inSource 1) (0, .document 1)
        [.member "l", .index (.unary .located (.leaf other) start)]).run inlinedEnvironment
          middle).1 = _ :=
      run_walk_file [] isInnerRoot isInner isEntry isInteger isString isText unlocated
    rcases ran : (walk ⟨answerWithin 99999⟩ (path.inSource 1) (0, .document 1)
      [.member "l", .index (.unary .located (.leaf other) start)]).run inlinedEnvironment middle
        with ⟨result, left⟩
    rw [ran] at walked
    obtain rfl : result = _ := walked
    rfl
  rw [run_get_failed 99999 rfl (Option.isNone_iff_eq_none.mp notKept) isRoot isView
    (Option.isNone_iff_eq_none.mp noEntry) (by decide +kernel) isPath followed]
  rfl

/-- Whether a value does not take a file, included at this point, for an index. -/
def refuses (path : Node) (v : Value) (s : Store) : Bool :=
  match tree? ⟨"a: 1".toList, none⟩ with
  | .ok tree =>
    match tree.inSource s.serial with
    | .mapping entries span =>
      match collectEntries true [] [] entries with
      | .ok slots =>
        category? ((Prod.snd <$> take ⟨answerWithin 99999⟩ path v
          (.operand (.document s.documents.size))).run inlinedEnvironment
            (withNested inlinedEnvironment s.fresh.2 0 "/x" span slots)).1 = some .notFound
      | .error _ => false
    | _ => false
  | .error _ => false

/-- Whether the mapping under the key leads to a value that does not take a file for an index. -/
def inlines (path : Node) (s : Store) : View → Bool
  | .mapping owner entries =>
    match entries.lookup "k" with
    | some slot =>
      let leads : Eval (DocumentId × Value) := do
        let first ← slotValue ⟨answerWithin 99999⟩ 0 slot
        let key ← ready ⟨answerWithin 99999⟩ 0 (.member "l")
        take ⟨answerWithin 99999⟩ path first key
      match leads.run inlinedEnvironment s with
      | (.ok (reached, v), left) =>
        owner = 0 ∧ reached = 0 ∧ (left.document 0).directory = none ∧
          (left.document 0).includeChain = [] ∧ refuses path v left ∧
          (entries.lookup filePath).isNone
      | _ => false
    | none => false
  | .list _ _ => false

theorem inlining_refuses :
    category? ((Document.get 0 filePath).run inlinedEnvironment inlinedStore).1 =
      some .notFound := by
  obtain ⟨path, head, other, start, isPath, isHead, isWord, isName, steps, isString, isText⟩ :=
    filePath_shape
  have shape : (Path.ofString filePath).toOption.any (fun path =>
      inlines (path.inSource 1) inlinedStore.fresh.2 (inlinedStore.view 0)) = true := by
    decide +kernel
  simp only [isPath, Except.toOption, Option.any_some] at shape
  have facts : (inlinedStore.document 0).root = some 0 ∧ inlinedStore.serial = 1 := by
    decide +kernel
  have notKept : (inlinedStore.document 0).cache.isNone = true := by decide +kernel
  generalize inlinedStore = s at *
  obtain ⟨isRoot, serial⟩ := facts
  unfold inlines at shape
  split at shape
  case h_2 => cases shape
  rename_i owner outer isView
  split at shape
  case h_2 => cases shape
  rename_i slot isSlot
  dsimp only at shape
  split at shape
  case h_2 => cases shape
  rename_i reached v left leads
  obtain ⟨rfl, rfl, directory, chain, refused, noEntry⟩ := of_decide_eq_true shape
  obtain ⟨first, begun, started, ran⟩ := run_bind_ok leads
  obtain ⟨key, opened, isKey, entered⟩ := run_bind_ok ran
  unfold refuses at refused
  split at refused
  case h_2 => cases refused
  rename_i tree isTree
  split at refused
  case h_2 => cases refused
  rename_i entries span isMapping
  split at refused
  case h_2 => cases refused
  rename_i slots collected
  have refused := of_decide_eq_true refused
  have named : ((Machine.mk (answerWithin 99998)).evaluate 0 (.leaf other)).run inlinedEnvironment
      left = _ := run_string isString isText
  have located : located? (left.document 0) inlinedEnvironment "x" = some ("/x", ["x"]) := by
    rw [← located_other]
    exact located?_congr _ _ directory
  have found : ((Machine.mk (answerWithin 99999)).evaluate 0
      (.unary .located (.leaf other) start)).run inlinedEnvironment left =
        (.ok (.document left.documents.size),
          withNested inlinedEnvironment left.fresh.2 0 "/x" span slots) :=
    run_included_mapping named located (by rw [chain]; rfl) read_other isTree isMapping collected
  have followed : (follow ⟨answerWithin 99999⟩ 0 (path.inSource s.serial)).run inlinedEnvironment
      s.fresh.2 = (Prod.snd <$> take ⟨answerWithin 99999⟩ (path.inSource 1) v
        (.operand (.document left.documents.size))).run inlinedEnvironment
          (withNested inlinedEnvironment left.fresh.2 0 "/x" span slots) := by
    rw [serial, run_follow isHead isWord (show (s.fresh.2.document 0).root = _ from isRoot)
      (show s.fresh.2.view 0 = _ from isView) (isName ▸ isSlot) started, steps, walk_cons,
      bind_assoc, run_bind, isKey]
    dsimp only
    rw [bind_assoc, run_bind, entered]
    dsimp only
    rw [walk_cons, bind_assoc, run_bind, ready, run_bind, found]
    simp only [run_pure, walk, List.foldlM_nil, bind_pure, map_eq_pure_bind]
  rw [← followed] at refused
  rcases ran : ((follow ⟨answerWithin 99999⟩ 0 (path.inSource s.serial)).run inlinedEnvironment
    s.fresh.2).1 with failure | w
  · rw [ran] at refused
    rw [run_get_failed 99999 rfl (Option.isNone_iff_eq_none.mp notKept) isRoot isView
      (Option.isNone_iff_eq_none.mp noEntry) (by decide +kernel) isPath ran]
    exact refused
  · rw [ran] at refused
    cases refused

/-- A lookup that needs a file fails in the document that includes another file, since the needed
one is not beside it, but goes on to another error in the document that has its text in place. -/
theorem inlining_changes_lookup :
    category? ((Document.get 0 filePath).run inlinedEnvironment includingStore).1 =
        some .inclusion ∧
      category? ((Document.get 0 filePath).run inlinedEnvironment inlinedStore).1 =
        some .notFound :=
  ⟨inclusion_fails, inlining_refuses⟩

end LazyConfig.Inclusion
