import LazyConfig.Document.Access
import LazyConfig.Proofs.Resolution.Circular

/-!
# Looking up paths in plain documents

A document that has been loaded from a plain text, and whatever plain paths have been looked up in
it since. Every further lookup ends, and a circular reference is reported if and only if the lookup
would go on forever without the check for circles; otherwise the check makes no difference.
-/

namespace LazyConfig.Resolution

open Eval
open Evaluation
open Trace (Ends)

/-- The tree of the text of a document. -/
def tree? (text : Text.Decoded) : Except Syntax.Error Node :=
  match Token.Stream.ofText text with
  | .error e => .error (.token e)
  | .ok stream => (Document.rootTree.run stream).1

theorem run_parsed (environment : Environment) (s : Store) (text : Text.Decoded) :
    (parsed Document.rootTree text).run environment s =
      match tree? text with
      | .ok tree => (.ok (tree.inSource s.serial), s.fresh.2)
      | .error e => (.error (.ofSyntax e), s.fresh.2) := by
  unfold parsed tree?
  rw [run_bind, run_fresh]
  dsimp only
  cases Token.Stream.ofText text with
  | error e => rfl
  | ok stream =>
    dsimp only
    cases (Document.rootTree.run stream).1 <;> rfl

theorem sited_tree? {text : Text.Decoded} {tree : Node} (read : tree? text = .ok tree) :
    tree.Sited := by
  unfold tree? at read
  cases made : Token.Stream.ofText text with
  | error e => simp [made] at read
  | ok stream =>
    simp only [made] at read
    rcases ran : Document.rootTree.run stream with ⟨result, left⟩
    rw [ran] at read
    obtain rfl : result = .ok tree := read
    exact Syntax.yields_rootTree made tree left ran

/-- Creates a document and loads it. -/
def opened (caching : Bool) (text : Text.Decoded) (name : Option String) : Eval DocumentId := do
  let id ← Document.create caching
  Document.load id text name
  return id

/-- The steps of loading that make the root of a document. -/
def rooted (id : DocumentId) (entries : List (Token × Node)) (span : Span) : Eval Unit := do
  modifyDocument id fun d => { d with views := [] }
  let view ← mappingView id entries span
  modifyDocument id fun d => { d with root := some view, cache := d.cache.map fun _ => [] }

/-- The view of a container that is asked for the first time. -/
theorem run_sharedView_new {environment : Environment} {s : Store} {id : DocumentId} {span : Span}
    {make : Eval View}
    (absent : (s.document id).views.lookup ⟨span.source, span.start⟩ = none) :
    (sharedView id span make).run environment s =
      match make.run environment s with
      | (.ok view, s) =>
        let left := (s.addView view).2
        (.ok s.views.size, left.setDocument id { left.document id with
          views := (⟨span.source, span.start⟩, s.views.size) :: (left.document id).views })
      | (.error failure, s) => (.error failure, s) := by
  simp only [sharedView, run_bind, run_document, absent]
  rcases make.run environment s with ⟨_ | view, left⟩ <;> rfl

/-- The root of a document that is alone in its store. -/
theorem run_rooted {environment : Environment} {d : Document} {serial : Nat} {left : Store}
    {entries : List (Token × Node)} {span : Span}
    (ran : (rooted 0 entries span).run environment ⟨#[d], #[], serial⟩ = (.ok (), left)) :
    ∃ found, collectEntries environment.settings.noDuplicates [] [] entries = .ok found ∧
      left = ⟨#[{ d with
          root := some 0
          cache := d.cache.map fun _ => []
          views := [(⟨span.source, span.start⟩, 0)] }], #[.mapping 0 found], serial⟩ := by
  rw [rooted, run_bind, run_modifyDocument] at ran
  dsimp only at ran
  rw [run_bind, mappingView, run_sharedView_new rfl, run_bind, run_settings] at ran
  dsimp only at ran
  cases collected : collectEntries environment.settings.noDuplicates [] [] entries with
  | error e =>
    rw [collected] at ran
    cases ran
  | ok found =>
    rw [collected] at ran
    exact ⟨found, rfl, (Prod.mk.inj ran).2.symm⟩

/-- Loading a document that is alone in its store makes its root, after it may have been placed. -/
theorem run_load (environment : Environment) {text : Text.Decoded} (name : Option String)
    {tree : Node} (blank : Document) {entries : List (Token × Node)} {span : Span}
    (read : tree? text = .ok tree) (shape : tree.inSource 0 = .mapping entries span) :
    ∃ d, d.pending = blank.pending ∧
      (Document.load 0 text name).run environment ⟨#[blank], #[], 0⟩ =
        (rooted 0 entries span).run environment ⟨#[d], #[], 1⟩ := by
  rw [Document.load, run_bind, run_parsed, read]
  dsimp only
  rw [shape, run_bind, run_world]
  dsimp only
  cases name.filter environment.world.files.isFile with
  | none => exact ⟨blank, rfl, rfl⟩
  | some file =>
    let outer := Store.outerChain ⟨#[blank], #[], 1⟩ 0
    refine ⟨blank.atFile environment.world.files outer file, rfl, ?_⟩
    dsimp only
    rw [run_bind, show (Store.fresh ⟨#[blank], #[], 0⟩).2 = ⟨#[blank], #[], 1⟩ from rfl,
      Document.run_placeAt]
    rfl

theorem shape_of_run_load {environment : Environment} {text : Text.Decoded} {name : Option String}
    {tree : Node} {s left : Store} (read : tree? text = .ok tree) (fresh : s.serial = 0)
    (ran : (Document.load 0 text name).run environment s = (.ok (), left)) :
    ∃ entries span, tree.inSource 0 = .mapping entries span := by
  rw [Document.load, run_bind, run_parsed, read, fresh] at ran
  dsimp only at ran
  cases shape : tree.inSource 0 with
  | mapping entries span => exact ⟨entries, span, rfl⟩
  | _ =>
    rw [shape] at ran
    cases ran

/-- A loaded document is alone in its store, with the view of its root. -/
theorem run_opened {environment : Environment} {caching : Bool} {text : Text.Decoded}
    {name : Option String} {id : DocumentId} {s : Store} {tree : Node}
    (read : tree? text = .ok tree)
    (ran : (opened caching text name).run environment {} = (.ok id, s)) :
    id = 0 ∧ ∃ entries span found d, tree.inSource 0 = .mapping entries span ∧
      collectEntries environment.settings.noDuplicates [] [] entries = .ok found ∧
      d.pending = [] ∧ d.root = some 0 ∧ d.views = [(⟨span.source, span.start⟩, 0)] ∧
      (∀ key, d.cache.bind (·.lookup key) = none) ∧ s = ⟨#[d], #[.mapping 0 found], 1⟩ := by
  let blank : Document := { cache := if caching then some [] else none }
  have created : (Document.create caching).run environment {} = (.ok 0, ⟨#[blank], #[], 0⟩) := rfl
  rw [opened, run_bind, created] at ran
  dsimp only at ran
  rw [run_bind] at ran
  rcases loaded : (Document.load 0 text name).run environment ⟨#[blank], #[], 0⟩ with ⟨_ | _, left⟩
  · rw [loaded] at ran
    cases ran
  · rw [loaded] at ran
    cases ran
    obtain ⟨entries, span, shape⟩ := shape_of_run_load read rfl loaded
    obtain ⟨d, pending, same⟩ := run_load environment name blank read shape
    obtain ⟨found, collected, rfl⟩ := run_rooted (same.symm.trans loaded)
    let rooted : Document :=
      { d with
        root := some 0
        cache := d.cache.map fun _ => []
        views := [(⟨span.source, span.start⟩, 0)] }
    have empty (key : String) : rooted.cache.bind (·.lookup key) = none := by
      cases isKept : d.cache <;> simp [rooted, isKept]
    exact ⟨rfl, entries, span, found, rooted, shape, collected, pending, rfl, rfl, empty, rfl⟩

/-- Loading a plain text leaves a store that is consistent with its tree. -/
theorem consistent_opened {environment : Environment} {caching : Bool} {text : Text.Decoded}
    {name : Option String} {id : DocumentId} {s : Store} {tree : Node}
    (read : tree? text = .ok tree) (plain : tree.isPlain)
    (ran : (opened caching text name).run environment {} = (.ok id, s)) :
    ∃ d : PlainDocument, d.environment = environment ∧ d.id = id ∧
      d.references.length ≤ tree.sites.length ∧ ∃ views, Consistent d (· = []) views s := by
  obtain ⟨rfl, entries, span, found, document, shape, collected, pending, root, views, -, rfl⟩ :=
    run_opened read ran
  have isPlain : (tree.inSource 0).isPlain := by rwa [Node.isPlain_inSource]
  let bare : PlainDocument :=
    { environment, id := 0, source := 0, tree := tree.inSource 0, entries := []
      sited := (sited_tree? read).inSource 0
      located := fun _ _ => Node.site?_of_mem
      nodes := by simp }
  have whole : bare.Part (.mapping entries span) := shape ▸ ⟨isPlain, List.Subset.refl _⟩
  let d : PlainDocument :=
    { bare with
      entries := found
      nodes := fun entry among => by
        obtain ⟨n, same, part⟩ := PlainDocument.entries_collectEntries whole collected entry among
        exact ⟨n, same, part.plain, part.sites⟩ }
  have part : d.Part (.mapping entries span) := ⟨whole.plain, whole.sites⟩
  refine ⟨d, rfl, rfl, ?_, [.mapping found], ?_⟩
  · refine (List.length_filterMap_le _ _).trans ?_
    rw [Node.sites_inSource, List.length_map]
  have nodes : d.Entries found := fun entry among => by
    obtain ⟨n, same, isPart⟩ := PlainDocument.entries_collectEntries whole collected entry among
    exact ⟨n, same, ⟨isPart.plain, isPart.sites⟩⟩
  exact
    { present := Nat.one_pos
      pending := pending
      size := rfl
      fits := fun v m isMeaning => by
        cases v with
        | zero =>
          cases isMeaning
          exact ⟨rfl, nodes⟩
        | succ v => cases isMeaning
      root := ⟨0, root, rfl⟩
      known := fun site v isView n other isSite _ => by
        change document.views.lookup site = some v at isView
        rw [views, List.lookup_cons] at isView
        split at isView
        case h_1 same =>
          cases isView
          obtain rfl : site = ⟨span.source, span.start⟩ := by simpa using same
          obtain rfl := PlainDocument.eq_of_site other part isSite rfl
          have means : d.container (.mapping entries span) = .done (.mapping found) := by
            change Meaning.ofNode environment.settings.noDuplicates _ (.mapping entries span) = _
            rw [Meaning.ofNode, collected]
            rfl
          exact ⟨_, rfl, means⟩
        case h_2 => cases isView }

/-! ### Looking up paths -/

/-- The lookup of a path without the check for circles. -/
def followUnchecked (depth : Nat) (id : DocumentId) (path : String) : Eval Value :=
  followText ⟨uncheckedWithin depth⟩ id path

/-- A text that is a path of names, literal indices and literal slices. -/
def IsPlainPath (path : String) : Prop :=
  ∃ node, Path.ofString path = .ok node ∧ node.isPlainPath

/-- What plain paths that are looked up one after the other make of a store. -/
inductive LookedUp (environment : Environment) (id : DocumentId) : Store → Store → Prop where
  | none (s : Store) : LookedUp environment id s s
  | next {s middle : Store} {path : String} (before : LookedUp environment id s middle)
      (plain : IsPlainPath path) :
      LookedUp environment id s ((Document.follow id path).run environment middle).2

theorem run_followText {m : Machine} {environment : Environment} {s : Store} {id : DocumentId}
    {path : String} {node : Node} (read : Path.ofString path = .ok node) :
    (followText m id path).run environment s =
      (follow m id (node.inSource s.serial)).run environment s.fresh.2 := by
  rw [followText, run_bind, run_fresh]
  simp only [read]

theorem run_documentFollow {environment : Environment} {s : Store} {id : DocumentId}
    {path : String} :
    (Document.follow id path).run environment s =
      (followText ⟨answerWithin environment.depth⟩ id path).run environment s := by
  rw [Document.follow, machine, run_bind, run_bind, run_read]
  rfl

theorem run_documentGet {environment : Environment} {s : Store} {id : DocumentId} {key : String}
    (default? : Option Value) :
    (Document.get id key default?).run environment s =
      (answerWithin environment.depth (.lookup id key default?)).run environment s := by
  rw [Document.get, machine, run_bind, run_bind, run_read]
  rfl

/-- Looking up plain paths keeps the store consistent. -/
theorem LookedUp.consistent {d : PlainDocument} {s left : Store} {views : List Meaning}
    (history : LookedUp d.environment d.id s left) (steady : Consistent d (· = []) views s) :
    ∃ more, Consistent d (· = []) more left := by
  induction history with
  | none => exact ⟨views, steady⟩
  | next _ plain ih =>
    obtain ⟨more, steady⟩ := ih
    obtain ⟨node, read, plain⟩ := plain
    rw [run_documentFollow, run_followText read]
    exact consistent_follow (by rwa [Node.isPlainPath_inSource]) _ steady.fresh

/-- Cycle detection is exact in a document that has been loaded from a plain text, whatever plain
paths have been looked up in it before: if evaluations may stand as deep in one another as the text
has containers and references, looking up a path ends; a circle is reported if and only if the
lookup would never end without the check for circles, however deep it went; and if none is
reported, result and store are the same without the check. -/
theorem circular_iff_endless {text : Text.Decoded} {tree : Node} (read : tree? text = .ok tree)
    (plain : tree.isPlain) {environment : Environment} (deep : tree.sites.length < environment.depth)
    {caching : Bool} {name : Option String} {id : DocumentId} {loaded : Store}
    (load : (opened caching text name).run environment {} = (.ok id, loaded)) {s : Store}
    (history : LookedUp environment id loaded s) {path : String} (plainPath : IsPlainPath path) :
    let found := (Document.follow id path).run environment s
    found.1 ≠ .error .exhausted ∧
      (Circular found.1 ↔
        ∀ depth, ((followUnchecked depth id path).run environment s).1 = .error .exhausted) ∧
      (¬Circular found.1 →
        (followUnchecked environment.depth id path).run environment s = found) := by
  obtain ⟨d, rfl, rfl, few, views, steady⟩ := consistent_opened read plain load
  obtain ⟨more, steady⟩ := history.consistent steady
  obtain ⟨node, pathRead, plainPath⟩ := plainPath
  have enough : d.references.length < d.environment.depth := few.trans_lt deep
  have isPlain : (node.inSource s.serial).isPlainPath := by rwa [Node.isPlainPath_inSource]
  simp only [run_documentFollow, followUnchecked, run_followText pathRead]
  exact ⟨follow_ends isPlain steady.fresh enough, circular_follow_iff isPlain steady.fresh enough,
    follow_unchecked isPlain steady.fresh enough⟩

/-- Nothing but documents. -/
def emptyWorld : Environment := { world := { files := ⟨[], []⟩ }, settings := {} }

/-- A list with an element that leads back to it through another key. -/
def circleText : Text.Decoded := ⟨"a: [1, ${b}]\nb: ${a[1]}".toList, none⟩

def circleStore : Store := ((opened false circleText none).run emptyWorld {}).2

theorem exists_of_any {ε α : Type} (result : Except ε α) (holds : α → Bool)
    (some : (result.toOption.any holds) = true) : ∃ a, result = .ok a ∧ holds a = true := by
  cases result with
  | error => simp [Except.toOption] at some
  | ok a => exact ⟨a, rfl, by simpa [Except.toOption] using some⟩

theorem circular_iff_endless_circle :
    Circular ((Document.follow 0 "b").run emptyWorld circleStore).1 ∧
      ∀ depth, ((followUnchecked depth 0 "b").run emptyWorld circleStore).1 = .error .exhausted := by
  have circular : Circular ((Document.follow 0 "b").run emptyWorld circleStore).1 := by
    decide +kernel
  obtain ⟨tree, read, plain⟩ := exists_of_any (tree? circleText)
    (fun tree => tree.isPlain && tree.sites.length < emptyWorld.depth) (by decide +kernel)
  obtain ⟨isPlain, deep⟩ := Bool.and_eq_true_iff.mp plain
  obtain ⟨id, load, isFirst⟩ := exists_of_any
    ((opened false circleText none).run emptyWorld {}).1 (· == 0) (by decide +kernel)
  obtain rfl : id = 0 := by simpa using isFirst
  have path : IsPlainPath "b" :=
    exists_of_any (Path.ofString "b") Node.isPlainPath (by decide +kernel)
  have loaded : (opened false circleText none).run emptyWorld {} = (.ok 0, circleStore) := by
    rw [← load, circleStore]
  obtain ⟨-, exact, -⟩ := circular_iff_endless read isPlain (of_decide_eq_true deep) loaded
    (.none circleStore) path
  exact ⟨circular, exact.mp circular⟩

end LazyConfig.Resolution
