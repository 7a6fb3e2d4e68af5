import LazyConfig.Proofs.Resolution.Document

/-!
# Mappings that hold themselves

A reference is pending only while its path is followed. A mapping with an entry that leads back to
the mapping is therefore found without a circle, and looking into it in full goes on forever: every
depth of evaluation is used up, and no circle is ever reported.
-/

namespace LazyConfig.Resolution

open Eval
open Evaluation

/-- A mapping under a key of the root whose first entry refers to this key. -/
structure SelfReferring where
  environment : Environment
  id : DocumentId
  root : ViewId
  key : String
  head : Token
  sigil : Location
  entries : List (Token × Node)
  span : Span
  name : String
  others : List (String × Slot)
  isWord : head.kind = .word
  isKey : head.name = key
  collected : collectEntries environment.settings.noDuplicates [] [] entries =
    .ok ((name, .node (.reference (.leaf head) sigil)) :: others)

namespace SelfReferring

variable (r : SelfReferring)

def contents : List (String × Slot) := (r.name, .node (.reference (.leaf r.head) r.sigil)) :: r.others

def site : Site := ⟨r.span.source, r.span.start⟩

/-- The mapping stands in the document, and its view, if it has been made, still holds its trees. -/
structure StandsIn (s : Store) : Prop where
  present : r.id < s.documents.size
  root : (s.document r.id).root = some r.root
  known : r.root < s.views.size
  entry : ∃ entries, s.view r.root = .mapping r.id entries ∧
    entries.lookup r.key = some (.node (.mapping r.entries r.span))
  shared : ∀ v, (s.document r.id).views.lookup r.site = some v →
    v < s.views.size ∧ s.view v = .mapping r.id r.contents

/-- The same, and a view is the one of the mapping. -/
structure Holds (view : ViewId) (s : Store) : Prop extends r.StandsIn s where
  made : (s.document r.id).views.lookup r.site = some view

variable {r} {s : Store} {view : ViewId}

theorem StandsIn.setDocument {d : Document} (stands : r.StandsIn s)
    (root : d.root = (s.document r.id).root)
    (views : d.views = (s.document r.id).views) : r.StandsIn (s.setDocument r.id d) := by
  have here : (s.setDocument r.id d).document r.id = d := s.document_setDocument d stands.present
  constructor
  · simpa [Store.setDocument] using stands.present
  · rw [here, root, stands.root]
  · exact stands.known
  · exact stands.entry
  · rw [here, views]
    exact stands.shared

/-- A view that has been made is found again. -/
theorem Holds.run_mapping (depth : Nat) (holds : r.Holds view s) :
    (treeValue ⟨answerWithin depth⟩ r.id (.mapping r.entries r.span)).run r.environment s =
      (.ok (.mappingView view), s) := by
  have shared : (mappingView r.id r.entries r.span).run r.environment s = (.ok view, s) := by
    rw [mappingView, sharedView, run_bind, run_document]
    dsimp only
    rw [show (s.document r.id).views.lookup ⟨r.span.source, r.span.start⟩ = some view from holds.made]
    rfl
  unfold treeValue
  dsimp only
  rw [run_bind, shared]
  rfl

/-- Evaluating the mapping leaves a store that holds its view. -/
theorem StandsIn.run_mapping (depth : Nat) (stands : r.StandsIn s) :
    ∃ view left, (treeValue ⟨answerWithin depth⟩ r.id (.mapping r.entries r.span)).run
        r.environment s = (.ok (.mappingView view), left) ∧ r.Holds view left ∧
      (left.document r.id).pending = (s.document r.id).pending := by
  cases made : (s.document r.id).views.lookup r.site with
  | some view =>
    have holds : r.Holds view s := ⟨stands, made⟩
    exact ⟨view, s, holds.run_mapping depth, holds, rfl⟩
  | none =>
    unfold treeValue
    dsimp only
    rw [run_bind, mappingView, run_sharedView_new made, run_bind, run_settings]
    dsimp only
    rw [r.collected]
    refine ⟨s.views.size, _, rfl, ?_⟩
    let new : View := .mapping r.id r.contents
    have added (v : ViewId) (old : v < s.views.size) : (s.addView new).2.view v = s.view v :=
      s.view_addView_of_lt new old
    have here : ((s.addView new).2.setDocument r.id { s.document r.id with
          views := (r.site, s.views.size) :: (s.document r.id).views }).document r.id =
        { s.document r.id with views := (r.site, s.views.size) :: (s.document r.id).views } :=
      Store.document_setDocument _ _ stands.present
    have listed := (congrArg (fun d => d.views.lookup r.site) here).trans List.lookup_cons_self
    have newest : (s.addView new).2.view s.views.size = new := s.view_addView new
    refine ⟨⟨⟨?_, ?_, ?_, ?_, ?_⟩, listed⟩,
      (congrArg Document.pending here).trans rfl⟩
    · simpa [Store.setDocument, Store.addView] using stands.present
    · exact (congrArg Document.root here).trans stands.root
    · exact stands.known.trans (by simp [Store.setDocument, Store.addView])
    · obtain ⟨entries, isView, isEntry⟩ := stands.entry
      exact ⟨entries, (added _ stands.known).trans isView, isEntry⟩
    · intro v isMade
      obtain rfl : s.views.size = v := Option.some.inj (listed.symm.trans isMade)
      exact ⟨by simp [Store.setDocument, Store.addView], newest⟩

/-- Following the key comes to evaluating the mapping. -/
theorem run_follow (depth : Nat) (stands : r.StandsIn s) :
    (follow ⟨answerWithin depth⟩ r.id (.leaf r.head)).run r.environment s =
      (answerWithin depth (.evaluate r.id (.mapping r.entries r.span))).run r.environment s := by
  obtain ⟨entries, isView, isEntry⟩ := stands.entry
  have owner : (s.view r.root).owner = r.id := by rw [isView]; rfl
  have empty : (Node.leaf r.head).steps = [] := rfl
  simp only [follow, Node.head?, r.isWord, ne_eq, not_true_eq_false, if_false, run_bind,
    run_document, stands.root, run_viewOwner, run_entries isView, owner, r.isKey, isEntry, slotValue,
    empty, List.foldlM_nil, run_pure]
  -- what is left is to pass on the value of the mapping
  rcases ran : (Machine.evaluate ⟨answerWithin depth⟩ r.id (.mapping r.entries r.span)).run
      r.environment s with ⟨_ | v, left⟩
  · exact ran.symm
  · exact ran.symm

/-- The reference inside the mapping leads to the view of the mapping, unless the depth is used up
before. -/
theorem run_reference (depth : Nat) (holds : r.Holds view s)
    (idle : (s.document r.id).pending = []) :
    let e := (reference ⟨answerWithin depth⟩ r.id (.leaf r.head) r.sigil).run r.environment s
    e.1 = .error .exhausted ∨
      e.1 = .ok (.mappingView view) ∧ r.Holds view e.2 ∧ (e.2.document r.id).pending = [] := by
  let site : Site := ⟨r.head.span.source, r.sigil⟩
  let pushed : Store := s.setDocument r.id { s.document r.id with
    pending := ⟨site, .leaf r.head⟩ :: (s.document r.id).pending }
  have here : pushed.document r.id = _ := s.document_setDocument _ holds.present
  have stands : r.StandsIn pushed := holds.setDocument rfl rfl
  have ran : (reference ⟨answerWithin depth⟩ r.id (.leaf r.head) r.sigil).run r.environment s =
      let followed := (follow ⟨answerWithin depth⟩ r.id (.leaf r.head)).run r.environment pushed
      (followed.1, followed.2.setDocument r.id { followed.2.document r.id with
        pending := (followed.2.document r.id).pending.filter (·.site ≠ site) }) := by
    rw [reference_eq, run_bind, run_document]
    simp only [idle, List.any_nil]
    exact run_resolve _ _ _ _ _
  have held : r.Holds view pushed := ⟨stands, (congrArg (·.views.lookup r.site) here).trans holds.made⟩
  rw [ran, run_follow depth stands]
  cases depth with
  | zero => exact .inl rfl
  | succ depth =>
    right
    have evaluated : (answerWithin (depth + 1) (.evaluate r.id (.mapping r.entries r.span))).run
        r.environment pushed = (.ok (.mappingView view), pushed) := held.run_mapping depth
    rw [evaluated]
    dsimp only
    have popped : ((pushed.setDocument r.id { pushed.document r.id with
        pending := (pushed.document r.id).pending.filter (·.site ≠ site) }).document r.id) = _ :=
      pushed.document_setDocument _ stands.present
    refine ⟨rfl, ⟨held.setDocument rfl rfl, ?_⟩, ?_⟩
    · exact (congrArg (·.views.lookup r.site) popped).trans held.made
    · refine (congrArg Document.pending popped).trans ?_
      simp [here, idle]

/-- The same for the entry that holds the reference, which is looked at while the entries are gone
through. -/
theorem run_entry (depth : Nat) (holds : r.Holds view s) (idle : (s.document r.id).pending = []) :
    let e := (iterating (slotValue ⟨answerWithin depth⟩ r.id
      (.node (.reference (.leaf r.head) r.sigil)))).run r.environment s
    e.1 = .error .exhausted ∨
      e.1 = .ok (.mappingView view) ∧ r.Holds view e.2 ∧ (e.2.document r.id).pending = [] := by
  dsimp only
  rw [run_iterating]
  cases depth with
  | zero => exact .inl rfl
  | succ depth =>
    have outcome := run_reference depth holds idle
    rw [show (slotValue ⟨answerWithin (depth + 1)⟩ r.id
        (.node (.reference (.leaf r.head) r.sigil))) =
      reference ⟨answerWithin depth⟩ r.id (.leaf r.head) r.sigil from rfl]
    rcases ran : (reference ⟨answerWithin depth⟩ r.id (.leaf r.head) r.sigil).run
      r.environment s with ⟨result, left⟩
    rw [ran] at outcome
    dsimp only at outcome
    rcases outcome with rfl | ⟨rfl, held, kept⟩
    · exact .inl rfl
    · exact .inr ⟨rfl, held, kept⟩

/-- Looking into the view in full uses up every depth. -/
theorem run_materialize (depth : Nat) (holds : r.Holds view s)
    (idle : (s.document r.id).pending = []) :
    ((answerWithin depth (.materialize (.mappingView view))).run r.environment s).1 =
      .error .exhausted := by
  induction depth generalizing s with
  | zero => rfl
  | succ depth ih =>
    have isView : s.view view = .mapping r.id r.contents := (holds.shared view holds.made).2
    have owner : (s.view view).owner = r.id := by rw [isView]; rfl
    change ((asDict ⟨answerWithin depth⟩ view).run r.environment s).1 = _
    rw [asDict, run_bind, run_viewOwner, owner]
    dsimp only
    rw [run_bind, run_entries isView]
    dsimp only
    rw [contents, List.mapM_cons, run_bind, run_bind, run_bind]
    -- the first entry uses up the depth: either the reference does, or the view it leads to
    have outcome := run_entry depth holds idle
    rcases ran : (iterating (slotValue ⟨answerWithin depth⟩ r.id
      (.node (.reference (.leaf r.head) r.sigil)))).run r.environment s with ⟨result, left⟩
    rw [ran] at outcome
    rcases outcome with same | ⟨same, held, kept⟩
    · dsimp only at same
      subst same
      rfl
    · dsimp only at same held kept
      subst same
      dsimp only
      rw [run_bind]
      have deeper := ih held kept
      rcases ran : (answerWithin depth (.materialize (.mappingView view))).run r.environment left with
        ⟨result, behind⟩
      rw [ran] at deeper
      dsimp only at deeper
      subst deeper
      rw [Machine.materialize, ran]

/-- What is found under the key is the view, unless the depth is used up before. -/
theorem run_found (depth : Nat) (stands : r.StandsIn s) (idle : (s.document r.id).pending = []) :
    let e := (found ⟨answerWithin depth⟩ r.id r.root r.key none).run r.environment s
    e.1 = .error .exhausted ∨
      ∃ view, e.1 = .ok (.mappingView view, true) ∧ r.Holds view e.2 ∧
        (e.2.document r.id).pending = [] := by
  obtain ⟨entries, isView, isEntry⟩ := stands.entry
  have owner : (s.view r.root).owner = r.id := by rw [isView]; rfl
  dsimp only
  rw [found, run_bind, entryValue?, run_bind, run_entries isView]
  dsimp only
  rw [isEntry]
  dsimp only
  rw [run_bind, run_viewOwner, owner]
  dsimp only
  rw [run_bind]
  cases depth with
  | zero => exact .inl rfl
  | succ depth =>
    obtain ⟨view, left, evaluated, held, kept⟩ := stands.run_mapping depth
    rw [show slotValue ⟨answerWithin (depth + 1)⟩ r.id (.node (.mapping r.entries r.span)) =
      treeValue ⟨answerWithin depth⟩ r.id (.mapping r.entries r.span) from rfl, evaluated]
    exact .inr ⟨view, rfl, held, kept.trans idle⟩

/-- The value under the key is never given, however deep evaluations may stand in one another, and
no circle is reported. -/
theorem StandsIn.get_endless (stands : r.StandsIn s) (idle : (s.document r.id).pending = [])
    (notKept : (s.document r.id).cache.bind (·.lookup r.key) = none) :
    ((Document.get r.id r.key).run r.environment s).1 = .error .exhausted := by
  have started : (Document.get r.id r.key).run r.environment s =
      (answerWithin r.environment.depth (.lookup r.id r.key none)).run r.environment s := by
    rw [Document.get, machine, run_bind, run_bind, run_read]
    rfl
  rw [started]
  cases r.environment.depth with
  | zero => rfl
  | succ depth =>
    change ((lookupValue ⟨answerWithin depth⟩ r.id r.key none).run r.environment s).1 = _
    rw [lookupValue, run_bind, run_document]
    dsimp only
    rw [notKept]
    dsimp only
    rw [run_bind, run_document]
    dsimp only
    rw [stands.root]
    dsimp only
    rw [run_bind]
    have outcome := run_found depth stands idle
    rcases ran : (found ⟨answerWithin depth⟩ r.id r.root r.key none).run r.environment s with
      ⟨result, left⟩
    rw [ran] at outcome
    rcases outcome with same | ⟨view, same, held, kept⟩
    · dsimp only at same
      subst same
      rfl
    · dsimp only at same held kept
      subst same
      have deeper : ((asDict ⟨answerWithin depth⟩ view).run r.environment left).1 = _ :=
        run_materialize (depth + 1) held kept
      dsimp only
      rcases looked : (asDict ⟨answerWithin depth⟩ view).run r.environment left with
        ⟨result, behind⟩
      rw [looked] at deeper
      dsimp only at deeper
      subst deeper
      simp only [Bool.not_true, Bool.false_eq_true, if_false, unwrap, run_bind, looked]

end SelfReferring

/-! ### Documents of a mapping that holds itself -/

/-- The key of a mapping of one entry, which is a mapping whose one entry refers to this key. -/
def selfKey? : Node → Option String
  | .mapping [(key, .mapping [(_, .reference (.leaf head) _)] _)] _ =>
    if head.kind = .word ∧ head.name = key.name then some key.name else none
  | _ => none

theorem shape_of_selfKey? {tree : Node} {key : String} (isSelf : selfKey? tree = some key) :
    ∃ outer name head sigil inner span, tree =
        .mapping [(outer, .mapping [(name, .reference (.leaf head) sigil)] inner)] span ∧
      head.kind = .word ∧ head.name = key ∧ outer.name = key := by
  unfold selfKey? at isSelf
  split at isSelf
  · split_ifs at isSelf with known
    obtain rfl := Option.some.inj isSelf
    exact ⟨_, _, _, _, _, _, rfl, known.1, known.2, rfl⟩
  · cases isSelf

theorem collectEntries_single (unique : Bool) (key : Token) (node : Node) :
    collectEntries unique [] [] [(key, node)] = .ok [(key.name, .node node)] := by
  cases unique <;> rfl

/-- A text that is such a mapping can be loaded, but the value under its key is never given, at
whatever depth, and the circle is never reported. -/
theorem self_reference_endless {text : Text.Decoded} {tree : Node} {key : String}
    (read : tree? text = .ok tree) (isSelf : selfKey? tree = some key) {environment : Environment}
    {caching : Bool} {name : Option String} {id : DocumentId} {s : Store}
    (load : (opened caching text name).run environment {} = (.ok id, s)) (depth : Nat) :
    ((Document.get id key).run { environment with depth } s).1 = .error .exhausted := by
  obtain ⟨rfl, entries, span, found, d, shape, collected, pending, root, views, empty, rfl⟩ :=
    run_opened read load
  obtain ⟨outer, inner, head, sigil, place, whole, rfl, isWord, isKey, isOuter⟩ :=
    shape_of_selfKey? isSelf
  cases shape
  obtain rfl := Except.ok.inj ((collectEntries_single ..).symm.trans collected)
  -- the inner mapping starts behind the outer one, so that it does not share its view
  have apart : whole.start < place.start := by
    have sited := sited_tree? read
    simp only [Node.Sited, Node.starts, Node.sites, Node.entriesSites, List.map_cons,
      List.pairwise_cons] at sited
    exact sited.1 place.start (by simp)
  let r : SelfReferring :=
    { environment := { environment with depth }
      id := 0
      root := 0
      key := key
      head := head.inSource 0
      sigil := sigil
      entries := [(inner.inSource 0, .reference (.leaf (head.inSource 0)) sigil)]
      span := { place with source := 0 }
      name := (inner.inSource 0).name
      others := []
      isWord := isWord
      isKey := isKey
      collected := collectEntries_single _ _ _ }
  have stands : r.StandsIn ⟨#[d], #[.mapping 0 [((outer.inSource 0).name,
      .node (.mapping r.entries r.span))]], 1⟩ := by
    constructor
    · exact Nat.one_pos
    · exact root
    · exact Nat.one_pos
    · refine ⟨_, rfl, ?_⟩
      rw [show (outer.inSource 0).name = key from isOuter, List.lookup_cons_self]
    · intro v made
      change d.views.lookup r.site = some v at made
      rw [views, List.lookup_cons] at made
      split at made
      · rename_i same
        have equal : r.site.location = whole.start := congrArg Site.location (by simpa using same)
        exact absurd equal apart.ne'
      · cases made
  exact stands.get_endless pending (empty key)

def selfText : Text.Decoded := ⟨"a: \x7bb: ${a}\x7d".toList, none⟩

def selfStore : Store := ((opened false selfText none).run emptyWorld {}).2

/-- A mapping that holds a reference to itself is loaded, but looking it up is never finished, and no
circle is reported. -/
theorem self_reference_unreported :
    (opened false selfText none).run emptyWorld {} = (.ok 0, selfStore) ∧ ∀ depth,
      ((Document.get 0 "a").run { emptyWorld with depth } selfStore).1 = .error .exhausted := by
  obtain ⟨tree, read, isSelf⟩ := exists_of_any (tree? selfText)
    (fun tree => selfKey? tree = some "a") (by decide +kernel)
  obtain ⟨id, load, isFirst⟩ := exists_of_any
    ((opened false selfText none).run emptyWorld {}).1 (· == 0) (by decide +kernel)
  obtain rfl : id = 0 := by simpa using isFirst
  have loaded : (opened false selfText none).run emptyWorld {} = (.ok 0, selfStore) := by
    rw [← load, selfStore]
  exact ⟨loaded, self_reference_endless read (of_decide_eq_true isSelf) loaded⟩

end LazyConfig.Resolution
