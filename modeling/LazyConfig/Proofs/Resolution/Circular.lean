import LazyConfig.Evaluation.Machine
import LazyConfig.Proofs.Resolution.Follow

/-!
# Circular references

While a reference is followed it is pending, and a pending reference that is met again is circular.
The number of references bounds how many can be pending, so that following a plain path always ends.
A circle is found exactly where the path could be followed forever.
-/

/-- The tree of a pending reference. -/
def LazyConfig.Pending.node (p : Pending) : Node := .reference p.path p.site.location

namespace LazyConfig.Resolution

open Eval
open Evaluation
open Trace (Ends)

variable {d : PlainDocument} {limits : Limits} {views : List Meaning} {s : Store}

/-! ### Trees that ask for nothing -/

theorem denotes_ofLiteral (span : Span) (literal : Token.Literal) :
    Denotes views (.ofLiteral span literal) (.scalar (.ofLiteral span literal)) := by
  cases literal <;> rfl

theorem ends_container {n : Node} {result : Trace Meaning} (isContainer : d.container n = result)
    (noReference : ∀ path sigil, n ≠ .reference path sigil) : Ends (d.meaning · n) result := by
  refine (Ends.const result).succ rfl fun depth => ?_
  rw [← isContainer]
  cases n <;> first | rfl | exact absurd rfl (noReference _ _)

/-- The view of a container of the text. -/
theorem tracks_sharedView {n : Node} {span : Span} {make : Eval View}
    (value : ViewId → Value) (part : d.Part n) (isSite : n.site? = some ⟨span.source, span.start⟩)
    (noReference : ∀ path sigil, n ≠ .reference path sigil)
    (denotes : ∀ views v m, views[v]? = some m → d.container n = .done m →
      Denotes views (value v) m)
    (steady : Consistent d limits.kept views s)
    (makes : (∃ view m, make.run d.environment s = (.ok view, s) ∧ d.container n = .done m ∧
        ViewFits d views view m) ∨
      ∃ f, make.run d.environment s = (.error f, s) ∧ f.IsFinal ∧ d.container n = .failed) :
    Tracks d limits views s (do return value (← sharedView d.id span make))
      (do return value (← sharedView d.id span make)) Denotes (d.meaning · n) := by
  unfold sharedView
  simp only [bind_assoc]
  refine tracks_read (run_document d.id) ?_
  cases found : (s.document d.id).views.lookup ⟨span.source, span.start⟩ with
  | some v =>
    obtain ⟨m, isMeaning, means⟩ := steady.known _ v found n part isSite noReference
    exact tracks_pure steady (denotes views v m isMeaning means) (ends_container means noReference)
  | none =>
    rcases makes with ⟨view, m, made, means, fit⟩ | ⟨f, made, final, means⟩
    · simp only [bind_assoc, pure_bind]
      refine tracks_read made ?_
      have isMeaning : (views ++ [m])[s.views.size]? = some m := by simp [← steady.size]
      refine ⟨⟨views ++ [m], List.prefix_append _ _, ?_, ?_⟩, fun _ => rfl⟩
      · simp only [run_bind, run_addView, modifyDocument, run_modify, run_pure]
        exact (steady.addView fit).share isMeaning part isSite means
      · simp only [run_bind, run_addView, modifyDocument, run_modify, run_pure]
        exact ⟨m, denotes _ _ m isMeaning means, ends_container means noReference⟩
    · refine tracks_of_failed steady ?_ final (ends_container means noReference)
      simp only [run_bind, made]

/-- Literals and containers are evaluated without asking. -/
theorem tracks_treeValue {m m' : Machine} {n : Node} (known : d.Part n ∨ n.isLiteral)
    (noReference : ∀ path sigil, n ≠ .reference path sigil)
    (steady : Consistent d limits.kept views s) :
    Tracks d limits views s (treeValue m d.id n) (treeValue m' d.id n) Denotes (d.meaning · n) := by
  have plain : n.isPlain := by
    rcases known with part | literal
    · exact part.plain
    · obtain ⟨token, rfl, isLiteral⟩ := Node.isLiteral_iff.mp literal
      exact isLiteral
  have container (other : n.isLiteral = false) : d.Part n :=
    known.resolve_right (by simp [other])
  cases n with
  | leaf token =>
    have value (m : Machine) :
        tokenValue m d.id token = pure (.ofLiteral token.span token.value) := by
      unfold tokenValue
      simp only [Node.isPlain, Token.isLiteral] at plain
      cases kind : token.kind <;> simp [kind] at plain <;> rfl
    rw [treeValue, treeValue, value, value]
    exact tracks_pure steady (denotes_ofLiteral _ _) ends_literal
  | list elements span =>
    have part := container rfl
    refine tracks_sharedView .listView part rfl noReference ?_ steady (.inl ?_)
    · rintro views v m found ⟨⟩
      exact ⟨found, rfl⟩
    · refine ⟨_, .list elements, run_pure .., rfl, elements.map .node, rfl, ?_⟩
      rw [List.forall₂_map_left_iff, List.forall₂_map_right_iff, List.forall₂_same]
      exact fun n among => ⟨rfl, PlainDocument.part_element part among⟩
  | mapping entries span =>
    have part := container rfl
    refine tracks_sharedView .mappingView part rfl noReference ?_ steady ?_
    · intro views v m found means
      simp only [PlainDocument.container, Meaning.ofNode] at means
      split at means
      · cases means
        exact ⟨_, rfl, found⟩
      · cases means
    · simp only [PlainDocument.container, Meaning.ofNode]
      cases collected : collectEntries d.environment.settings.noDuplicates [] [] entries with
      | ok found =>
        refine .inl ⟨.mapping d.id found, .mapping found, ?_, rfl, rfl, ?_⟩
        · simp only [Eval.settings, run_bind, run_read, run_pure, collected]
        · exact PlainDocument.entries_collectEntries part collected
      | error e =>
        refine .inr ⟨.error e, ?_, Failure.isFinal_error ?_, rfl⟩
        · simp only [Eval.settings, run_bind, run_read, run_pure, collected]
          rfl
        · rw [category_of_collectEntries collected]
          decide
  | reference path sigil => exact absurd rfl (noReference path sigil)
  | _ => cases plain

/-! ### Pending references -/

/-- The places where references stand. -/
def PlainDocument.references (d : PlainDocument) : List Site :=
  d.tree.sites.filterMap fun (location, n) =>
    match n with
    | .reference _ _ => some ⟨d.source, location⟩
    | _ => none

/-- References that can be pending: parts of the document, each of them once. -/
structure Waiting (d : PlainDocument) (pending : List Pending) : Prop where
  distinct : (pending.map (·.site)).Nodup
  parts : ∀ p ∈ pending, d.Part p.node ∧ p.node.site? = some p.site

namespace Waiting

variable {pending : List Pending}

theorem mem_references (waiting : Waiting d pending) {p : Pending} (among : p ∈ pending) :
    p.site ∈ d.references := by
  obtain ⟨part, isSite⟩ := waiting.parts p among
  have inTree : (p.site.location, p.node) ∈ d.tree.sites :=
    part.sites (by simp [Pending.node, Node.sites])
  have located := d.located _ _ inTree
  refine List.mem_filterMap.mpr ⟨_, inTree, ?_⟩
  rw [isSite] at located
  simpa [Pending.node] using located.symm

theorem length_le (waiting : Waiting d pending) : pending.length ≤ d.references.length := by
  rw [← List.length_map (f := (·.site))]
  refine (waiting.distinct.subperm fun site among => ?_).length_le
  obtain ⟨p, inPending, rfl⟩ := List.mem_map.mp among
  exact waiting.mem_references inPending

end Waiting

/-- What holds while the given references are pending and so much depth is left. -/
def waitingLimits (d : PlainDocument) (pending : List Pending) (depth : Nat) : Limits where
  kept now := now = pending
  short := depth + pending.length ≤ d.references.length
  checked := True
  held depth := ∃ p ∈ pending, ∃ shallow ≤ depth, d.meaning shallow p.node ≠ .unfinished

/-- What is pending can be shown. -/
theorem run_pendingText {p : Pending} (part : d.Part p.node) :
    ∃ text, (pendingText p).run d.environment s = (.ok text, s) := by
  obtain ⟨text, written⟩ := Node.sourceText_of_isPlainPath (show p.path.isPlainPath from part.plain)
  refine ⟨text ++ " " ++ p.path.start.text, ?_⟩
  simp only [pendingText, sourceText, written, run_bind, run_pure]

theorem run_mapM_pendingText {pending : List Pending} (parts : ∀ p ∈ pending, d.Part p.node) :
    ∃ texts, (pending.mapM pendingText).run d.environment s = (.ok texts, s) := by
  induction pending with
  | nil => exact ⟨[], rfl⟩
  | cons p pending ih =>
    obtain ⟨text, first⟩ := run_pendingText (s := s) (parts p (by simp))
    obtain ⟨texts, rest⟩ := ih fun q among => parts q (by simp [among])
    refine ⟨text :: texts, ?_⟩
    simp only [List.mapM_cons, run_bind, first, rest, run_pure]

/-- The same answers without the check for circles. -/
def uncheckedWithin : Nat → Request → Eval Value
  | 0, _ => throw .exhausted
  | depth + 1, .evaluate id (.reference path sigil) => resolve ⟨uncheckedWithin depth⟩ id path sigil
  | depth + 1, request => answer ⟨uncheckedWithin depth⟩ request

theorem evaluate_uncheckedWithin {depth : Nat} {id : DocumentId} {n : Node}
    (noReference : ∀ path sigil, n ≠ .reference path sigil) :
    (Machine.mk (uncheckedWithin (depth + 1))).evaluate id n =
      treeValue ⟨uncheckedWithin depth⟩ id n := by
  cases n <;> first | rfl | exact absurd rfl (noReference _ _)

/-- Resolving a reference tracks what it means, if what is pending meanwhile is accounted for. -/
theorem tracks_resolve {outer inner : Limits} {m m' : Machine} (asks : Asks d inner m m')
    {path : Node} {sigil : Location} (plain : path.isPlainPath) (steady : Consistent d outer.kept views s)
    (push : ∀ pending, outer.kept pending → inner.kept (⟨⟨path.source, sigil⟩, path⟩ :: pending))
    (pop : ∀ pending, inner.kept pending →
      outer.kept (pending.filter (·.site ≠ ⟨path.source, sigil⟩)))
    (short : inner.short → outer.short) (checked : inner.checked → outer.checked)
    (held : (∀ depth, d.meaning (depth + 1) (.reference path sigil) ≠ .unfinished →
        inner.held depth) →
      ∀ depth, d.meaning depth (.reference path sigil) ≠ .unfinished → outer.held depth) :
    Tracks d outer views s (resolve m d.id path sigil) (resolve m' d.id path sigil) Denotes
      (d.meaning · (.reference path sigil)) := by
  have begun := steady.setPending (push _ steady.pending)
  obtain ⟨⟨more, longer, ended, agrees⟩, mirrors⟩ := tracks_follow asks plain begun
  refine ⟨⟨more, longer, ?_, ?_⟩, ?_⟩
  · rw [run_resolve]
    exact ended.setPending (pop _ ended.pending)
  · rw [run_resolve]
    dsimp only
    have deeper {result : Trace Meaning}
        (ends : Ends (fun depth => Meaning.along (d.meaning depth) d.entries path) result) :
        Ends (d.meaning · (.reference path sigil)) result :=
      ends.succ rfl fun _ => rfl
    generalize ((follow m d.id path).run d.environment _).1 = result at agrees
    cases result with
    | ok v =>
      obtain ⟨meant, denotes, ends⟩ := agrees
      exact ⟨meant, denotes, deeper ends⟩
    | error f =>
      rcases agrees with ⟨exhausted, isShort⟩ | ⟨circular, isChecked, isHeld⟩ | ⟨final, ends⟩
      · exact .inl ⟨exhausted, short isShort⟩
      · exact .inr (.inl ⟨circular, checked isChecked, held isHeld⟩)
      · exact .inr (.inr ⟨final, deeper ends⟩)
  · rw [run_resolve, run_resolve]
    intro final
    dsimp only
    rw [mirrors final]

/-- An evaluation that breaks off need not be mirrored. -/
theorem tracks_of_broken {e other : Eval Value} {f : Failure} {course : Nat → Trace Meaning}
    (ran : e.run d.environment s = (.error f, s)) (notFinal : ¬f.IsFinal)
    (agrees : Agrees limits views Denotes course (.error f))
    (steady : Consistent d limits.kept views s) :
    Tracks d limits views s e other Denotes course := by
  refine ⟨⟨views, List.prefix_rfl, ?_, ?_⟩, fun final => absurd (final f (by rw [ran])) notFinal⟩
  · rw [ran]
    exact steady
  · rw [ran]
    exact agrees

/-- A circle through references that are pending is one through those around them. -/
private theorem held_of_push {pending : List Pending} {p : Pending}
    (held : ∀ depth, d.meaning (depth + 1) p.node ≠ .unfinished →
      ∃ q ∈ p :: pending, ∃ shallow ≤ depth, d.meaning shallow q.node ≠ .unfinished)
    (depth : Nat) (finished : d.meaning depth p.node ≠ .unfinished) :
    ∃ q ∈ pending, ∃ shallow ≤ depth, d.meaning shallow q.node ≠ .unfinished := by
  induction depth using Nat.strong_induction_on with
  | _ depth ih =>
    cases depth with
    | zero => exact absurd rfl finished
    | succ depth =>
      obtain ⟨q, among, shallow, below, further⟩ := held depth finished
      rcases List.mem_cons.mp among with rfl | among
      · obtain ⟨q, among, further, less, finished⟩ := ih shallow (by omega) further
        exact ⟨q, among, further, by omega, finished⟩
      · exact ⟨q, among, shallow, by omega, further⟩

/-- What the machine answers inside a plain document, while references are pending. -/
theorem asks_answerWithin (depth : Nat) {pending : List Pending} (waiting : Waiting d pending) :
    Asks d (waitingLimits d pending depth) ⟨answerWithin depth⟩ ⟨uncheckedWithin depth⟩ := by
  induction depth generalizing pending with
  | zero =>
    intro views s n steady _
    exact tracks_of_broken rfl (fun final => final.1 rfl)
      (.inl ⟨rfl, by simpa [waitingLimits] using waiting.length_le⟩) steady
  | succ depth ih =>
    intro views s n steady known
    by_cases isReference : ∃ path sigil, n = .reference path sigil
    case neg =>
      have noReference path sigil (same : n = .reference path sigil) :=
        isReference ⟨path, sigil, same⟩
      rw [evaluate_uncheckedWithin noReference]
      exact tracks_treeValue known noReference steady
    obtain ⟨path, sigil, rfl⟩ := isReference
    have part : d.Part (.reference path sigil) := known.resolve_right (by simp [Node.isLiteral])
    have now : (s.document d.id).pending = pending := steady.pending
    change Tracks d _ views s (reference ⟨answerWithin depth⟩ d.id path sigil)
      (resolve ⟨uncheckedWithin depth⟩ d.id path sigil) _ _
    rw [reference_eq]
    by_cases inside : pending.any (·.site = ⟨path.source, sigil⟩)
    case pos =>
      obtain ⟨p, among, here⟩ := List.any_eq_true.mp inside
      have same : p.node = .reference path sigil := by
        obtain ⟨other, isSite⟩ := waiting.parts p among
        have isHere : p.site = ⟨path.source, sigil⟩ := of_decide_eq_true here
        exact PlainDocument.eq_of_site other part isSite (by rw [isHere]; rfl)
      obtain ⟨texts, shown⟩ := run_mapM_pendingText (s := s) fun p among => (waiting.parts p among).1
      let e : Error := ⟨.circular (sortTexts texts), path.start⟩
      have circular : (Failure.error e).IsCircular := ⟨e, rfl, rfl⟩
      refine tracks_of_broken (f := .error e) ?_ (fun final => final.2 circular)
        (.inr (.inl ⟨circular, trivial, fun depth finished => ?_⟩)) steady
      · simp only [run_bind, run_document, now, inside, if_true, shown, run_fail, e]
      · exact ⟨p, among, depth, le_rfl, same ▸ finished⟩
    case neg =>
      have fresh : ∀ p ∈ pending, p.site ≠ ⟨path.source, sigil⟩ := by
        simpa using inside
      let p : Pending := ⟨⟨path.source, sigil⟩, path⟩
      have pushed : Waiting d (p :: pending) :=
        { distinct := List.nodup_cons.mpr ⟨by simpa [p] using fresh, waiting.distinct⟩
          parts := List.forall_mem_cons.mpr ⟨⟨part, rfl⟩, waiting.parts⟩ }
      refine (tracks_resolve (ih pushed) part.plain steady ?_ ?_ ?_ id ?_).of_run_eq ?_
      · rintro _ rfl
        rfl
      · rintro _ rfl
        exact (List.filter_cons_of_neg (by simp [p])).trans
          (List.filter_eq_self.mpr (by simpa using fresh))
      · intro short
        simp only [waitingLimits, List.length_cons] at short ⊢
        omega
      · exact fun held => held_of_push (p := p) held
      · simp only [run_bind, run_document, now, inside]
        rfl

/-- What is open to the machine that does not look for circles. -/
def uncheckedLimits : Limits where
  kept _ := True
  short := True
  checked := False
  held _ := False

theorem asks_uncheckedWithin (depth : Nat) :
    Asks d uncheckedLimits ⟨uncheckedWithin depth⟩ ⟨uncheckedWithin depth⟩ := by
  induction depth with
  | zero =>
    intro views s n steady _
    exact tracks_of_broken rfl (fun final => final.1 rfl) (.inl ⟨rfl, trivial⟩) steady
  | succ depth ih =>
    intro views s n steady known
    by_cases isReference : ∃ path sigil, n = .reference path sigil
    case neg =>
      have noReference path sigil (same : n = .reference path sigil) :=
        isReference ⟨path, sigil, same⟩
      rw [evaluate_uncheckedWithin noReference]
      exact tracks_treeValue known noReference steady
    obtain ⟨path, sigil, rfl⟩ := isReference
    have part : d.Part (.reference path sigil) := known.resolve_right (by simp [Node.isLiteral])
    refine tracks_resolve ih part.plain steady (fun _ _ => trivial) (fun _ _ => trivial)
      (fun _ => trivial) id fun held depth finished => ?_
    cases depth with
    | zero => exact absurd rfl finished
    | succ depth => exact held depth finished

/-! ### Following a path -/

/-- A circle has been found. -/
def Circular {α : Type} (result : Except Failure α) : Prop :=
  ∃ e, result = .error (.error e) ∧ e.category = .circular

instance {α : Type} (result : Except Failure α) : Decidable (Circular result) :=
  match result with
  | .ok _ => isFalse fun ⟨_, same, _⟩ => by cases same
  | .error .exhausted => isFalse fun ⟨_, same, _⟩ => by cases same
  | .error (.host _) => isFalse fun ⟨_, same, _⟩ => by cases same
  | .error (.error e) =>
    if circular : e.category = .circular then isTrue ⟨e, rfl, circular⟩
    else isFalse fun ⟨_, same, other⟩ => by cases same; exact circular other

theorem waiting_nil : Waiting d [] := ⟨List.nodup_nil, by simp⟩

theorem Consistent.unchecked {kept : List Pending → Prop} (steady : Consistent d kept views s) :
    Consistent d (fun _ => True) views s :=
  { steady with pending := trivial }

/-- The path that has been followed leaves a consistent store. -/
theorem consistent_follow {path : Node} (plain : path.isPlainPath) (depth : Nat)
    (steady : Consistent d (· = []) views s) :
    ∃ more, Consistent d (· = []) more ((follow ⟨answerWithin depth⟩ d.id path).run d.environment s).2 := by
  obtain ⟨more, -, steady, -⟩ :=
    (tracks_follow (asks_answerWithin depth waiting_nil) plain steady).agrees
  exact ⟨more, steady⟩

theorem follow_ends {path : Node} {depth : Nat} (plain : path.isPlainPath)
    (steady : Consistent d (· = []) views s) (deep : d.references.length < depth) :
    ((follow ⟨answerWithin depth⟩ d.id path).run d.environment s).1 ≠ .error .exhausted := by
  obtain ⟨more, -, -, agrees⟩ :=
    (tracks_follow (asks_answerWithin depth waiting_nil) plain steady).agrees
  intro exhausted
  rw [exhausted] at agrees
  rcases agrees with ⟨-, short⟩ | ⟨⟨e, same, -⟩, -⟩ | ⟨final, -⟩
  · simp only [waitingLimits, List.length_nil] at short
    omega
  · cases same
  · exact final.1 rfl

/-- Where no circle is found, the check makes no difference. -/
theorem follow_unchecked {path : Node} {depth : Nat} (plain : path.isPlainPath)
    (steady : Consistent d (· = []) views s) (deep : d.references.length < depth)
    (noCircle : ¬Circular ((follow ⟨answerWithin depth⟩ d.id path).run d.environment s).1) :
    (follow ⟨uncheckedWithin depth⟩ d.id path).run d.environment s =
      (follow ⟨answerWithin depth⟩ d.id path).run d.environment s := by
  refine (tracks_follow (asks_answerWithin depth waiting_nil) plain steady).mirrors
    fun f failed => ⟨?_, ?_⟩
  · rintro rfl
    exact follow_ends plain steady deep failed
  · rintro ⟨e, rfl, circular⟩
    exact noCircle ⟨e, failed, circular⟩

/-- A circle is found if and only if the path could be followed forever. -/
theorem circular_follow_iff {path : Node} {depth : Nat} (plain : path.isPlainPath)
    (steady : Consistent d (· = []) views s) (deep : d.references.length < depth) :
    Circular ((follow ⟨answerWithin depth⟩ d.id path).run d.environment s).1 ↔
      ∀ deeper, ((follow ⟨uncheckedWithin deeper⟩ d.id path).run d.environment s).1 =
        .error .exhausted := by
  constructor
  · rintro ⟨e, failed, circular⟩ deeper
    obtain ⟨more, -, -, agrees⟩ :=
      (tracks_follow (asks_answerWithin depth waiting_nil) plain steady).agrees
    rw [failed] at agrees
    have endless : ∀ depth, Meaning.along (d.meaning depth) d.entries path = .unfinished := by
      rcases agrees with ⟨same, -⟩ | ⟨-, -, held⟩ | ⟨final, -⟩
      · cases same
      · intro depth
        by_contra finished
        obtain ⟨p, among, -⟩ := held depth finished
        simp at among
      · exact absurd ⟨e, rfl, circular⟩ final.2
    have never {result : Trace Meaning} (finished : result ≠ .unfinished)
        (ends : Ends (fun depth => Meaning.along (d.meaning depth) d.entries path) result) :
        False := by
      obtain ⟨depth, same⟩ := ends.reached
      exact finished (same.symm.trans (endless depth))
    obtain ⟨most, -, -, agrees⟩ :=
      (tracks_follow (asks_uncheckedWithin deeper) plain steady.unchecked).agrees
    cases result : ((follow ⟨uncheckedWithin deeper⟩ d.id path).run d.environment s).1 with
    | ok v =>
      rw [result] at agrees
      obtain ⟨m, -, ends⟩ := agrees
      exact (never (by simp) ends).elim
    | error f =>
      rw [result] at agrees
      rcases agrees with ⟨rfl, -⟩ | ⟨-, unchecked, -⟩ | ⟨-, ends⟩
      · rfl
      · exact unchecked.elim
      · exact (never (by simp) ends).elim
  · intro endless
    by_contra noCircle
    refine follow_ends plain steady deep ?_
    rw [← follow_unchecked plain steady deep noCircle]
    exact endless depth

end LazyConfig.Resolution
