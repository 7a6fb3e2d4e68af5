import LazyConfig.Proofs.Document.Load
import LazyConfig.Proofs.Document.Pending
import LazyConfig.Proofs.Relocation.Operation

/-!
# Loading again

A document that has been loaded before and is loaded again is like a new one. Of what it was, only
its number is left: the store that a load leaves holds all that a store with nothing but the new
document holds, at other numbers, and none of these is the number of an old view or of another old
document. From there on every operation on the one gives the relocated answer of the other.
-/

namespace LazyConfig

open Eval
open Evaluation
open Resolution (tree? opened rooted run_parsed run_sharedView_new)

variable {environment : Environment} {s left : Store} {id : DocumentId}

/-! ### Documents without a file -/

/-- Documents without a file have no directory, and there is nothing on their chains. -/
def Store.Unplaced (s : Store) : Prop :=
  ∀ id, (s.document id).path = none →
    (s.document id).directory = none ∧ (s.document id).includeChain = []

namespace Store.Unplaced

theorem setDocument {d : Document} (all : s.Unplaced)
    (unplaced : d.path = none → d.directory = none ∧ d.includeChain = []) :
    (s.setDocument id d).Unplaced := by
  intro other
  rcases s.document_setDocument_or d id other with ⟨same, -, -⟩ | same <;> rw [same]
  · exact unplaced
  · exact all other

theorem addDocument {d : Document} (all : s.Unplaced)
    (unplaced : d.path = none → d.directory = none ∧ d.includeChain = []) :
    (s.addDocument d).2.Unplaced := by
  intro other
  rcases s.document_addDocument_or d other with ⟨same, -⟩ | same <;> rw [same]
  · exact unplaced
  · exact all other

end Store.Unplaced

theorem Evolves.unplaced {files : FileTree} (evolves : Evolves files s left)
    (all : s.Unplaced) : left.Unplaced := by
  induction evolves with
  | refl => exact all
  | trans _ _ first second => exact second (first all)
  | counted | view => exact all
  | filled _ _ _ _ _ ih => exact ih all
  | data s id => exact all.setDocument (all id)
  | included => exact all.addDocument fun noFile => by cases noFile
  | resolving id p new inner ih =>
    have inside := ih (all.setDocument (all id))
    exact inside.setDocument (inside id)
  | converting id text new inner ih =>
    have inside := ih (all.setDocument (all id))
    exact inside.setDocument (inside id)

theorem Operation.unplaced_step (operation : Operation) (environment : Environment) (s : Store)
    (all : s.Unplaced) : (operation.step environment s).Unplaced := by
  cases operation.operates environment s with
  | evolves evolves => exact evolves.unplaced all
  | creates caching isCreate same =>
    rw [same]
    exact all.addDocument fun _ => ⟨rfl, rfl⟩
  | loads id isLoad loads =>
    cases loads with
    | inPlace evolves => exact evolves.unplaced all
    | placed isFile first second =>
      exact second.unplaced ((first.unplaced all).setDocument fun noFile => by cases noFile)

theorem Store.unplaced_after (history : List (Environment × Operation)) :
    (({} : Store).after history).Unplaced :=
  Store.after_related (r := fun s left => s.Unplaced → left.Unplaced) (fun _ all => all)
    (fun first second all => second (first all)) Operation.unplaced_step history {}
    fun _ _ => ⟨rfl, rfl⟩

/-! ### What a load leaves -/

/-- The document at the named file, if there is one. -/
def Document.placedAt (d : Document) (files : FileTree) (outer : List String)
    (name : Option String) : Document :=
  match name.filter files.isFile with
  | none => d
  | some file => d.atFile files outer file

/-- The document with a root that has just been made. -/
def Document.rootedAt (d : Document) (site : Site) (view : ViewId) : Document :=
  { d with root := some view, cache := d.cache.map fun _ => [], views := [(site, view)] }

/-- The store with the document and the view of its root. -/
def Store.rooted (s : Store) (id : DocumentId) (d : Document) (site : Site)
    (found : List (String × Slot)) : Store :=
  (s.addView (.mapping id found)).2.setDocument id (d.rootedAt site s.views.size)

/-- The store with a change of a document. -/
def Store.modify (s : Store) (id : DocumentId) (change : Document → Document) : Store :=
  s.setDocument id (change (s.document id))

theorem Store.modify_modify (present : id < s.documents.size)
    (first second : Document → Document) :
    (s.modify id first).modify id second = s.modify id (second ∘ first) := by
  simp only [modify, s.document_setDocument _ present, setDocument_setDocument, Function.comp]

/-- What a load does once the document has its place. -/
theorem Document.run_rooted (environment : Environment) (present : id < s.documents.size)
    (entries : List (Token × Node)) (span : Span) :
    (rooted id entries span).run environment s =
      match collectEntries environment.settings.noDuplicates [] [] entries with
      | .ok found => (.ok (), s.rooted id (s.document id) ⟨span.source, span.start⟩ found)
      | .error e => (.error (.error e), s.setDocument id { s.document id with views := [] }) := by
  rw [rooted, run_bind, run_modifyDocument]
  dsimp only
  rw [run_bind, mappingView, run_sharedView_new (lookup_views_of_dropped _), run_bind, run_settings]
  dsimp only
  cases collectEntries environment.settings.noDuplicates [] [] entries with
  | error e => rfl
  | ok found =>
    let drop (d : Document) : Document := { d with views := [] }
    let share (d : Document) : Document :=
      { d with views := (⟨span.source, span.start⟩, s.views.size) :: d.views }
    let root (d : Document) : Document :=
      { d with root := some s.views.size, cache := d.cache.map fun _ => [] }
    let added := (s.addView (.mapping id found)).2
    have inside : id < added.documents.size := present
    have steps : ((added.modify id drop).modify id share).modify id root =
        s.rooted id (s.document id) ⟨span.source, span.start⟩ found := by
      rw [Store.modify_modify inside, Store.modify_modify inside]
      rfl
    exact congrArg (Prod.mk (Except.ok ())) steps

theorem Document.run_load_mapping (environment : Environment) (name : Option String)
    {text : Text.Decoded} {tree : Node} {entries : List (Token × Node)} {span : Span}
    (present : id < s.documents.size)
    (read : tree? text = .ok tree) (shape : tree.inSource s.serial = .mapping entries span) :
    ∃ behind, (load id text name).run environment s =
      match collectEntries environment.settings.noDuplicates [] [] entries with
      | .ok found => (.ok (), s.fresh.2.rooted id
          ((s.document id).placedAt environment.world.files (s.outerChain id) name)
          ⟨span.source, span.start⟩ found)
      | .error e => (.error (.error e), behind) := by
  rw [load, run_bind, run_parsed, read]
  dsimp only
  rw [shape, run_bind, run_world, placedAt]
  dsimp only
  cases name.filter environment.world.files.isFile with
  | none => exact ⟨_, run_rooted (s := s.fresh.2) environment present entries span⟩
  | some file =>
    let placed := (s.document id).atFile environment.world.files (s.outerChain id) file
    have there : id < (s.fresh.2.setDocument id placed).documents.size := by
      simpa [Store.setDocument, Store.fresh] using present
    have same : (s.fresh.2.setDocument id placed).document id = placed :=
      s.fresh.2.document_setDocument placed present
    have ran := run_rooted environment there entries span
    rw [same] at ran
    dsimp only
    rw [run_bind, run_placeAt]
    refine ⟨(s.fresh.2.setDocument id placed).setDocument id { placed with views := [] },
      ran.trans ?_⟩
    cases collectEntries environment.settings.noDuplicates [] [] entries with
    | error e => rfl
    | ok found =>
      refine congrArg (Prod.mk (Except.ok ())) ?_
      exact Store.setDocument_setDocument (s.fresh.2.addView (.mapping id found)).2 id placed _

/-- What a load leaves, if it succeeds. -/
theorem Document.run_load_ok {text : Text.Decoded} {name : Option String}
    (present : id < s.documents.size) :
    (load id text name).run environment s = (.ok (), left) ↔
      ∃ tree entries span found, tree? text = .ok tree ∧
        tree.inSource s.serial = .mapping entries span ∧
        collectEntries environment.settings.noDuplicates [] [] entries = .ok found ∧
        left = s.fresh.2.rooted id
          ((s.document id).placedAt environment.world.files (s.outerChain id) name)
          ⟨span.source, span.start⟩ found := by
  constructor
  · intro loaded
    cases read : tree? text with
    | error e =>
      rw [load, run_bind, run_parsed, read] at loaded
      cases loaded
    | ok tree =>
      cases shape : tree.inSource s.serial with
      | mapping entries span =>
        obtain ⟨behind, ran⟩ := run_load_mapping environment name present read shape
        rw [ran] at loaded
        cases collected : collectEntries environment.settings.noDuplicates [] [] entries with
        | error e =>
          rw [collected] at loaded
          cases loaded
        | ok found =>
          rw [collected] at loaded
          exact ⟨tree, entries, span, found, rfl, shape, collected, (Prod.mk.inj loaded).2.symm⟩
      | _ =>
        rw [load, run_bind, run_parsed, read] at loaded
        dsimp only at loaded
        rw [shape] at loaded
        cases loaded
  · rintro ⟨tree, entries, span, found, read, shape, collected, rfl⟩
    obtain ⟨behind, ran⟩ := run_load_mapping environment name present read shape
    rw [ran, collected]

/-! ### The new document -/

/-- A document that has been loaded anew differs from another one at most in the number of its root
and in whether it keeps values. -/
theorem Document.rootedAt_placedAt {d : Document} {files : FileTree} {name : Option String}
    {site : Site} {view : ViewId} (outermost : d.parent = none) (pending : d.pending = [])
    (converting : d.converting = [])
    (named : (name.filter files.isFile).isSome ∨
      d.path = none ∧ d.directory = none ∧ d.includeChain = []) :
    (d.placedAt files [] name).rootedAt site view =
      { ({} : Document).placedAt files [] name with
        root := some view, cache := d.cache.map fun _ => [], views := [(site, view)] } := by
  obtain ⟨parent, path, directory, chain, root, cache, views, references, texts⟩ := d
  dsimp only at outermost pending converting named
  subst outermost pending converting
  unfold placedAt
  cases isFile : name.filter files.isFile with
  | some file => rfl
  | none =>
    rw [isFile] at named
    obtain ⟨rfl, rfl, rfl⟩ : path = none ∧ directory = none ∧ chain = [] := by simpa using named
    rfl

/-- The numbers in a store of what a store holds that has nothing but the new document. -/
def Relocation.ofNew (s : Store) (id : DocumentId) (present : id < s.documents.size) :
    Relocation where
  document
    | 0 => id
    | n + 1 => s.documents.size + n
  view n := s.views.size + n
  document_injective := by
    rintro (_ | n) (_ | m) same
    · rfl
    · exact absurd same (Nat.ne_of_lt (Nat.lt_add_right m present))
    · exact absurd same.symm (Nat.ne_of_lt (Nat.lt_add_right n present))
    · exact congrArg (· + 1) (Nat.add_left_cancel same)
  view_injective _ _ same := Nat.add_left_cancel same

/-- A store with a root that has just been made holds all that a store holds that has nothing but
this root. -/
theorem relocated_rooted (present : id < s.documents.size) {d new : Document} {site : Site}
    {found : List (String × Slot)} {entries : List (Token × Node)} {unique : Bool}
    (collected : collectEntries unique [] [] entries = .ok found)
    (same : d.rootedAt site s.views.size =
      (new.rootedAt site 0).relocate (.ofNew s id present))
    (outermost : new.parent = none) :
    Relocated (.ofNew s id present)
      (Store.rooted ⟨#[new], #[], s.serial⟩ 0 new site found) (s.rooted id d site found) := by
  let t : Store := Store.rooted ⟨#[new], #[], s.serial⟩ 0 new site found
  have isDocument : t.document 0 = new.rootedAt site 0 := rfl
  have isView : t.view 0 = .mapping 0 found := rfl
  have scope : t.scope = ⟨1, 1⟩ := rfl
  obtain ⟨trees, within⟩ :=
    @relocate_collected (.ofNew s id present) t.scope unique entries found collected
  constructor
  case serial => rfl
  case documents =>
    intro other first
    obtain rfl : other = 0 := Nat.lt_one_iff.mp first
    refine ⟨?_, ?_⟩
    · simpa [Store.rooted, Store.setDocument, Store.addView, Relocation.ofNew] using present
    · exact ((s.addView (.mapping id found)).2.document_setDocument _ present).trans same
  case views =>
    intro other first
    obtain rfl : other = 0 := Nat.lt_one_iff.mp first
    refine ⟨by simp [Store.rooted, Store.setDocument, Store.addView, Relocation.ofNew], ?_⟩
    refine (s.view_addView (.mapping id found)).trans ?_
    exact congrArg (View.mapping id) trees.symm
  case nextDocument =>
    intro n
    simp [Store.rooted, Store.setDocument, Store.addView, Relocation.ofNew, Nat.add_comm 1 n]
  case nextView =>
    intro n
    change s.views.size + (1 + n) = (s.views.push (.mapping id found)).size + n
    rw [Array.size_push]
    exact (Nat.add_assoc _ _ _).symm
  case documentsWithin =>
    intro other first
    obtain rfl : other = 0 := Nat.lt_one_iff.mp first
    rw [isDocument]
    exact
      { parent := fun _ isParent => by cases outermost.symm.trans isParent
        root := fun _ isRoot => Option.some.inj isRoot ▸ Nat.one_pos
        cache := fun entries kept => by
          obtain ⟨-, -, rfl⟩ := Option.map_eq_some_iff.mp kept
          exact fun _ among => by cases among
        views := fun entry among => by
          obtain rfl := List.mem_singleton.mp among
          exact ⟨trivial, Nat.one_pos⟩ }
  case viewsWithin =>
    intro other first
    obtain rfl : other = 0 := Nat.lt_one_iff.mp first
    rw [isView]
    exact ⟨Nat.one_pos, within⟩
  case older =>
    intro other first parent isParent
    obtain rfl : other = 0 := Nat.lt_one_iff.mp first
    cases outermost.symm.trans isParent

/-- Whatever has been done with a document before, once it is loaded again it is like a new one that
is loaded from the same text. The new document may be alone in its store, so that there is nothing
else it could depend on. What is done with it gives the same answers, with other numbers for the
documents and views in them: the document itself has the number that it had before, and no other
number that comes up is that of an old document or of an old view. -/
theorem reload_as_new {history : List (Environment × Operation)} {s reloaded : Store}
    {id : DocumentId} {text : Text.Decoded} {name : Option String}
    (before : ({} : Store).after history = s) (present : id < s.documents.size)
    (outermost : (s.document id).parent = none)
    (named : (name.filter environment.world.files.isFile).isSome ∨ (s.document id).path = none)
    (loaded : (Document.load id text name).run environment s = (.ok (), reloaded)) :
    ∃ (new : Store) (r : Relocation),
      (opened (s.document id).cache.isSome text name).run environment { serial := s.serial } =
        (.ok 0, new) ∧
      r.document 0 = id ∧ (∀ n, r.document (n + 1) = s.documents.size + n) ∧
      (∀ n, r.view n = s.views.size + n) ∧
      ∀ session, new.Accepts session →
        reloaded.answers (r.session session) =
          (new.answers session).map (Except.map (Answer.relocate r)) := by
  subst before
  set s := ({} : Store).after history
  obtain ⟨pending, converting⟩ := Store.unmarked_after history id
  have unplaced := Store.unplaced_after history id
  have named : (name.filter environment.world.files.isFile).isSome ∨
      (s.document id).path = none ∧ (s.document id).directory = none ∧
        (s.document id).includeChain = [] :=
    named.imp_right fun noFile => ⟨noFile, unplaced noFile⟩
  obtain ⟨tree, entries, span, found, read, shape, collected, rfl⟩ :=
    (Document.run_load_ok present).mp loaded
  have outer : s.outerChain id = [] := by
    unfold Store.outerChain
    rw [outermost]
  let site : Site := ⟨span.source, span.start⟩
  let blank : Document := { cache := if (s.document id).cache.isSome then some [] else none }
  let new : Document := blank.placedAt environment.world.files [] name
  -- the same steps make the root of the new document
  have opens : (opened (s.document id).cache.isSome text name).run environment
      { serial := s.serial } =
        (.ok 0, Store.rooted ⟨#[new], #[], s.serial + 1⟩ 0 new site found) := by
    have created : (Document.create (s.document id).cache.isSome).run environment
        { serial := s.serial } = (.ok 0, ⟨#[blank], #[], s.serial⟩) := rfl
    have loads : (Document.load 0 text name).run environment ⟨#[blank], #[], s.serial⟩ =
        (.ok (), Store.rooted ⟨#[blank], #[], s.serial + 1⟩ 0 new site found) :=
      (Document.run_load_ok (Nat.one_pos : 0 < 1)).mpr
        ⟨tree, entries, span, found, read, shape, collected, rfl⟩
    rw [opened, run_bind, created]
    dsimp only
    rw [run_bind, loads]
    rfl
  have same : ((s.document id).placedAt environment.world.files [] name).rootedAt site
      s.views.size = (new.rootedAt site 0).relocate (.ofNew s id present) := by
    rw [Document.rootedAt_placedAt outermost pending converting named,
      Document.rootedAt_placedAt (d := blank) rfl rfl rfl (.inr ⟨rfl, rfl, rfl⟩)]
    unfold Document.placedAt
    cases name.filter environment.world.files.isFile <;> cases isCache : (s.document id).cache <;>
      simp [blank, isCache, Document.relocate, Relocation.ofNew, Cargo.list, Cargo.pair, Cargo.plain,
        Cargo.view, Document.atFile]
  have new_outermost : new.parent = none := by
    simp only [new, blank, Document.placedAt]
    cases name.filter environment.world.files.isFile <;> rfl
  refine ⟨_, .ofNew s id present, opens, rfl, fun _ => rfl, fun _ => rfl, fun session accepted => ?_⟩
  rw [outer]
  exact (relocated_rooted (s := s.fresh.2) present collected same new_outermost).answers accepted

/-- A document that keeps what is looked up, with a list that has been evaluated in full and a
lookup that has failed. -/
def usedHistory : List (Environment × Operation) :=
  [.create true, .load 0 ⟨"a: [1, ${b}]\nb: 2".toList, none⟩ none, .get 0 "a" none,
    .follow 0 "a[7]"].map fun operation => (Resolution.emptyWorld, operation)

def usedStore : Store := ({} : Store).after usedHistory

/-- The next text of the document. -/
def nextText : Text.Decoded := ⟨"a: [3, ${c}]\nc: 4".toList, none⟩

theorem isOutside_emptyWorld : Resolution.emptyWorld.IsOutside where
  context _ among := by cases among
  converter _ isTable := by cases isTable
  resolver _ isTable := by cases isTable
  modules _ among := by cases among
  builtins _ among := by cases among

theorem reload_as_new_used :
    (usedStore.document 0).cache.map (·.map Prod.fst) = some ["a"] ∧
      ∃ (new reloaded : Store) (r : Relocation),
        (opened true nextText none).run Resolution.emptyWorld { serial := usedStore.serial } =
          (.ok 0, new) ∧
        (Document.load 0 nextText none).run Resolution.emptyWorld usedStore = (.ok (), reloaded) ∧
        r.document 0 = 0 ∧ r.view 0 = 2 ∧
        reloaded.answers [(Resolution.emptyWorld, .get 0 "a" none)] =
          (new.answers [(Resolution.emptyWorld, .get 0 "a" none)]).map
            (Except.map (Answer.relocate r)) := by
  obtain ⟨done, isDone, -⟩ := Resolution.exists_of_any
    ((Document.load 0 nextText none).run Resolution.emptyWorld usedStore).1 (fun _ => true)
    (by decide +kernel)
  obtain ⟨reloaded, loaded⟩ : ∃ reloaded,
      (Document.load 0 nextText none).run Resolution.emptyWorld usedStore = (.ok (), reloaded) :=
    ⟨_, by rw [← isDone]⟩
  have views : usedStore.views.size = 2 := by decide +kernel
  have caching : (usedStore.document 0).cache.isSome = true := by decide +kernel
  have before : ({} : Store).after usedHistory = usedStore := rfl
  obtain ⟨new, r, opens, first, -, second, sessions⟩ := reload_as_new before
    (by decide +kernel : 0 < usedStore.documents.size)
    (by decide +kernel : (usedStore.document 0).parent = none)
    (.inr (by decide +kernel : (usedStore.document 0).path = none)) loaded
  rw [caching] at opens
  have present : 0 < new.documents.size := by
    have size : ((opened true nextText none).run Resolution.emptyWorld
        { serial := usedStore.serial }).2.documents.size = 1 := by decide +kernel
    rw [opens] at size
    exact size ▸ Nat.one_pos
  have same := sessions [(Resolution.emptyWorld, .get 0 "a" none)]
    ⟨isOutside_emptyWorld, ⟨present, fun _ isSome => by cases isSome⟩, trivial⟩
  refine ⟨by decide +kernel, new, reloaded, r, opens, loaded, first, by rw [second 0, views], ?_⟩
  rw [← same, show r.session [(Resolution.emptyWorld, .get 0 "a" none)] =
    [(Resolution.emptyWorld, .get (r.document 0) "a" none)] from rfl, first]

end LazyConfig
