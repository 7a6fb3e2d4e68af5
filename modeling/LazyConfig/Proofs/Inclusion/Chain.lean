import LazyConfig.Proofs.Document.Reload
import LazyConfig.Proofs.Inclusion.Scope
import Mathlib.Logic.Relation

/-!
# The chain of an included document

The chain of a document tells the files on the way from the outermost document to it. The document of
an included file is given the chain that the including one has at this moment, with the place of its
own file behind it, and a file whose place is on the chain already is not included. Since the
including document is the older one and only outermost documents are ever put at another file, the
chain stays what it was made, no file is on it twice, and documents stand no deeper in one another
than there are files.
-/

namespace LazyConfig

open Eval
open Evaluation
open Inclusion (located? included_eq includedFile)

variable {files : FileTree} {s middle left : Store} {id : DocumentId}

/-! ### Files -/

/-- The places of the files in a tree. -/
def FileTree.filePlaces (t : FileTree) : List Place :=
  (t.entries.map Prod.fst).dedup.filter fun place =>
    (t.entry? place).any fun entry => entry matches .file _

theorem FileTree.mem_filePlaces {t : FileTree} {name : String} {place : Place}
    (isFile : t.isFile name) (leads : t.resolve? name = some place) : place ∈ t.filePlaces := by
  unfold FileTree.isFile at isFile
  rw [leads, Option.bind_some] at isFile
  obtain ⟨entry, isEntry, -⟩ := Option.any_eq_true _ _ |>.mp isFile
  obtain ⟨before, behind, same, -⟩ := List.lookup_eq_some_iff.mp isEntry
  have listed : place ∈ t.entries.map Prod.fst := by
    rw [same]
    simp
  exact List.mem_filter.mpr ⟨List.mem_dedup.mpr listed, isFile⟩

/-! ### What evaluations change about chains -/

/-- Documents that stand at the same place and have the same chain. -/
structure SamePlace (d e : Document) : Prop where
  parent : e.parent = d.parent
  path : e.path = d.path
  directory : e.directory = d.directory
  chain : e.includeChain = d.includeChain

theorem SamePlace.refl (d : Document) : SamePlace d d := ⟨rfl, rfl, rfl, rfl⟩

theorem SamePlace.trans {d e f : Document} (first : SamePlace d e) (second : SamePlace e f) :
    SamePlace d f :=
  ⟨second.parent.trans first.parent, second.path.trans first.path,
    second.directory.trans first.directory, second.chain.trans first.chain⟩

/-- A document with the file that another one includes: its chain is the other one's, which did not
have the place of the file, with this place behind it. -/
def HasIncluded (files : FileTree) (outer d : Document) : Prop :=
  ∃ name place, d.path = some name ∧ files.isFile name ∧ files.resolve? name = some place ∧
    place.text ∉ outer.includeChain ∧ d.includeChain = outer.includeChain ++ [place.text]

theorem HasIncluded.of_same {outer d otherOuter e : Document}
    (included : HasIncluded files outer d) (sameOuter : SamePlace outer otherOuter)
    (same : SamePlace d e) : HasIncluded files otherOuter e := by
  obtain ⟨name, place, path, isFile, leads, new, chain⟩ := included
  refine ⟨name, place, same.path.trans path, isFile, leads, ?_, ?_⟩
  · rwa [sameOuter.chain]
  · rw [same.chain, chain, sameOuter.chain]

/-- Documents stay where they are, and those that are added are outermost ones without a chain or
have been included. -/
structure Grows (files : FileTree) (s left : Store) : Prop where
  size_le : s.documents.size ≤ left.documents.size
  kept : ∀ id < s.documents.size, SamePlace (s.document id) (left.document id)
  added : ∀ id < left.documents.size, s.documents.size ≤ id →
    (left.document id).parent = none ∧ (left.document id).includeChain = [] ∨
      ∃ outer, (left.document id).parent = some outer ∧
        (outer < id → HasIncluded files (left.document outer) (left.document id))

namespace Grows

theorem of_size {left : Store} (size : left.documents.size = s.documents.size)
    (kept : ∀ id < s.documents.size, SamePlace (s.document id) (left.document id)) :
    Grows files s left where
  size_le := size.ge
  kept := kept
  added _ inside beyond := absurd (size ▸ inside) (Nat.not_lt.mpr beyond)

theorem refl (s : Store) : Grows files s s := of_size rfl fun _ _ => .refl _

theorem trans (first : Grows files s middle) (second : Grows files middle left) :
    Grows files s left where
  size_le := first.size_le.trans second.size_le
  kept id inside :=
    (first.kept id inside).trans (second.kept id (inside.trans_le first.size_le))
  added id inside beyond := by
    by_cases before : id < middle.documents.size
    · have same := second.kept id before
      rcases first.added id before beyond with ⟨parent, chain⟩ | ⟨outer, parent, included⟩
      · exact .inl ⟨same.parent.trans parent, same.chain.trans chain⟩
      · refine .inr ⟨outer, same.parent.trans parent, fun older => ?_⟩
        exact (included older).of_same (second.kept outer (older.trans before)) same
    · exact second.added id inside (Nat.not_lt.mp before)

theorem setDocument {d : Document} (same : SamePlace (s.document id) d) :
    Grows files s (s.setDocument id d) := by
  refine of_size (by simp [Store.setDocument]) fun other inside => ?_
  rcases s.document_setDocument_or d id other with ⟨isHere, rfl, -⟩ | isThere
  · rwa [isHere]
  · rw [isThere]
    exact .refl _

theorem addDocument {d : Document}
    (added : d.parent = none ∧ d.includeChain = [] ∨
      ∃ outer, d.parent = some outer ∧ HasIncluded files (s.document outer) d) :
    Grows files s (s.addDocument d).2 where
  size_le := by simp [Store.addDocument]
  kept id inside := by
    rw [s.document_addDocument_of_lt d inside]
    exact .refl _
  added id inside beyond := by
    obtain rfl : id = s.documents.size := by
      simp only [Store.addDocument, Array.size_push] at inside
      omega
    rw [show (s.addDocument d).2.document s.documents.size = d from s.document_addDocument d]
    rcases added with isOutermost | ⟨outer, parent, included⟩
    · exact .inl isOutermost
    · refine .inr ⟨outer, parent, fun older => ?_⟩
      rwa [s.document_addDocument_of_lt d older]

end Grows

theorem Evolves.grows (evolves : Evolves files s left) : Grows files s left := by
  induction evolves with
  | refl s => exact .refl s
  | trans _ _ first second => exact first.trans second
  | counted s | view s => exact .of_size rfl fun _ _ => .refl _
  | filled _ _ _ _ _ ih => exact ih.trans (.of_size rfl fun _ _ => .refl _)
  | data s id => exact .setDocument ⟨rfl, rfl, rfl, rfl⟩
  | @included s id name place isFile leads new =>
    refine .addDocument (.inr ⟨id, rfl, name, place, rfl, isFile, leads, new, ?_⟩)
    simp [Document.including, Document.atFile, leads]
  | resolving id p _ _ ih | converting id p _ _ ih =>
    refine .trans (.trans (.setDocument ?_) ih) (.setDocument ?_) <;> exact ⟨rfl, rfl, rfl, rfl⟩

/-! ### What loads change about chains -/

/-- A document is loaded: it may be put at another file, and nothing else changes its place. -/
structure Moves (files : FileTree) (id : DocumentId) (s left : Store) : Prop where
  size : left.documents.size = s.documents.size
  others : ∀ other < s.documents.size, other ≠ id →
    SamePlace (s.document other) (left.document other)
  parent : (left.document id).parent = (s.document id).parent
  chain : (left.document id).includeChain = (s.document id).includeChain ∨
    ∃ place ∈ files.filePlaces, (left.document id).includeChain = [place.text]

theorem Document.size_load (environment : Environment) (text : Text.Decoded)
    (name : Option String) (present : id < s.documents.size) :
    ((load id text name).run environment s).2.documents.size = s.documents.size := by
  rcases ran : (load id text name).run environment s with ⟨failure | done, left⟩
  · rcases run_load_error ran with ⟨rfl, -⟩ | ⟨e, middle, -, -, placed, rfl⟩
    · rfl
    · cases placed <;> simp [Store.setDocument, Store.fresh]
  · obtain ⟨-, -, -, found, -, -, -, rfl⟩ := (run_load_ok present).mp ran
    simp [Store.rooted, Store.setDocument, Store.addView, Store.fresh]

/-- An outermost document has nothing on its chain but the file that it is put at. -/
theorem Loads.moves (loads : Loads files id s left)
    (size : left.documents.size = s.documents.size) (present : id < s.documents.size)
    (outermost : (s.document id).parent = none) : Moves files id s left := by
  cases loads with
  | inPlace evolves =>
    have grows := evolves.grows
    have same := grows.kept id present
    exact ⟨size, fun other inside _ => grows.kept other inside, same.parent, .inl same.chain⟩
  | @placed middle name isFile first second =>
    have before := first.grows
    have here := before.kept id present
    have inside : id < middle.documents.size := present.trans_le before.size_le
    have outer : middle.outerChain id = [] := by
      unfold Store.outerChain
      rw [here.parent.trans outermost]
    obtain ⟨place, leads⟩ : ∃ place, files.resolve? name = some place := by
      unfold FileTree.isFile at isFile
      cases leads : files.resolve? name with
      | none => simp [leads] at isFile
      | some place => exact ⟨place, rfl⟩
    have behind := second.grows
    have moved := middle.document_setDocument
      ((middle.document id).atFile files (middle.outerChain id) name) inside
    have after := behind.kept id (by simpa [Store.setDocument] using inside)
    rw [moved] at after
    refine ⟨size, fun other otherInside differ => ?_, after.parent.trans here.parent, .inr ?_⟩
    · have otherThere : other < middle.documents.size := otherInside.trans_le before.size_le
      have last := behind.kept other (by simpa [Store.setDocument] using otherThere)
      rw [middle.document_setDocument_of_ne _ differ.symm] at last
      exact (before.kept other otherInside).trans last
    · refine ⟨place, files.mem_filePlaces isFile leads, after.chain.trans ?_⟩
      simp [Document.atFile, outer, leads]

/-! ### Runs -/

/-- The document that an operation loads. -/
def Operation.loaded? : Operation → Option DocumentId
  | load id _ _ | loadFile id _ => some id
  | _ => none

/-- An operation is performed on what is there; only outermost documents are loaded. -/
inductive Performed (files : FileTree) (s : Store) : Store → Prop where
  | perform {environment : Environment} {operation : Operation}
      (sameFiles : environment.world.files = files) (outside : environment.IsOutside)
      (within : operation.Within s.scope)
      (outermost : ∀ id, operation.loaded? = some id → (s.document id).parent = none) :
      Performed files s (operation.step environment s)

/-- Operations that are performed one after another. -/
abbrev Run (files : FileTree) : Store → Store → Prop := Relation.ReflTransGen (Performed files)

theorem Operation.size_load {environment : Environment} {operation : Operation}
    (isLoad : operation.loaded? = some id) (present : id < s.documents.size) :
    (operation.step environment s).documents.size = s.documents.size := by
  have leaves (text : Text.Decoded) (name : Option String) :
      ((do Document.load id text name; return Answer.done : Eval Answer).run environment s).2.documents.size =
        s.documents.size := by
    have size := Document.size_load environment text name present
    rw [run_bind]
    rcases ran : (Document.load id text name).run environment s with ⟨failure | done, left⟩ <;>
      rw [ran] at size <;> exact size
  cases operation with
  | load other text name =>
    cases isLoad
    exact leaves text name
  | loadFile other name =>
    cases isLoad
    rw [step, perform, Document.loadFile, bind_assoc, run_bind]
    have same := Document.run_readFile_store environment s name
    rcases ran : (readFile name).run environment s with ⟨failure | text, behind⟩ <;>
      rw [ran] at same <;> cases same
    · rfl
    · exact leaves text (some name)
  | _ => cases isLoad

theorem Performed.grows_or_moves (performed : Performed files s left) :
    Grows files s left ∨ ∃ id, (s.document id).parent = none ∧ Moves files id s left := by
  obtain @⟨environment, operation, rfl, -, within, outermost⟩ := performed
  cases operation.operates environment s with
  | evolves evolves => exact .inl evolves.grows
  | creates caching isCreate same =>
    rw [same]
    exact .inl (.addDocument (.inl ⟨rfl, rfl⟩))
  | loads id isLoad loads =>
    have isLoaded : operation.loaded? = some id ∧ id < s.documents.size := by
      rcases isLoad with ⟨text, name, rfl⟩ | ⟨name, rfl⟩ <;> exact ⟨rfl, within⟩
    obtain ⟨isLoaded, present⟩ := isLoaded
    have parent := outermost id isLoaded
    exact .inr ⟨id, parent, loads.moves (operation.size_load isLoaded present) present parent⟩

/-- A document stands so deep inside outermost ones. -/
inductive Store.Nested (s : Store) : Nat → DocumentId → Prop where
  | outermost {id : DocumentId} (parent : (s.document id).parent = none) : Nested s 0 id
  | inside {id outer : DocumentId} {depth : Nat} (parent : (s.document id).parent = some outer)
      (deeper : Nested s depth outer) : Nested s (depth + 1) id

/-- What holds of the chains in a store after any run. -/
structure Chained (files : FileTree) (s : Store) : Prop where
  older : ∀ id < s.documents.size, ∀ outer, (s.document id).parent = some outer → outer < id
  nodup : ∀ id < s.documents.size, (s.document id).includeChain.Nodup
  places : ∀ id < s.documents.size, ∀ text ∈ (s.document id).includeChain,
    ∃ place ∈ files.filePlaces, place.text = text
  depth : ∀ id < s.documents.size, ∀ depth, s.Nested depth id →
    depth ≤ (s.document id).includeChain.length

namespace Chained

theorem nested_of_older {depth : Nat}
    (older : ∀ id < left.documents.size, ∀ outer, (left.document id).parent = some outer → outer < id)
    (size : s.documents.size ≤ left.documents.size)
    (parents : ∀ id < s.documents.size, (left.document id).parent = (s.document id).parent)
    (nested : left.Nested depth id) (inside : id < s.documents.size) : s.Nested depth id := by
  induction nested with
  | outermost parent => exact .outermost ((parents _ inside).symm.trans parent)
  | inside parent deeper ih =>
    have isOlder := older _ (inside.trans_le size) _ parent
    exact .inside ((parents _ inside).symm.trans parent) (ih (isOlder.trans inside))

theorem grows (chained : Chained files s) (grows : Grows files s left)
    (older : ∀ id < left.documents.size, ∀ outer,
      (left.document id).parent = some outer → outer < id) : Chained files left := by
  have parents : ∀ id < s.documents.size, (left.document id).parent = (s.document id).parent :=
    fun id inside => (grows.kept id inside).parent
  -- every claim is shown for older documents first, since a chain is made from an older one
  have all : ∀ id < left.documents.size, (left.document id).includeChain.Nodup ∧
      (∀ text ∈ (left.document id).includeChain, ∃ place ∈ files.filePlaces, place.text = text) ∧
      ∀ depth, left.Nested depth id → depth ≤ (left.document id).includeChain.length := by
    intro id
    induction id using Nat.strong_induction_on with
    | _ id ih =>
      intro inside
      by_cases before : id < s.documents.size
      · rw [(grows.kept id before).chain]
        exact ⟨chained.nodup id before, chained.places id before, fun depth nested =>
          chained.depth id before depth (nested_of_older older grows.size_le parents nested before)⟩
      rcases grows.added id inside (Nat.not_lt.mp before) with ⟨parent, chain⟩ | ⟨outer, parent, added⟩
      · rw [chain]
        refine ⟨List.nodup_nil, fun _ among => by (cases among), fun depth nested => ?_⟩
        cases nested with
        | outermost => exact Nat.le_refl 0
        | inside isParent => cases parent.symm.trans isParent
      · have isOlder := older id inside outer parent
        obtain ⟨name, place, -, isFile, leads, new, chain⟩ := added isOlder
        obtain ⟨nodup, places, depths⟩ := ih outer isOlder (isOlder.trans inside)
        rw [chain]
        refine ⟨?_, fun text among => ?_, fun depth nested => ?_⟩
        · rw [List.nodup_append]
          refine ⟨nodup, List.nodup_singleton _, fun text among other isPlace same => new ?_⟩
          obtain rfl := List.mem_singleton.mp isPlace
          exact same ▸ among
        · rcases List.mem_append.mp among with among | among
          · exact places text among
          · obtain rfl := List.mem_singleton.mp among
            exact ⟨place, files.mem_filePlaces isFile leads, rfl⟩
        · cases nested with
          | outermost isParent => exact Nat.zero_le _
          | inside isParent deeper =>
            cases parent.symm.trans isParent
            simpa using depths _ deeper
  exact
    { older
      nodup := fun id inside => (all id inside).1
      places := fun id inside => (all id inside).2.1
      depth := fun id inside => (all id inside).2.2 }

theorem moves (chained : Chained files s) (moves : Moves files id s left)
    (outermost : (s.document id).parent = none) : Chained files left := by
  have parents : ∀ other < s.documents.size,
      (left.document other).parent = (s.document other).parent := by
    intro other inside
    by_cases same : other = id
    · rw [same, moves.parent]
    · exact (moves.others other inside same).parent
  have older : ∀ other < left.documents.size, ∀ outer,
      (left.document other).parent = some outer → outer < other := by
    intro other inside outer parent
    rw [moves.size] at inside
    exact chained.older other inside outer ((parents other inside).symm.trans parent)
  have chain (other : DocumentId) (inside : other < s.documents.size) :
      (left.document other).includeChain = (s.document other).includeChain ∨
        other = id ∧ ∃ place ∈ files.filePlaces, (left.document other).includeChain = [place.text] := by
    by_cases same : other = id
    · subst same
      exact moves.chain.imp_right fun moved => ⟨rfl, moved⟩
    · exact .inl (moves.others other inside same).chain
  constructor
  case older => exact older
  case nodup =>
    intro other inside
    rw [moves.size] at inside
    rcases chain other inside with same | ⟨-, place, -, same⟩ <;> rw [same]
    · exact chained.nodup other inside
    · exact List.nodup_singleton _
  case places =>
    intro other inside text among
    rw [moves.size] at inside
    rcases chain other inside with same | ⟨-, place, isFile, same⟩ <;> rw [same] at among
    · exact chained.places other inside text among
    · exact ⟨place, isFile, (List.mem_singleton.mp among).symm⟩
  case depth =>
    intro other inside depth nested
    rw [moves.size] at inside
    rcases chain other inside with same | ⟨rfl, -⟩
    · rw [same]
      exact chained.depth other inside depth
        (nested_of_older older moves.size.ge parents nested inside)
    · -- the document that is loaded stands in no other one
      cases nested with
      | outermost => exact Nat.zero_le _
      | inside parent => cases ((parents other inside).trans outermost).symm.trans parent

end Chained

/-! ### After any run -/

/-- Every document and view keeps its number. -/
def Relocation.refl : Relocation :=
  ⟨fun n => n, fun n => n, fun _ _ same => same, fun _ _ same => same⟩

/-- What a store holds refers to nothing but what it holds, since another store can hold it, too. -/
theorem Run.relocated (run : Run files {} s) : ∃ t, Relocated .refl s t := by
  induction run with
  | refl =>
    exact ⟨{},
      { serial := rfl
        documents := fun _ inside => absurd inside (Nat.not_lt_zero _)
        views := fun _ inside => absurd inside (Nat.not_lt_zero _)
        nextDocument := fun _ => (Nat.zero_add _).symm ▸ rfl
        nextView := fun _ => (Nat.zero_add _).symm ▸ rfl
        documentsWithin := fun _ inside => absurd inside (Nat.not_lt_zero _)
        viewsWithin := fun _ inside => absurd inside (Nat.not_lt_zero _)
        older := fun _ inside => absurd inside (Nat.not_lt_zero _) }⟩
  | tail _ performed ih =>
    obtain ⟨t, relocated⟩ := ih
    cases performed with
    | perform sameFiles outside within outermost => exact ⟨_, (relocated.step outside within).1⟩

theorem Run.older (run : Run files {} s) :
    ∀ id < s.documents.size, ∀ outer, (s.document id).parent = some outer → outer < id := by
  obtain ⟨t, relocated⟩ := run.relocated
  exact relocated.older

theorem Run.chained (run : Run files {} s) : Chained files s := by
  induction run with
  | refl =>
    constructor <;> exact fun _ inside => absurd inside (Nat.not_lt_zero _)
  | tail before performed ih =>
    rcases performed.grows_or_moves with grows | ⟨id, outermost, moves⟩
    · exact ih.grows grows (Run.older (before.tail performed))
    · exact ih.moves moves outermost

/-- A document has been included between two stores of a run. The chain of the including document
has not changed meanwhile. -/
structure IncludedBetween (files : FileTree) (outer id : DocumentId) (s left : Store) : Prop where
  performed : Performed files s left
  absent : s.documents.size ≤ id
  present : id < left.documents.size
  older : outer < id
  still : outer < s.documents.size → SamePlace (s.document outer) (left.document outer)
  included : HasIncluded files (left.document outer) (left.document id)

/-- Every document that stands in another one has been included by it, and since then it has kept
its chain. -/
theorem Run.included (run : Run files {} s) : ∀ id < s.documents.size, ∀ outer,
    (s.document id).parent = some outer →
      ∃ before behind, Run files {} before ∧ IncludedBetween files outer id before behind ∧
        Run files behind s ∧ SamePlace (behind.document id) (s.document id) := by
  induction run with
  | refl => exact fun _ inside => absurd inside (Nat.not_lt_zero _)
  | @tail middle left run performed ih =>
    have older := Run.older (run.tail performed)
    -- what has been included before stays as it is
    have earlier (id : DocumentId) (inside : id < middle.documents.size) (outer : DocumentId)
        (parent : (left.document id).parent = some outer)
        (same : SamePlace (middle.document id) (left.document id)) :
        ∃ before behind, Run files {} before ∧ IncludedBetween files outer id before behind ∧
          Run files behind left ∧ SamePlace (behind.document id) (left.document id) := by
      obtain ⟨before, behind, first, between, last, kept⟩ :=
        ih id inside outer (same.parent.symm.trans parent)
      exact ⟨before, behind, first, between, last.tail performed, kept.trans same⟩
    intro id inside outer parent
    rcases performed.grows_or_moves with grows | ⟨moved, outermost, moves⟩
    · by_cases known : id < middle.documents.size
      · exact earlier id known outer parent (grows.kept id known)
      have absent := Nat.not_lt.mp known
      rcases grows.added id inside absent with ⟨noParent, -⟩ | ⟨other, isParent, included⟩
      · cases noParent.symm.trans parent
      · cases isParent.symm.trans parent
        have isOlder := older id inside outer parent
        exact ⟨middle, left, run, ⟨performed, absent, inside, isOlder, grows.kept outer,
          included isOlder⟩, .refl, .refl _⟩
    · rw [moves.size] at inside
      have differ : id ≠ moved := by
        rintro rfl
        cases (moves.parent.trans outermost).symm.trans parent
      exact earlier id inside outer parent (moves.others id inside differ)

theorem Chained.exists_nested (chained : Chained files s) (id : DocumentId)
    (inside : id < s.documents.size) : ∃ depth, s.Nested depth id := by
  induction id using Nat.strong_induction_on with
  | _ id ih =>
    cases parent : (s.document id).parent with
    | none => exact ⟨0, .outermost parent⟩
    | some outer =>
      have isOlder := chained.older id inside outer parent
      obtain ⟨depth, nested⟩ := ih outer isOlder (isOlder.trans inside)
      exact ⟨depth + 1, .inside parent nested⟩

theorem Chained.length_chain (chained : Chained files s) (inside : id < s.documents.size) :
    (s.document id).includeChain.length ≤ files.filePlaces.length := by
  have among : (s.document id).includeChain ⊆ files.filePlaces.map Place.text := by
    intro text isOn
    obtain ⟨place, isFile, same⟩ := chained.places id inside text isOn
    exact List.mem_map.mpr ⟨place, isFile, same⟩
  simpa using ((chained.nodup id inside).subperm among).length_le

/-! ### Files that are on the chain already -/

/-- A file whose place is on the chain of the document is not included, whichever name leads to it:
nothing happens behind the evaluation of the operand. -/
theorem includesItself {environment : Environment} {depth : Nat} {operand : Node}
    {start : Location} {name found : String} {mark : Mark} {place : Place}
    (present : id < s.documents.size)
    (named : (answerWithin depth (.evaluate id operand)).run environment s =
      (.ok (.text name mark), left))
    (isLocated : located? (s.document id) environment name = some (found, place))
    (isOn : place.text ∈ (s.document id).includeChain) :
    (answerWithin (depth + 1) (.evaluate id (.unary .located operand start))).run environment s =
      (.error (.error ⟨.includesItself name, some operand.start⟩), left) := by
  have evolves := evolving_answerWithin depth (.evaluate id operand) environment s
  rw [named] at evolves
  have same := evolves.grows.kept id present
  have stillLocated : located? (left.document id) environment name = some (found, place) := by
    rw [← isLocated]
    simp only [located?, candidates, same.directory]
  have stillOn : (left.document id).includeChain.contains place.text = true := by
    rw [same.chain]
    simpa using isOn
  change (included ⟨answerWithin depth⟩ id operand).run environment s = _
  rw [included_eq, run_bind, Machine.evaluate, named]
  dsimp only
  rw [includedFile, run_bind, run_document]
  dsimp only
  rw [run_bind, run_read]
  dsimp only
  rw [stillLocated]
  dsimp only
  rw [if_pos stillOn]
  rfl

/-- The chain of an included document never repeats a file. After any run in which only outermost
documents are loaded, a document that stands in another one was included at some moment, and its
chain is the one that the other had then, with the place of its own file behind it; whatever is on a
chain is the place of a file, and nothing is on it twice. A file whose place is on the chain of a
document is not included by it, whatever name it goes by, and no document is added. So documents
stand no deeper in one another than there are files. -/
theorem chain_never_repeats (run : Run files {} s) :
    (∀ id < s.documents.size, ∀ outer, (s.document id).parent = some outer →
      ∃ before behind, Run files {} before ∧ IncludedBetween files outer id before behind ∧
        Run files behind s ∧ SamePlace (behind.document id) (s.document id)) ∧
    (∀ id < s.documents.size, (s.document id).includeChain.Nodup ∧
      ∀ text ∈ (s.document id).includeChain, ∃ place ∈ files.filePlaces, place.text = text) ∧
    (∀ (environment : Environment) (t left : Store) (id : DocumentId) (depth : Nat)
        (operand : Node) (start : Location) (name found : String) (mark : Mark) (place : Place),
      id < t.documents.size →
      (answerWithin depth (.evaluate id operand)).run environment t =
        (.ok (.text name mark), left) →
      located? (t.document id) environment name = some (found, place) →
      place.text ∈ (t.document id).includeChain →
      (answerWithin (depth + 1) (.evaluate id (.unary .located operand start))).run environment t =
          (.error (.error ⟨.includesItself name, some operand.start⟩), left) ∧
        Cause.category (.includesItself name) = .inclusion) ∧
    ∀ id < s.documents.size, ∃ depth, s.Nested depth id ∧ depth ≤ files.filePlaces.length := by
  have chained := Run.chained run
  refine ⟨Run.included run, fun id inside => ⟨chained.nodup id inside, chained.places id inside⟩,
    ?_, fun id inside => ?_⟩
  · intro environment t left id depth operand start name found mark place present named located isOn
    exact ⟨includesItself present named located isOn, rfl⟩
  · obtain ⟨depth, nested⟩ := chained.exists_nested id inside
    exact ⟨depth, nested,
      (chained.depth id inside depth nested).trans (chained.length_chain inside)⟩

/-! ### A file that is included through a link, too -/

/-- A file, and a link to it. -/
def linkedFiles : FileTree := ⟨[], [(["n"], .file "a: 1".toUTF8), (["l"], .link "n")]⟩

def linkedEnvironment : Environment := { world := { files := linkedFiles }, settings := {} }

/-- The name of a file in quotes. -/
def quotedName (name : String) : Token := { kind := .string, text := name, value := .text name }

theorem run_quotedName (depth : Nat) (environment : Environment) (s : Store) (id : DocumentId)
    (name : String) :
    ∃ mark, (answerWithin (depth + 1) (.evaluate id (.leaf (quotedName name)))).run environment s =
      (.ok (.text name mark), s) := by
  have read := @Inclusion.run_string environment s ⟨answerWithin depth⟩ id (quotedName name) name
    rfl rfl
  exact ⟨_, read⟩

/-- An evaluation that is asked for leaves what it leaves in the machine. -/
theorem step_evaluate (id : DocumentId) (node : Node) (environment : Environment) (s : Store) :
    (Operation.evaluate id node).step environment s =
      ((answerWithin environment.depth (.evaluate id node)).run environment s).2 := by
  have ran : (Document.evaluate id node).run environment s =
      (answerWithin environment.depth (.evaluate id node)).run environment s := by
    rw [Document.evaluate, machine, run_bind, run_bind, run_read]
    rfl
  rw [Operation.step, Operation.perform, run_bind, ran]
  rcases (answerWithin environment.depth (.evaluate id node)).run environment s with ⟨_ | _, left⟩ <;>
    rfl

/-- A store with a document that has included the file. -/
def IncludesFile (s : Store) : Prop :=
  1 < s.documents.size ∧ (s.document 1).parent = some 0 ∧
    (s.document 1).directory = some (linkedFiles.directoryOf "/n") ∧
    (s.document 1).includeChain = ["/n"]

theorem exists_run_linked : ∃ s, Run linkedFiles {} s ∧ IncludesFile s := by
  have outside : linkedEnvironment.IsOutside :=
    ⟨fun _ among => by (cases among), fun _ isTable => by (cases isTable),
      fun _ isTable => by (cases isTable), fun _ among => by (cases among),
      fun _ among => by (cases among)⟩
  let blank : Store := ⟨#[{}], #[], 0⟩
  have created : Run linkedFiles {} blank :=
    .single (@Performed.perform linkedFiles {} linkedEnvironment (.create false) rfl outside trivial
      (fun _ isLoad => by cases isLoad))
  obtain ⟨tree, entries, span, slots, isTree, isMapping, collected, -⟩ :=
    @Inclusion.exists_slots ⟨"a: 1".toList, none⟩ 0 (fun _ => true) (by decide +kernel)
  obtain ⟨mark, isName⟩ := run_quotedName 99998 linkedEnvironment blank 0 "n"
  have located : located? (blank.document 0) linkedEnvironment "n" = some ("/n", ["n"]) := by cbv
  have read : linkedFiles.read .utf8 "/n" = .ok ⟨"a: 1".toList, none⟩ := by cbv
  have leads : linkedFiles.resolve? "/n" = some ["n"] := by cbv
  have ran := @Inclusion.run_included_mapping linkedEnvironment blank blank ⟨answerWithin 99999⟩ 0
    (.leaf (quotedName "n")) _ _ _ _ _ _ _ _ _ isName located rfl read isTree isMapping collected
  have included : Performed linkedFiles blank
      (Inclusion.withNested linkedEnvironment blank.fresh.2 0 "/n" span slots) := by
    have performed := @Performed.perform linkedFiles blank linkedEnvironment
      (.evaluate 0 (.unary .located (.leaf (quotedName "n")) {})) rfl outside Nat.one_pos
      (fun _ isLoad => by cases isLoad)
    have evaluated : ((answerWithin linkedEnvironment.depth (.evaluate 0
        (.unary .located (.leaf (quotedName "n")) {}))).run linkedEnvironment blank).2 =
          Inclusion.withNested linkedEnvironment blank.fresh.2 0 "/n" span slots :=
      congrArg Prod.snd ran
    rwa [step_evaluate, evaluated] at performed
  refine ⟨_, created.tail included, Nat.lt_add_one 1, rfl, rfl, ?_⟩
  change ([] ++ ((linkedFiles.resolve? "/n").map Place.text).toList : List String) = ["/n"]
  rw [leads]
  rfl

/-- The file is not included by its own document through the link, and there is one file to stand
in. -/
theorem chain_never_repeats_linked :
    ∃ s, Run linkedFiles {} s ∧ IncludesFile s ∧ (s.document 1).includeChain.Nodup ∧
      ((answerWithin 2 (.evaluate 1 (.unary .located (.leaf (quotedName "l")) {}))).run
        linkedEnvironment s).1 =
          .error (.error ⟨.includesItself "l", some (Node.leaf (quotedName "l")).start⟩) ∧
      ∃ depth, s.Nested depth 1 ∧ depth ≤ linkedFiles.filePlaces.length := by
  obtain ⟨s, run, includes⟩ := exists_run_linked
  obtain ⟨present, parent, directory, chain⟩ := includes
  obtain ⟨-, distinct, refuses, depths⟩ := chain_never_repeats run
  obtain ⟨mark, isName⟩ := run_quotedName 0 linkedEnvironment s 1 "l"
  have located : located? (s.document 1) linkedEnvironment "l" = some ("/l", ["n"]) := by
    have inDirectory : located? { directory := some (linkedFiles.directoryOf "/n") }
        linkedEnvironment "l" = some ("/l", ["n"]) := by cbv
    rw [← inDirectory]
    simp only [located?, candidates, directory]
  have isOn : Place.text ["n"] ∈ (s.document 1).includeChain := by
    rw [chain]
    exact List.mem_singleton.mpr rfl
  have refused := refuses linkedEnvironment s s 1 1 (.leaf (quotedName "l")) {} "l" "/l" mark ["n"]
    present isName located isOn
  exact ⟨s, run, ⟨present, parent, directory, chain⟩, (distinct 1 present).1,
    congrArg Prod.fst refused.1, depths 1 present⟩

end LazyConfig
