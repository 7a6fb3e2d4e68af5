import LazyConfig.Proofs.Evaluation.Steps
import LazyConfig.Proofs.Relocation.Value
import Mathlib.Data.List.Basic

/-!
# Evaluations in relocated stores

A store holds the documents and views of another one at other numbers, and besides them whatever it
likes. An evaluation that starts from documents and views of the one store does the same in the
other: what it leaves are relocated stores again, and its result is the relocated one.

The stores grow while an evaluation goes on, and the values that it deals with may refer to what has
been added. So evaluations are compared from a scope on, and in every wider one.
-/

namespace LazyConfig

open Eval
open Evaluation

/-! ### What stores hold -/

namespace Slot

def relocate (r : Relocation) : Slot → Slot
  | .node n => .node n
  | .value v => .value (v.relocate r)

def Within (scope : Scope) : Slot → Prop
  | .node _ => True
  | .value v => v.Within scope

theorem Within.mono {scope wider : Scope} (le : scope ≤ wider) :
    ∀ {slot : Slot}, slot.Within scope → slot.Within wider
  | .node _, _ => trivial
  | .value v, within => Value.Within.mono le (show v.Within scope from within)

end Slot

/-- How the things that evaluations deal with are relocated, and which of them refer only to what is
there. -/
structure Cargo (α : Type) where
  relocate : α → α
  Within : Scope → α → Prop
  mono : ∀ {scope wider a}, scope ≤ wider → Within scope a → Within wider a

namespace Cargo

variable {α β : Type} (r : Relocation)

/-- Things that refer to nothing. -/
def plain : Cargo α := ⟨id, fun _ _ => True, fun _ _ => trivial⟩

def value : Cargo Value := ⟨Value.relocate r, Value.Within, fun le => Value.Within.mono le⟩

def slot : Cargo Slot := ⟨Slot.relocate r, Slot.Within, fun le => Slot.Within.mono le⟩

/-- The number of a document. -/
def document : Cargo DocumentId :=
  ⟨r.document, fun scope id => id < scope.documents, fun le inside => Nat.lt_of_lt_of_le inside le.1⟩

/-- The number of a view. -/
def view : Cargo ViewId :=
  ⟨r.view, fun scope id => id < scope.views, fun le inside => Nat.lt_of_lt_of_le inside le.2⟩

def pair (c : Cargo α) (d : Cargo β) : Cargo (α × β) :=
  ⟨fun p => (c.relocate p.1, d.relocate p.2), fun scope p => c.Within scope p.1 ∧ d.Within scope p.2,
    fun le within => ⟨c.mono le within.1, d.mono le within.2⟩⟩

def list (c : Cargo α) : Cargo (List α) :=
  ⟨List.map c.relocate, fun scope items => ∀ a ∈ items, c.Within scope a,
    fun le within a among => c.mono le (within a among)⟩

def option (c : Cargo α) : Cargo (Option α) :=
  ⟨Option.map c.relocate, fun scope item => ∀ a, item = some a → c.Within scope a,
    fun le within a isSome => c.mono le (within a isSome)⟩

/-- What stands under keys. -/
abbrev entries (c : Cargo α) : Cargo (List (String × α)) := (pair plain c).list

end Cargo

theorem Value.relocate_list (r : Relocation) (items : List Value) (mark : Mark) :
    (list items mark).relocate r = list ((Cargo.value r).list.relocate items) mark := by
  rw [relocate, relocateItems_eq]
  rfl

theorem Value.relocate_dict (r : Relocation) (entries : List (String × Value)) (mark : Mark) :
    (dict entries mark).relocate r = dict ((Cargo.value r).entries.relocate entries) mark := by
  rw [relocate, relocateEntries_eq]
  rfl

theorem Value.within_list {scope : Scope} {items : List Value} {mark : Mark} :
    (list items mark).Within scope ↔ ∀ v ∈ items, v.Within scope := by
  rw [Within, itemsWithin_iff]

theorem Value.within_dict {scope : Scope} {entries : List (String × Value)} {mark : Mark} :
    (dict entries mark).Within scope ↔ ∀ entry ∈ entries, True ∧ entry.2.Within scope := by
  rw [Within, entriesWithin_iff]
  simp

namespace View

variable (r : Relocation)

def relocate : View → View
  | .list owner slots => .list (r.document owner) ((Cargo.slot r).list.relocate slots)
  | .mapping owner entries => .mapping (r.document owner) ((Cargo.slot r).entries.relocate entries)

def Within (scope : Scope) : View → Prop
  | .list owner slots => owner < scope.documents ∧ ∀ slot ∈ slots, slot.Within scope
  | .mapping owner entries =>
    owner < scope.documents ∧ ∀ entry ∈ entries, True ∧ entry.2.Within scope

end View

namespace Document

def relocate (r : Relocation) (d : Document) : Document :=
  { d with
    parent := d.parent.map r.document
    root := d.root.map r.view
    cache := d.cache.map (Cargo.value r).entries.relocate
    views := (Cargo.pair .plain (.view r)).list.relocate d.views }

structure Within (scope : Scope) (d : Document) : Prop where
  parent : ∀ id, d.parent = some id → id < scope.documents
  root : ∀ view, d.root = some view → view < scope.views
  cache : ∀ entries, d.cache = some entries → ∀ entry ∈ entries, True ∧ entry.2.Within scope
  views : ∀ entry ∈ d.views, True ∧ entry.2 < scope.views

theorem Within.mono {scope wider : Scope} (le : scope ≤ wider) {d : Document}
    (within : d.Within scope) : d.Within wider where
  parent id isParent := Nat.lt_of_lt_of_le (within.parent id isParent) le.1
  root view isRoot := Nat.lt_of_lt_of_le (within.root view isRoot) le.2
  cache entries kept entry among :=
    ⟨trivial, (within.cache entries kept entry among).2.mono le⟩
  views entry among := ⟨trivial, Nat.lt_of_lt_of_le (within.views entry among).2 le.2⟩

end Document

theorem View.Within.mono {scope wider : Scope} (le : scope ≤ wider) :
    ∀ {view : View}, view.Within scope → view.Within wider
  | .list _ _, within =>
    ⟨Nat.lt_of_lt_of_le within.1 le.1, fun slot among => (within.2 slot among).mono le⟩
  | .mapping _ _, within =>
    ⟨Nat.lt_of_lt_of_le within.1 le.1, fun entry among =>
      ⟨trivial, (within.2 entry among).2.mono le⟩⟩

namespace Cargo

/-- A document itself. -/
def content (r : Relocation) : Cargo Document :=
  ⟨Document.relocate r, Document.Within, fun le => Document.Within.mono le⟩

theorem root_content (d : Document) : ((content r).relocate d).root = d.root.map r.view := rfl

theorem parent_content (d : Document) :
    ((content r).relocate d).parent = d.parent.map r.document := rfl

/-- A view itself. -/
def viewContent (r : Relocation) : Cargo View :=
  ⟨View.relocate r, View.Within, fun le => View.Within.mono le⟩

theorem lookup_relocate {κ α : Type} [BEq κ] (c : Cargo α) (key : κ) (entries : List (κ × α)) :
    ((pair plain c).list.relocate entries).lookup key = (entries.lookup key).map c.relocate := by
  induction entries with
  | nil => rfl
  | cons entry entries ih =>
    obtain ⟨k, a⟩ := entry
    change List.lookup key ((k, c.relocate a) :: (pair plain c).list.relocate entries) = _
    rw [List.lookup_cons, List.lookup_cons, ih]
    cases key == k <;> rfl

theorem within_lookup {κ α : Type} [BEq κ] {c : Cargo α} {scope : Scope} {key : κ} {a : α}
    {entries : List (κ × α)} (within : ∀ entry ∈ entries, True ∧ c.Within scope entry.2)
    (found : entries.lookup key = some a) : c.Within scope a := by
  induction entries with
  | nil => cases found
  | cons entry entries ih =>
    obtain ⟨k, b⟩ := entry
    rw [List.lookup_cons] at found
    split at found
    · cases found
      exact (within _ List.mem_cons_self).2
    · exact ih (fun entry among => within entry (by simp [among])) found

end Cargo

namespace Store

variable (s : Store)

def scope : Scope := ⟨s.documents.size, s.views.size⟩

theorem scope_le_addView (v : View) : s.scope ≤ (s.addView v).2.scope :=
  ⟨Nat.le_refl _, by simp [scope, addView]⟩

theorem scope_le_addDocument (d : Document) : s.scope ≤ (s.addDocument d).2.scope :=
  ⟨by simp [scope, addDocument], Nat.le_refl _⟩

theorem scope_setView (id : ViewId) (v : View) : (s.setView id v).scope = s.scope := by
  simp [scope, setView]

theorem scope_setDocument (id : DocumentId) (d : Document) :
    (s.setDocument id d).scope = s.scope := by
  simp [scope, setDocument]

end Store

/-- A store holds all that another one refers to at other numbers. In both of them the next numbers
correspond. -/
structure Relocated (r : Relocation) (s t : Store) : Prop where
  serial : t.serial = s.serial
  documents : ∀ id < s.documents.size, r.document id < t.documents.size ∧
    t.document (r.document id) = (s.document id).relocate r
  views : ∀ id < s.views.size, r.view id < t.views.size ∧
    t.view (r.view id) = (s.view id).relocate r
  nextDocument : ∀ n, r.document (s.documents.size + n) = t.documents.size + n
  nextView : ∀ n, r.view (s.views.size + n) = t.views.size + n
  documentsWithin : ∀ id < s.documents.size, (s.document id).Within s.scope
  viewsWithin : ∀ id < s.views.size, (s.view id).Within s.scope
  /-- A document comes after the one that includes it. -/
  older : ∀ id < s.documents.size, ∀ parent, (s.document id).parent = some parent → parent < id

namespace Relocated

variable {r : Relocation} {s t : Store}

theorem fresh (relocated : Relocated r s t) : Relocated r s.fresh.2 t.fresh.2 :=
  { relocated with serial := congrArg (· + 1) relocated.serial }

theorem addView (relocated : Relocated r s t) {v : View} (within : v.Within s.scope) :
    Relocated r (s.addView v).2 (t.addView (v.relocate r)).2 where
  serial := relocated.serial
  documents := relocated.documents
  views id present := by
    simp only [Store.addView, Array.size_push] at present ⊢
    rcases Nat.lt_succ_iff_lt_or_eq.mp present with before | rfl
    · obtain ⟨inside, same⟩ := relocated.views id before
      refine ⟨Nat.lt_succ_of_lt inside, ?_⟩
      exact (t.view_addView_of_lt (v.relocate r) inside).trans
        (same.trans (congrArg (View.relocate r) (s.view_addView_of_lt v before).symm))
    · have here : r.view s.views.size = t.views.size := relocated.nextView 0
      refine ⟨here ▸ Nat.lt_succ_self _, ?_⟩
      rw [here]
      exact (t.view_addView (v.relocate r)).trans
        (congrArg (View.relocate r) (s.view_addView v).symm)
  nextDocument := relocated.nextDocument
  nextView n := by
    have next := relocated.nextView (n + 1)
    simp only [Store.addView, Array.size_push]
    rw [show s.views.size + 1 + n = s.views.size + (n + 1) by omega, next]
    exact Nat.add_right_comm _ n 1
  documentsWithin id present := (relocated.documentsWithin id present).mono (s.scope_le_addView v)
  viewsWithin id present := by
    have wider := s.scope_le_addView v
    simp only [Store.addView, Array.size_push] at present
    rcases Nat.lt_succ_iff_lt_or_eq.mp present with before | rfl
    · rw [s.view_addView_of_lt v before]
      exact (relocated.viewsWithin id before).mono wider
    · rw [show (s.addView v).2.view s.views.size = v from s.view_addView v]
      exact within.mono wider
  older := relocated.older

theorem setView (relocated : Relocated r s t) {id : ViewId} {v : View} (present : id < s.views.size)
    (within : v.Within s.scope) :
    Relocated r (s.setView id v) (t.setView (r.view id) (v.relocate r)) where
  serial := relocated.serial
  documents := relocated.documents
  views other inside := by
    rw [Store.setView, Array.size_setIfInBounds] at inside
    obtain ⟨there, same⟩ := relocated.views other inside
    refine ⟨by simpa [Store.setView] using there, ?_⟩
    by_cases here : id = other
    · subst here
      rw [s.view_setView v present, t.view_setView _ there]
    · rw [s.view_setView_of_ne v here,
        t.view_setView_of_ne _ (fun collide => here (r.view_injective collide)), same]
  nextDocument := relocated.nextDocument
  nextView n := by simpa [Store.setView] using relocated.nextView n
  documentsWithin other inside := by
    rw [s.scope_setView]
    exact relocated.documentsWithin other inside
  viewsWithin other inside := by
    rw [s.scope_setView]
    by_cases here : id = other
    · subst here
      rwa [s.view_setView v present]
    · rw [s.view_setView_of_ne v here]
      exact relocated.viewsWithin other (by simpa [Store.setView] using inside)
  older := relocated.older

theorem setDocument (relocated : Relocated r s t) {id : DocumentId} {d : Document}
    (present : id < s.documents.size) (within : d.Within s.scope)
    (parent : d.parent = (s.document id).parent) :
    Relocated r (s.setDocument id d) (t.setDocument (r.document id) (d.relocate r)) where
  serial := relocated.serial
  documents other inside := by
    rw [Store.setDocument, Array.size_setIfInBounds] at inside
    obtain ⟨there, same⟩ := relocated.documents other inside
    refine ⟨by simpa [Store.setDocument] using there, ?_⟩
    by_cases here : id = other
    · subst here
      rw [s.document_setDocument d present, t.document_setDocument _ there]
    · rw [s.document_setDocument_of_ne d here,
        t.document_setDocument_of_ne _ (fun collide => here (r.document_injective collide)), same]
  views := relocated.views
  nextDocument n := by simpa [Store.setDocument] using relocated.nextDocument n
  nextView := relocated.nextView
  documentsWithin other inside := by
    rw [s.scope_setDocument]
    by_cases here : id = other
    · subst here
      rwa [s.document_setDocument d present]
    · rw [s.document_setDocument_of_ne d here]
      exact relocated.documentsWithin other (by simpa [Store.setDocument] using inside)
  viewsWithin other inside := by
    rw [s.scope_setDocument]
    exact relocated.viewsWithin other inside
  older other inside outer isParent := by
    rw [Store.setDocument, Array.size_setIfInBounds] at inside
    by_cases here : id = other
    · subst here
      rw [s.document_setDocument d present, parent] at isParent
      exact relocated.older id inside outer isParent
    · rw [s.document_setDocument_of_ne d here] at isParent
      exact relocated.older other inside outer isParent

theorem addDocument (relocated : Relocated r s t) {d : Document} (within : d.Within s.scope) :
    Relocated r (s.addDocument d).2 (t.addDocument (d.relocate r)).2 where
  serial := relocated.serial
  documents id present := by
    simp only [Store.addDocument, Array.size_push] at present ⊢
    rcases Nat.lt_succ_iff_lt_or_eq.mp present with before | rfl
    · obtain ⟨inside, same⟩ := relocated.documents id before
      refine ⟨Nat.lt_succ_of_lt inside, ?_⟩
      exact (t.document_addDocument_of_lt (d.relocate r) inside).trans
        (same.trans (congrArg (Document.relocate r) (s.document_addDocument_of_lt d before).symm))
    · have here : r.document s.documents.size = t.documents.size := relocated.nextDocument 0
      refine ⟨here ▸ Nat.lt_succ_self _, ?_⟩
      rw [here]
      exact (t.document_addDocument (d.relocate r)).trans
        (congrArg (Document.relocate r) (s.document_addDocument d).symm)
  views := relocated.views
  nextDocument n := by
    have next := relocated.nextDocument (n + 1)
    simp only [Store.addDocument, Array.size_push]
    rw [show s.documents.size + 1 + n = s.documents.size + (n + 1) by omega, next]
    exact Nat.add_right_comm _ n 1
  nextView := relocated.nextView
  documentsWithin id present := by
    have wider := s.scope_le_addDocument d
    simp only [Store.addDocument, Array.size_push] at present
    rcases Nat.lt_succ_iff_lt_or_eq.mp present with before | rfl
    · rw [s.document_addDocument_of_lt d before]
      exact (relocated.documentsWithin id before).mono wider
    · rw [show (s.addDocument d).2.document s.documents.size = d from s.document_addDocument d]
      exact within.mono wider
  viewsWithin id present := (relocated.viewsWithin id present).mono (s.scope_le_addDocument d)
  older id present outer isParent := by
    simp only [Store.addDocument, Array.size_push] at present
    rcases Nat.lt_succ_iff_lt_or_eq.mp present with before | rfl
    · rw [s.document_addDocument_of_lt d before] at isParent
      exact relocated.older id before outer isParent
    · rw [show (s.addDocument d).2.document s.documents.size = d from s.document_addDocument d]
        at isParent
      exact within.parent outer isParent

end Relocated

/-! ### Evaluations -/

/-- No value that comes from outside has documents or views in it. -/
structure Evaluation.Environment.IsOutside (environment : Environment) : Prop where
  context : ∀ entry ∈ environment.settings.context, entry.2.IsOutside
  converter : ∀ entries, environment.settings.converter = .table entries →
    ∀ entry ∈ entries, entry.2.IsOutside
  resolver : ∀ entries, environment.settings.resolver = .table entries →
    ∀ entry ∈ entries, entry.2.IsOutside
  modules : ∀ entry ∈ environment.world.registry.modules, entry.2.IsOutside
  builtins : ∀ entry ∈ environment.world.registry.builtins, entry.2.IsOutside

/-- From a scope on, an evaluation in a store and another one in the store that holds all at other
numbers come to the same. -/
def Alike {α : Type} (r : Relocation) (c : Cargo α) (scope : Scope) (e other : Eval α) : Prop :=
  ∀ (environment : Environment) (s t : Store), environment.IsOutside → Relocated r s t →
    scope ≤ s.scope →
      ∃ result left there, e.run environment s = (result, left) ∧
        other.run environment t = (result.map c.relocate, there) ∧ Relocated r left there ∧
        s.scope ≤ left.scope ∧ ∀ a, result = .ok a → c.Within left.scope a

namespace Alike

variable {α β γ : Type} {r : Relocation} {scope : Scope} {c : Cargo α} {d : Cargo β}

theorem mono {wider : Scope} {e other : Eval α} (alike : Alike r c scope e other)
    (le : scope ≤ wider) : Alike r c wider e other :=
  fun environment s t outside relocated reached =>
    alike environment s t outside relocated (le.trans reached)

theorem pure {a : α} (within : c.Within scope a) : Alike r c scope (pure a) (pure (c.relocate a)) :=
  fun environment s t outside relocated reached =>
    ⟨.ok a, s, t, rfl, rfl, relocated, le_rfl, by
      rintro b ⟨⟩
      exact c.mono reached within⟩

/-- What refers to nothing is the same in both stores. -/
theorem plain (a : α) : Alike r .plain scope (Pure.pure a) (Pure.pure a) :=
  @pure _ _ _ .plain a trivial

theorem value {v : Value} (within : v.Within scope) :
    Alike r (.value r) scope (Pure.pure v) (Pure.pure (v.relocate r)) :=
  @pure _ _ _ (.value r) v within

theorem outside {v : Value} (isOutside : v.IsOutside) :
    Alike r (.value r) scope (Pure.pure v) (Pure.pure v) := by
  have alike := @value r scope v (isOutside.within scope)
  rwa [Value.relocate_of_isOutside isOutside] at alike

theorem throw (failure : Failure) : Alike r c scope (throw failure) (throw failure) :=
  fun environment s t outside relocated reached =>
    ⟨.error failure, s, t, rfl, rfl, relocated, le_rfl, by rintro b ⟨⟩⟩

theorem fail (cause : Cause) (location : Option Location) :
    Alike r c scope (fail cause location) (fail cause location) :=
  throw (.error ⟨cause, location⟩)

theorem failHost (fault : HostFault) : Alike r c scope (failHost fault) (failHost fault) :=
  throw (.host fault)

theorem bind {e other : Eval α} {next otherNext : α → Eval β} (alike : Alike r c scope e other)
    (goesOn : ∀ {wider}, scope ≤ wider → ∀ a, c.Within wider a →
      Alike r d wider (next a) (otherNext (c.relocate a))) :
    Alike r d scope (e >>= next) (other >>= otherNext) := by
  intro environment s t outside relocated reached
  obtain ⟨result, left, there, ran, otherRan, after, grown, within⟩ :=
    alike environment s t outside relocated reached
  rw [run_bind, run_bind, ran, otherRan]
  cases result with
  | error failure => exact ⟨.error failure, left, there, rfl, rfl, after, grown, by rintro b ⟨⟩⟩
  | ok a =>
    have further := goesOn (reached.trans grown) a (within a rfl)
    obtain ⟨last, left, there, ran, otherRan, after, more, within⟩ :=
      further environment left there outside after le_rfl
    exact ⟨last, left, there, ran, otherRan, after, grown.trans more, within⟩

theorem tryCatch {e other : Eval α} {handler otherHandler : Failure → Eval α}
    (alike : Alike r c scope e other)
    (handled : ∀ {wider}, scope ≤ wider → ∀ failure,
      Alike r c wider (handler failure) (otherHandler failure)) :
    Alike r c scope (tryCatch e handler) (tryCatch other otherHandler) := by
  intro environment s t outside relocated reached
  obtain ⟨result, left, there, ran, otherRan, after, grown, within⟩ :=
    alike environment s t outside relocated reached
  rw [run_tryCatch, run_tryCatch, ran, otherRan]
  cases result with
  | ok a => exact ⟨.ok a, left, there, rfl, rfl, after, grown, within⟩
  | error failure =>
    obtain ⟨last, left, there, ran, otherRan, after, more, within⟩ :=
      handled (reached.trans grown) failure environment left there outside after le_rfl
    exact ⟨last, left, there, ran, otherRan, after, grown.trans more, within⟩

theorem read {next otherNext : Environment → Eval α}
    (goesOn : ∀ environment : Environment, environment.IsOutside →
      Alike r c scope (next environment) (otherNext environment)) :
    Alike r c scope (read >>= next) (read >>= otherNext) :=
  fun environment s t outside => goesOn environment outside environment s t outside

theorem settings {next otherNext : Settings → Eval α}
    (goesOn : ∀ environment : Environment, environment.IsOutside →
      Alike r c scope (next environment.settings) (otherNext environment.settings)) :
    Alike r c scope (settings >>= next) (settings >>= otherNext) :=
  fun environment s t outside => goesOn environment outside environment s t outside

theorem world {next otherNext : World → Eval α}
    (goesOn : ∀ environment : Environment, environment.IsOutside →
      Alike r c scope (next environment.world) (otherNext environment.world)) :
    Alike r c scope (world >>= next) (world >>= otherNext) :=
  fun environment s t outside => goesOn environment outside environment s t outside

theorem mapM {f other : α → Eval β} {items : List α}
    (each : ∀ {wider}, scope ≤ wider → ∀ a, c.Within wider a →
      Alike r d wider (f a) (other (c.relocate a)))
    (within : ∀ a ∈ items, c.Within scope a) :
    Alike r d.list scope (items.mapM f) ((items.map c.relocate).mapM other) := by
  induction items generalizing scope with
  | nil => exact pure (by simp [Cargo.list])
  | cons a items ih =>
    rw [List.map_cons, List.mapM_cons, List.mapM_cons]
    refine (each le_rfl a (within a (by simp))).bind fun {wider} le b first => ?_
    have rest := ih (fun {widest} more => each (le.trans more))
      (fun a among => c.mono le (within a (by simp [among])))
    refine rest.bind fun {widest} more bs others => pure ?_
    intro b' among
    rcases List.mem_cons.mp among with rfl | among
    · exact d.mono more first
    · exact others b' among

/-- Things that refer to nothing are gone through in both stores. -/
theorem mapM_plain {f other : γ → Eval β} {items : List γ}
    (each : ∀ {wider}, scope ≤ wider → ∀ a, Alike r d wider (f a) (other a)) :
    Alike r d.list scope (items.mapM f) (items.mapM other) := by
  have alike : Alike r d.list scope (items.mapM f)
      ((items.map (Cargo.plain (α := γ)).relocate).mapM other) :=
    mapM (fun le a _ => each le a) (fun _ _ => trivial)
  rwa [show items.map (Cargo.plain (α := γ)).relocate = items from List.map_id items] at alike

theorem foldlM {f other : β → γ → Eval β} {items : List γ} {b : β}
    (each : ∀ {wider}, scope ≤ wider → ∀ b a, d.Within wider b →
      Alike r d wider (f b a) (other (d.relocate b) a)) (within : d.Within scope b) :
    Alike r d scope (items.foldlM f b) (items.foldlM other (d.relocate b)) := by
  induction items generalizing scope b with
  | nil => exact pure within
  | cons a items ih =>
    rw [List.foldlM_cons, List.foldlM_cons]
    exact (each le_rfl b a within).bind fun le b' within =>
      ih (fun more => each (le.trans more)) within

theorem optionMapM {f other : γ → Eval β} (each : ∀ a, Alike r d scope (f a) (other a))
    (item : Option γ) : Alike r d.option scope (item.mapM f) (item.mapM other) := by
  cases item with
  | none => exact @pure _ _ _ d.option none (fun _ isSome => by cases isSome)
  | some a =>
    refine (each a).bind fun le b within => ?_
    exact @pure _ _ _ d.option (some b) (fun b' isSome => Option.some.inj isSome ▸ within)

/-! ### Small steps -/

theorem shown (text : Option String) : Alike r .plain scope (shown text) (shown text) := by
  cases text with
  | none => exact failHost _
  | some text => exact plain text

theorem document {id : DocumentId} (inside : id < scope.documents) :
    Alike r (.content r) scope (document id) (document (r.document id)) := by
  intro environment s t outside relocated reached
  have present := Nat.lt_of_lt_of_le inside reached.1
  refine ⟨.ok (s.document id), s, t, rfl, ?_, relocated, le_rfl, ?_⟩
  · rw [run_document, (relocated.documents id present).2]
    rfl
  · rintro d ⟨⟩
    exact relocated.documentsWithin id present

theorem viewOwner {id : ViewId} (inside : id < scope.views) :
    Alike r (.document r) scope (viewOwner id) (viewOwner (r.view id)) := by
  intro environment s t outside relocated reached
  have present := Nat.lt_of_lt_of_le inside reached.2
  refine ⟨.ok (s.view id).owner, s, t, rfl, ?_, relocated, le_rfl, ?_⟩
  · rw [run_viewOwner, (relocated.views id present).2]
    cases s.view id <;> rfl
  · rintro owner ⟨⟩
    have within := relocated.viewsWithin id present
    cases isView : s.view id with
    | list owner slots =>
      rw [isView] at within
      exact within.1
    | mapping owner entries =>
      rw [isView] at within
      exact within.1

theorem slots {id : ViewId} (inside : id < scope.views) :
    Alike r (Cargo.slot r).list scope (slots id) (slots (r.view id)) := by
  intro environment s t outside relocated reached
  have present := Nat.lt_of_lt_of_le inside reached.2
  have same := (relocated.views id present).2
  have within := relocated.viewsWithin id present
  cases isView : s.view id with
  | list owner slots =>
    rw [isView] at same within
    refine ⟨.ok slots, s, t, run_slots isView, run_slots same, relocated, le_rfl, ?_⟩
    rintro items ⟨⟩
    exact within.2
  | mapping owner entries =>
    rw [isView] at same
    refine ⟨.ok [], s, t, ?_, ?_, relocated, le_rfl, ?_⟩
    · simp only [Eval.slots, run_bind, run_get, isView, run_pure]
    · simp only [Eval.slots, run_bind, run_get, same, View.relocate, run_pure]
      rfl
    · rintro items ⟨⟩ slot among
      cases among

theorem entries {id : ViewId} (inside : id < scope.views) :
    Alike r (Cargo.slot r).entries scope (entries id) (entries (r.view id)) := by
  intro environment s t outside relocated reached
  have present := Nat.lt_of_lt_of_le inside reached.2
  have same := (relocated.views id present).2
  have within := relocated.viewsWithin id present
  cases isView : s.view id with
  | mapping owner entries =>
    rw [isView] at same within
    refine ⟨.ok entries, s, t, run_entries isView, run_entries same, relocated, le_rfl, ?_⟩
    rintro items ⟨⟩
    exact within.2
  | list owner slots =>
    rw [isView] at same
    refine ⟨.ok [], s, t, ?_, ?_, relocated, le_rfl, ?_⟩
    · simp only [Eval.entries, run_bind, run_get, isView, run_pure]
    · simp only [Eval.entries, run_bind, run_get, same, View.relocate, run_pure]
      rfl
    · rintro items ⟨⟩ entry among
      cases among

theorem fresh : Alike r .plain scope fresh fresh := by
  intro environment s t outside relocated reached
  refine ⟨.ok s.serial, s.fresh.2, t.fresh.2, rfl, ?_, relocated.fresh, le_rfl, fun _ _ => trivial⟩
  rw [run_fresh, relocated.serial]
  rfl

theorem freshMark : Alike r .plain scope freshMark freshMark :=
  fresh.bind fun _ serial _ => plain (Mark.made serial)

theorem newNumber (n : Number) : Alike r (.value r) scope (newNumber n) (newNumber n) :=
  freshMark.bind fun _ mark _ => @value _ _ (.number n mark) trivial

theorem newText (text : String) : Alike r (.value r) scope (newText text) (newText text) :=
  freshMark.bind fun _ mark _ => @value _ _ (.text text (.ofText text mark)) trivial

theorem joinedText (text : String) :
    Alike r (.value r) scope (joinedText text) (joinedText text) :=
  freshMark.bind fun _ mark _ => @value _ _ (.text text (.ofAssembled text mark)) trivial

theorem newList {items : List Value} (within : ∀ v ∈ items, v.Within scope) :
    Alike r (.value r) scope (newList items) (newList ((Cargo.value r).list.relocate items)) := by
  refine freshMark.bind fun {wider} le mark _ => ?_
  have alike := @value r wider (.list items mark)
    (Value.within_list.mpr fun v among => (within v among).mono le)
  rwa [Value.relocate_list] at alike

theorem newDict {entries : List (String × Value)}
    (within : ∀ entry ∈ entries, True ∧ entry.2.Within scope) :
    Alike r (.value r) scope (newDict entries)
      (newDict ((Cargo.value r).entries.relocate entries)) := by
  refine freshMark.bind fun {wider} le mark _ => ?_
  have alike := @value r wider (.dict entries mark)
    (Value.within_dict.mpr fun entry among => ⟨trivial, (within entry among).2.mono le⟩)
  rwa [Value.relocate_dict] at alike

theorem addView {v : View} (within : v.Within scope) :
    Alike r (.view r) scope (addView v) (addView (v.relocate r)) := by
  intro environment s t outside relocated reached
  refine ⟨.ok s.views.size, (s.addView v).2, (t.addView (v.relocate r)).2, rfl, ?_,
    relocated.addView (within.mono reached), s.scope_le_addView v, ?_⟩
  · have here : r.view s.views.size = t.views.size := relocated.nextView 0
    rw [run_addView, ← here]
    rfl
  · rintro id ⟨⟩
    simp [Cargo.view, Store.scope, Store.addView]

theorem setSlot {id : ViewId} (index : Nat) {value : Value} (inside : id < scope.views)
    (within : value.Within scope) :
    Alike r .plain scope (setSlot id index value)
      (setSlot (r.view id) index (value.relocate r)) := by
  intro environment s t outside relocated reached
  have present := Nat.lt_of_lt_of_le inside reached.2
  have same := (relocated.views id present).2
  have all := relocated.viewsWithin id present
  cases isView : s.view id with
  | mapping owner entries =>
    rw [isView] at same
    refine ⟨.ok (), s, t, ?_, ?_, relocated, le_rfl, fun _ _ => trivial⟩
    · simp only [Eval.setSlot, run_bind, run_get, isView, run_pure]
    · simp only [Eval.setSlot, run_bind, run_get, same, View.relocate, run_pure]
      rfl
  | list owner slots =>
    rw [isView] at same all
    have kept : (View.list owner (slots.set index (.value value))).Within s.scope := by
      refine ⟨all.1, fun slot among => ?_⟩
      rcases List.mem_or_eq_of_mem_set among with before | rfl
      · exact all.2 slot before
      · exact within.mono reached
    refine ⟨.ok (), _, _, run_setSlot isView, ?_, relocated.setView present kept,
      (s.scope_setView id _).ge, fun _ _ => trivial⟩
    rw [run_setSlot same]
    simp [View.relocate, Cargo.list, Cargo.slot, List.map_set, Slot.relocate]
    rfl

/-- A change of a document that keeps its place. -/
theorem modifyDocument {id : DocumentId} {f other : Document → Document}
    (inside : id < scope.documents) (same : ∀ d, other (d.relocate r) = (f d).relocate r)
    (within : ∀ {wider}, scope ≤ wider → ∀ d, d.Within wider → (f d).Within wider)
    (parent : ∀ d, (f d).parent = d.parent) :
    Alike r .plain scope (modifyDocument id f) (modifyDocument (r.document id) other) := by
  intro environment s t outside relocated reached
  have present := Nat.lt_of_lt_of_le inside reached.1
  refine ⟨.ok (), _, _, run_modifyDocument id f, ?_,
    relocated.setDocument present (within reached _ (relocated.documentsWithin id present))
      (parent _), (s.scope_setDocument id _).ge, fun _ _ => trivial⟩
  rw [run_modifyDocument, (relocated.documents id present).2, same]
  rfl

theorem addDocument {d : Document} (within : d.Within scope) :
    Alike r (.document r) scope (addDocument d) (addDocument (d.relocate r)) := by
  intro environment s t outside relocated reached
  refine ⟨.ok s.documents.size, (s.addDocument d).2, (t.addDocument (d.relocate r)).2, rfl, ?_,
    relocated.addDocument (within.mono reached), s.scope_le_addDocument d, ?_⟩
  · have here : r.document s.documents.size = t.documents.size := relocated.nextDocument 0
    change (Except.ok t.documents.size, (t.addDocument (d.relocate r)).2) = _
    rw [← here]
    rfl
  · rintro id ⟨⟩
    simp [Cargo.document, Store.scope, Store.addDocument]

/-- A last change of a document is made whether the evaluation fails or not. -/
theorem andFinally {e otherE : Eval α} {id : DocumentId} {f other : Document → Document}
    (alike : Alike r c scope e otherE) (inside : id < scope.documents)
    (same : ∀ d, other (d.relocate r) = (f d).relocate r)
    (within : ∀ {wider}, scope ≤ wider → ∀ d, d.Within wider → (f d).Within wider)
    (parent : ∀ d, (f d).parent = d.parent) :
    Alike r c scope (andFinally e (Eval.modifyDocument id f))
      (andFinally otherE (Eval.modifyDocument (r.document id) other)) := by
  intro environment s t outside relocated reached
  obtain ⟨result, left, there, ran, otherRan, after, grown, kept⟩ :=
    alike environment s t outside relocated reached
  have present := Nat.lt_of_lt_of_le inside (reached.trans grown).1
  refine ⟨result, left.setDocument id (f (left.document id)), _, ?_, ?_,
    after.setDocument present (within (reached.trans grown) _ (after.documentsWithin id present))
      (parent _), ?_, ?_⟩
  · rw [Eval.modifyDocument, run_andFinally, ran]
  · rw [Eval.modifyDocument, run_andFinally, otherRan]
    simp only [(after.documents id present).2, same]
  · rw [Store.scope_setDocument]
    exact grown
  · rw [Store.scope_setDocument]
    exact kept

end Alike

end LazyConfig
