import LazyConfig.Proofs.Evaluation.Steps
import LazyConfig.Proofs.Resolution.Meaning
import Mathlib.Data.List.Forall2

/-!
# Stores of plain documents

A store is consistent with the tree of a document if each view in it has a meaning, and each value
that a slot holds is the one that the tree in this slot means. Making a view, keeping a value and
giving out numbers keep a store consistent.
-/

namespace LazyConfig.Resolution

open Evaluation (Environment collectEntries mem_collectEntries)
open Trace (Ends)

/-- A document whose tree is plain. The entries are those of the view of its root. -/
structure PlainDocument where
  environment : Environment
  id : DocumentId
  source : Nat
  tree : Node
  entries : List (String × Slot)
  sited : tree.Sited
  located : ∀ location part, (location, part) ∈ tree.sites →
    part.site? = some ⟨source, location⟩
  nodes : ∀ entry ∈ entries, ∃ n, entry.2 = .node n ∧ n.isPlain ∧ n.sites ⊆ tree.sites

namespace PlainDocument

variable (d : PlainDocument)

/-- A plain tree inside the tree of the document. -/
structure Part (n : Node) : Prop where
  plain : n.isPlain
  sites : n.sites ⊆ d.tree.sites

def meaning (depth : Nat) (n : Node) : Trace Meaning :=
  Meaning.within d.environment.settings.noDuplicates d.entries depth n

/-- The trees in the slots of a mapping. -/
def Entries (entries : List (String × Slot)) : Prop :=
  ∀ entry ∈ entries, ∃ n, entry.2 = .node n ∧ d.Part n

variable {d}

theorem part_element {elements : List Node} {span : Span} (whole : d.Part (.list elements span))
    {n : Node} (among : n ∈ elements) : d.Part n where
  plain := Node.allPlain_iff.mp whole.plain n among
  sites site inside := whole.sites (by
    rw [Node.sites, Node.allSites_eq]
    exact List.mem_cons_of_mem _ (List.mem_flatMap.mpr ⟨n, among, inside⟩))

theorem part_entry {entries : List (Token × Node)} {span : Span}
    (whole : d.Part (.mapping entries span)) {entry : Token × Node} (among : entry ∈ entries) :
    d.Part entry.2 where
  plain := Node.entriesPlain_iff.mp whole.plain entry among
  sites site inside := whole.sites (by
    rw [Node.sites, Node.entriesSites_eq]
    exact List.mem_cons_of_mem _ (List.mem_flatMap.mpr ⟨entry, among, inside⟩))

theorem entries_collectEntries {unique : Bool} {entries : List (Token × Node)} {span : Span}
    {found : List (String × Slot)} (whole : d.Part (.mapping entries span))
    (collected : collectEntries unique [] [] entries = .ok found) : d.Entries found := by
  intro entry among
  rcases mem_collectEntries collected among with none | ⟨e, inside, same⟩
  · simp at none
  · exact ⟨e.2, same, part_entry whole inside⟩

/-- Two parts of a document that are known by the same place are the same. -/
theorem eq_of_site {a b : Node} {site : Site} (first : d.Part a) (second : d.Part b)
    (isFirst : a.site? = some site) (isSecond : b.site? = some site) : a = b := by
  have here {n : Node} (part : d.Part n) (isSite : n.site? = some site) :
      (site.location, n) ∈ d.tree.sites := by
    refine part.sites ?_
    cases n <;> simp [Node.site?] at isSite <;> subst isSite <;> simp [Node.sites]
  exact d.sited.unique (here first isFirst) (here second isSecond)

end PlainDocument

/-! ### Views and what they mean -/

/-- A value has a meaning: that of its view, or its own. The list has the meanings of the views. -/
def Denotes (views : List Meaning) (v : Value) (m : Meaning) : Prop :=
  match v with
  | .listView id => views[id]? = some m ∧ m.cells.isSome
  | .mappingView id => ∃ entries, m = .mapping entries ∧ views[id]? = some m
  | .document _ => False
  | v => m = .scalar v

variable (d : PlainDocument)

/-- A slot of a list holds the tree that stands there, or a value that has its meaning. -/
def SlotFits (views : List Meaning) : Slot → Node ⊕ Meaning → Prop
  | .node node, .inl n => node = n ∧ d.Part n
  | .value v, .inl n => d.Part n ∧ ∃ m, Ends (d.meaning · n) (.done m) ∧ Denotes views v m
  | .value v, .inr m => Denotes views v m
  | .node _, .inr _ => False

/-- A view has a meaning. -/
def ViewFits (views : List Meaning) (view : View) : Meaning → Prop
  | .mapping entries => view = .mapping d.id entries ∧ d.Entries entries
  | .list elements =>
    ∃ slots, view = .list d.id slots ∧
      List.Forall₂ (SlotFits d views) slots (elements.map .inl)
  | .part items =>
    ∃ slots, view = .list d.id slots ∧ List.Forall₂ (SlotFits d views) slots (items.map .inr)
  | .scalar _ => False

/-- What a container means without looking into it. -/
def PlainDocument.container (n : Node) : Trace Meaning :=
  Meaning.ofNode d.environment.settings.noDuplicates (fun _ => .failed) n

/-- A store in which all views are views of the document, with the given meanings. -/
structure Consistent (kept : List Pending → Prop) (views : List Meaning) (s : Store) : Prop where
  present : d.id < s.documents.size
  pending : kept (s.document d.id).pending
  size : views.length = s.views.size
  fits : ∀ v m, views[v]? = some m → ViewFits d views (s.view v) m
  root : ∃ v, (s.document d.id).root = some v ∧ views[v]? = some (.mapping d.entries)
  known : ∀ site v, (s.document d.id).views.lookup site = some v →
    ∀ n, d.Part n → n.site? = some site → (∀ path sigil, n ≠ .reference path sigil) →
      ∃ m, views[v]? = some m ∧ d.container n = .done m


variable {d} {kept : List Pending → Prop} {views more : List Meaning} {s : Store}

theorem getElem?_of_longer {α : Type} {first whole : List α} {i : Nat} {a : α}
    (longer : first <+: whole) (found : first[i]? = some a) : whole[i]? = some a := by
  obtain ⟨rest, rfl⟩ := longer
  rw [List.getElem?_append_left (List.getElem?_eq_some_iff.mp found).1]
  exact found

theorem Denotes.mono {v : Value} {m : Meaning} (denotes : Denotes views v m)
    (longer : views <+: more) : Denotes more v m := by
  cases v <;> simp only [Denotes] at denotes ⊢ <;> try exact denotes
  case listView id => exact ⟨getElem?_of_longer longer denotes.1, denotes.2⟩
  case mappingView id =>
    obtain ⟨entries, same, found⟩ := denotes
    exact ⟨entries, same, getElem?_of_longer longer found⟩

/-- Where containers do not count, a value counts for itself. -/
theorem Denotes.eq_scalar {v : Value} {m : Meaning} {α : Type} {f : Meaning → α} {other : α}
    (denotes : Denotes views v m) (list : ∀ n : Meaning, n.cells.isSome → f n = other)
    (mapping : ∀ entries, f (.mapping entries) = other)
    (view : ∀ id, f (.scalar (.listView id)) = other ∧ f (.scalar (.mappingView id)) = other) :
    f m = f (.scalar v) := by
  cases v <;> simp only [Denotes] at denotes <;> try rw [denotes]
  case listView id => rw [list m denotes.2, (view id).1]
  case mappingView id =>
    obtain ⟨entries, rfl, -⟩ := denotes
    rw [mapping entries, (view id).2]

theorem Denotes.integer_eq {v : Value} {m : Meaning} (denotes : Denotes views v m) :
    m.integer = (Meaning.scalar v).integer :=
  denotes.eq_scalar (fun n isList => by cases n <;> simp_all [Meaning.cells, Meaning.integer])
    (fun _ => rfl) fun _ => ⟨rfl, rfl⟩

theorem Denotes.item_eq {v : Value} {m of : Meaning} {ask : Node → Trace Meaning}
    (denotes : Denotes views v m) : of.item ask m = of.item ask (.scalar v) :=
  denotes.eq_scalar (f := of.item ask)
    (fun n isList => by cases n <;> simp_all [Meaning.cells, Meaning.item])
    (fun _ => rfl) fun _ => ⟨rfl, rfl⟩

theorem SlotFits.mono {slot : Slot} {cell : Node ⊕ Meaning} (fits : SlotFits d views slot cell)
    (longer : views <+: more) : SlotFits d more slot cell := by
  cases slot <;> cases cell <;> simp only [SlotFits] at fits ⊢
  · exact fits
  · obtain ⟨part, m, ends, denotes⟩ := fits
    exact ⟨part, m, ends, denotes.mono longer⟩
  · exact fits.mono longer

theorem ViewFits.mono {view : View} {m : Meaning} (fits : ViewFits d views view m)
    (longer : views <+: more) : ViewFits d more view m := by
  have slots {slots : List Slot} {cells : List (Node ⊕ Meaning)}
      (fit : List.Forall₂ (SlotFits d views) slots cells) :
      List.Forall₂ (SlotFits d more) slots cells :=
    fit.imp (fun _ _ fits => fits.mono longer)
  cases m with
  | scalar => exact fits
  | mapping => exact fits
  | list elements =>
    obtain ⟨items, same, fit⟩ := fits
    exact ⟨items, same, slots fit⟩
  | part items =>
    obtain ⟨items, same, fit⟩ := fits
    exact ⟨items, same, slots fit⟩

/-- The view of a list, and what stands in its slots. -/
theorem ViewFits.slots {view : View} {m : Meaning} {cells : List (Node ⊕ Meaning)}
    (fits : ViewFits d views view m) (isList : m.cells = some cells) :
    ∃ slots, view = .list d.id slots ∧ List.Forall₂ (SlotFits d views) slots cells := by
  cases m <;> simp only [Meaning.cells, Option.some.injEq, reduceCtorEq] at isList <;>
    subst isList <;> exact fits

theorem viewFits_of_slots {slots : List Slot} {m : Meaning} {cells : List (Node ⊕ Meaning)}
    (isList : m.cells = some cells) (fit : List.Forall₂ (SlotFits d views) slots cells) :
    ViewFits d views (.list d.id slots) m := by
  cases m <;> simp only [Meaning.cells, Option.some.injEq, reduceCtorEq] at isList <;>
    subst isList <;> exact ⟨slots, rfl, fit⟩

namespace Consistent

/-! ### Changes of the store -/

theorem lt_of_view {v : ViewId} {m : Meaning} (steady : Consistent d kept views s)
    (found : views[v]? = some m) : v < s.views.size :=
  steady.size ▸ (List.getElem?_eq_some_iff.mp found).1

/-- Numbers are given out. -/
theorem fresh (steady : Consistent d kept views s) : Consistent d kept views s.fresh.2 := by
  obtain ⟨present, pending, size, fits, root, known⟩ := steady
  exact ⟨present, pending, size, fits, root, known⟩

/-- Other references are pending. -/
theorem setPending {other : List Pending → Prop} {pending : List Pending}
    (steady : Consistent d kept views s) (holds : other pending) :
    Consistent d other views
      (s.setDocument d.id { s.document d.id with pending := pending }) := by
  have same := s.document_setDocument { s.document d.id with pending := pending } steady.present
  exact
    { present := by simpa [Store.setDocument] using steady.present
      pending := by simpa only [same] using holds
      size := steady.size
      fits := steady.fits
      root := by simpa only [same] using steady.root
      known := by simpa only [same] using steady.known }

/-- A new view with a meaning. -/
theorem addView {view : View} {m : Meaning} (steady : Consistent d kept views s)
    (fit : ViewFits d views view m) : Consistent d kept (views ++ [m]) (s.addView view).2 where
  present := steady.present
  pending := steady.pending
  size := by simp [Store.addView, steady.size]
  fits v other found := by
    have longer : views <+: views ++ [m] := List.prefix_append views [m]
    rw [List.getElem?_append] at found
    split at found
    case isTrue inside =>
      rw [s.view_addView_of_lt view (steady.size ▸ inside)]
      exact (steady.fits v other found).mono longer
    case isFalse outside =>
      obtain rfl : v = views.length := by
        have last : v - views.length = 0 :=
          Nat.lt_one_iff.mp (List.getElem?_eq_some_iff.mp found).1
        exact le_antisymm (Nat.sub_eq_zero_iff_le.mp last) (not_lt.mp outside)
      obtain rfl : m = other := by simpa using found
      rw [steady.size, show s.views.size = (s.addView view).1 from rfl, s.view_addView]
      exact fit.mono longer
  root := by
    obtain ⟨v, isRoot, found⟩ := steady.root
    exact ⟨v, isRoot, getElem?_of_longer (List.prefix_append views [m]) found⟩
  known site v isView n part isSite container := by
    obtain ⟨other, found, means⟩ := steady.known site v isView n part isSite container
    exact ⟨other, getElem?_of_longer (List.prefix_append views [m]) found, means⟩

/-- The view of a container of the text is the one that is shared from then on. -/
theorem share {site : Site} {v : ViewId} {m : Meaning} {n : Node}
    (steady : Consistent d kept views s) (found : views[v]? = some m) (part : d.Part n)
    (isSite : n.site? = some site) (means : d.container n = .done m) :
    Consistent d kept views (s.setDocument d.id
      { s.document d.id with views := (site, v) :: (s.document d.id).views }) := by
  have same := s.document_setDocument
    { s.document d.id with views := (site, v) :: (s.document d.id).views } steady.present
  exact
    { present := by simpa [Store.setDocument] using steady.present
      pending := by simpa only [same] using steady.pending
      size := steady.size
      fits := steady.fits
      root := by simpa only [same] using steady.root
      known := by
        intro other w isView o otherPart isOther container
        rw [same, List.lookup_cons] at isView
        split at isView
        case h_1 here =>
          obtain rfl : other = site := by simpa using here
          cases isView
          obtain rfl := PlainDocument.eq_of_site part otherPart isSite isOther
          exact ⟨m, found, means⟩
        case h_2 =>
          exact steady.known other w isView o otherPart isOther container }

/-- A slot of a list keeps a value that has the meaning of what stands there. -/
theorem setSlot {v : ViewId} {m : Meaning} {cells : List (Node ⊕ Meaning)} {slots : List Slot}
    {index : Nat} {value : Value} {cell : Node ⊕ Meaning} (steady : Consistent d kept views s)
    (found : views[v]? = some m) (isList : m.cells = some cells)
    (isView : s.view v = .list d.id slots) (isCell : cells[index]? = some cell)
    (fit : SlotFits d views (.value value) cell) :
    Consistent d kept views (s.setView v (.list d.id (slots.set index (.value value)))) where
  present := steady.present
  pending := steady.pending
  size := by simpa [Store.setView] using steady.size
  fits w other isMeaning := by
    by_cases same : v = w
    · subst same
      rw [s.view_setView _ (steady.lt_of_view found)]
      obtain rfl : m = other := by simpa [found] using isMeaning
      obtain ⟨present, shown, fits⟩ := (steady.fits v m found).slots isList
      obtain rfl : slots = present := by simpa [isView] using shown
      refine viewFits_of_slots isList ?_
      rw [List.forall₂_iff_get] at fits ⊢
      refine ⟨by simpa using fits.1, fun i inSlots inCells => ?_⟩
      simp only [List.get_eq_getElem, List.getElem_set]
      split
      case isTrue here =>
        subst here
        obtain ⟨inside, isCell⟩ := List.getElem?_eq_some_iff.mp isCell
        exact isCell ▸ fit
      case isFalse =>
        exact fits.2 i (by simpa using inSlots) inCells
    · rw [s.view_setView_of_ne _ same]
      exact steady.fits w other isMeaning
  root := steady.root
  known := steady.known

end Consistent

end LazyConfig.Resolution
