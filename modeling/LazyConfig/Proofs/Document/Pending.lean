import LazyConfig.Proofs.Document.History

/-!
# Pending references and conversions

A reference is pending while it is resolved, and a text is being converted while its conversion is
under way. Whichever operation comes next, and whether it fails or not, afterwards the same
references are pending and the same texts are being converted as before: none, if all began with a
store without documents.
-/

namespace LazyConfig

open Evaluation

/-- In every document the same references are pending, and the same texts are being converted. -/
def SameMarks (s left : Store) : Prop :=
  ∀ id, (left.document id).pending = (s.document id).pending ∧
    (left.document id).converting = (s.document id).converting

namespace SameMarks

variable {files : FileTree} {s middle left : Store} {id : DocumentId}

theorem refl (s : Store) : SameMarks s s := fun _ => ⟨rfl, rfl⟩

theorem trans (first : SameMarks s middle) (second : SameMarks middle left) : SameMarks s left :=
  fun id => ⟨(second id).1.trans (first id).1, (second id).2.trans (first id).2⟩

theorem setDocument {d : Document} (pending : d.pending = (s.document id).pending)
    (converting : d.converting = (s.document id).converting) :
    SameMarks s (s.setDocument id d) := by
  intro other
  rcases s.document_setDocument_or d id other with ⟨same, rfl, -⟩ | same <;> rw [same]
  · exact ⟨pending, converting⟩
  · exact ⟨rfl, rfl⟩

/-- A new document has no marks, as little as one that is not there. -/
theorem addDocument {d : Document} (pending : d.pending = []) (converting : d.converting = []) :
    SameMarks s (s.addDocument d).2 := by
  intro other
  rcases s.document_addDocument_or d other with ⟨same, rfl⟩ | same <;> rw [same]
  · have absent : s.document s.documents.size = default := by simp [Store.document]
    rw [absent]
    exact ⟨pending, converting⟩
  · exact ⟨rfl, rfl⟩

/-- What is marked before something is done, and unmarked behind it. -/
theorem bracket {marked unmarked : Document} (kept : s.documents.size ≤ left.documents.size)
    (inner : SameMarks (s.setDocument id marked) left)
    (pending : unmarked.pending = (s.document id).pending)
    (converting : unmarked.converting = (s.document id).converting) :
    SameMarks s (left.setDocument id unmarked) := by
  intro other
  by_cases same : id = other
  · subst same
    by_cases present : id < left.documents.size
    · rw [left.document_setDocument _ present]
      exact ⟨pending, converting⟩
    · -- there has been no document that could have been marked
      have absent : ¬id < s.documents.size := fun before => present (before.trans_le kept)
      have unchanged : (left.setDocument id unmarked).document id = left.document id := by
        simp [Store.document, Store.setDocument, present]
      have unmarked : (s.setDocument id marked).document id = s.document id := by
        simp [Store.document, Store.setDocument, absent]
      rw [unchanged, ← unmarked]
      exact inner id
  · rw [left.document_setDocument_of_ne _ same, ← s.document_setDocument_of_ne marked same]
    exact inner other

end SameMarks

variable {files : FileTree} {s left : Store}

/-- What an evaluation marks it unmarks, too. -/
theorem Evolves.sameMarks (evolves : Evolves files s left) : SameMarks s left := by
  -- the induction hypothesis of a bracket is about the store in which its mark is set
  induction evolves with
  | refl s => exact .refl s
  | trans _ _ first second => exact first.trans second
  | counted s => exact fun _ => ⟨rfl, rfl⟩
  | view s v => exact fun _ => ⟨rfl, rfl⟩
  | filled id index v unread inner ih => exact ih
  | data s id root cache views => exact .setDocument rfl rfl
  | included id isFile located outside => exact .addDocument rfl rfl
  | @resolving s left id p new inner ih =>
    have kept : s.documents.size ≤ left.documents.size := by
      simpa [Store.setDocument] using inner.size_le
    have others : (s.document id).pending.filter (·.site ≠ p.site) = (s.document id).pending :=
      List.filter_eq_self.mpr fun other among => by simpa using new other among
    obtain ⟨pending, converting⟩ := ih id
    apply ih.bracket kept
    · -- a document that is not there has not been marked either
      rw [Document.resolved, pending]
      rcases s.document_setDocument_or _ id id with ⟨same, -, -⟩ | same <;> rw [same]
      · simp only [Document.resolving]
        rw [List.filter_cons_of_neg (by simp)]
        exact others
      · exact others
    · refine converting.trans ?_
      rcases s.document_setDocument_or _ id id with ⟨same, -, -⟩ | same <;> rw [same]
      rfl
  | @converting s left id text new inner ih =>
    have kept : s.documents.size ≤ left.documents.size := by
      simpa [Store.setDocument] using inner.size_le
    have others : (s.document id).converting.filter (· ≠ text) = (s.document id).converting :=
      List.filter_eq_self.mpr fun other among => by
        have differ : other ≠ text := fun same => new (same ▸ among)
        simpa using differ
    obtain ⟨pending, converting⟩ := ih id
    apply ih.bracket kept
    · refine pending.trans ?_
      rcases s.document_setDocument_or _ id id with ⟨same, -, -⟩ | same <;> rw [same]
      rfl
    · rw [Document.converted, converting]
      rcases s.document_setDocument_or _ id id with ⟨same, -, -⟩ | same <;> rw [same]
      · simp only [Document.converts]
        rw [List.filter_cons_of_neg (by simp)]
        exact others
      · exact others

theorem Loads.sameMarks {id : DocumentId} (loads : Loads files id s left) : SameMarks s left := by
  cases loads with
  | inPlace evolves => exact evolves.sameMarks
  | @placed middle name isFile first second =>
    have moved : SameMarks middle (middle.setDocument id
        ((middle.document id).atFile files (middle.outerChain id) name)) :=
      .setDocument rfl rfl
    exact (first.sameMarks.trans moved).trans second.sameMarks

theorem Operation.sameMarks_step (operation : Operation) (environment : Environment) (s : Store) :
    SameMarks s (operation.step environment s) := by
  cases operation.operates environment s with
  | evolves evolves => exact evolves.sameMarks
  | creates caching isCreate same =>
    rw [same]
    exact .addDocument rfl rfl
  | loads id isLoad loads => exact loads.sameMarks

/-- Between two operations nothing is pending. -/
theorem Store.unmarked_after (history : List (Environment × Operation)) (id : DocumentId) :
    ((({} : Store).after history).document id).pending = [] ∧
      ((({} : Store).after history).document id).converting = [] :=
  Store.after_related SameMarks.refl SameMarks.trans Operation.sameMarks_step history {} id

/-- An operation leaves the references that are pending and the texts that are being converted as
they were before it, whether it fails or not. So whatever has been done before, no operation finds
one that an earlier one has left behind. -/
theorem nothing_left_pending :
    (∀ (operation : Operation) (environment : Environment) (s : Store),
      SameMarks s ((operation.perform.run environment s).2)) ∧
    ∀ (history : List (Environment × Operation)) (id : DocumentId),
      ((({} : Store).after history).document id).pending = [] ∧
        ((({} : Store).after history).document id).converting = [] :=
  ⟨Operation.sameMarks_step, Store.unmarked_after⟩

end LazyConfig
