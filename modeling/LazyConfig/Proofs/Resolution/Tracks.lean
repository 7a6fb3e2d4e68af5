import LazyConfig.Proofs.Evaluation.Describe
import LazyConfig.Proofs.Evaluation.Run
import LazyConfig.Proofs.Resolution.Consistent

/-!
# Evaluations of plain documents

An evaluation in a plain document tracks what is traced if it keeps the store consistent and has the
value that the trace ends in, or fails where the trace does. Apart from that it can break off because
of a circle or for lack of depth; what this says about the trace is left open here.
-/

namespace LazyConfig.Evaluation.Failure

/-- A reference or a conversion leads back to itself. -/
def IsCircular (f : Failure) : Prop := ∃ e, f = .error e ∧ e.category = .circular

/-- The failure is neither due to a circle nor to a lack of depth. -/
def IsFinal (f : Failure) : Prop := f ≠ .exhausted ∧ ¬f.IsCircular

theorem isFinal_host (fault : HostFault) : (host fault).IsFinal :=
  ⟨by simp, by rintro ⟨e, same, -⟩; cases same⟩

theorem isFinal_error {e : Error} (other : e.category ≠ .circular) : (error e).IsFinal :=
  ⟨by simp, by rintro ⟨e, same, circular⟩; cases same; exact other circular⟩

end LazyConfig.Evaluation.Failure

namespace LazyConfig.Resolution

open Eval
open Evaluation (Failure Cause HostFault Category Shows describe)
open Trace (Ends)

/-- Under which conditions evaluations break off: which references are pending, what holds if the
depth does not suffice, whether circles are looked for, and what holds at each depth at which
something on a circle is traced. -/
structure Limits where
  kept : List Pending → Prop
  short : Prop
  checked : Prop
  held : Nat → Prop

variable {α β γ δ : Type}

/-- A result agrees with what is traced. -/
def Agrees (limits : Limits) (views : List Meaning) (rel : List Meaning → α → β → Prop)
    (course : Nat → Trace β) : Except Failure α → Prop
  | .ok a => ∃ b, rel views a b ∧ Ends course (.done b)
  | .error f =>
    (f = .exhausted ∧ limits.short) ∨
      (f.IsCircular ∧ limits.checked ∧
        ∀ depth, course depth ≠ .unfinished → limits.held depth) ∨
      (f.IsFinal ∧ Ends course .failed)

/-- An evaluation keeps the store consistent, and its result agrees with what is traced. If it does
not break off, another evaluation has the same result and leaves the same store. -/
structure Tracks (d : PlainDocument) (limits : Limits) (views : List Meaning) (s : Store)
    (e other : Eval α) (rel : List Meaning → α → β → Prop) (course : Nat → Trace β) : Prop where
  agrees : ∃ more, views <+: more ∧ Consistent d limits.kept more (e.run d.environment s).2 ∧
    Agrees limits more rel course (e.run d.environment s).1
  mirrors : (∀ f, (e.run d.environment s).1 = .error f → f.IsFinal) →
    other.run d.environment s = e.run d.environment s

variable {d : PlainDocument} {limits : Limits} {views : List Meaning} {s : Store}
  {rel : List Meaning → α → β → Prop} {after : List Meaning → γ → δ → Prop}
  {course : Nat → Trace β}

theorem tracks_pure {a : α} {b : β} (steady : Consistent d limits.kept views s)
    (holds : rel views a b) (ends : Ends course (.done b)) :
    Tracks d limits views s (pure a) (pure a) rel course :=
  ⟨⟨views, List.prefix_rfl, steady, b, holds, ends⟩, fun _ => rfl⟩

theorem tracks_of_failed {e : Eval α} {f : Failure} (steady : Consistent d limits.kept views s)
    (ran : e.run d.environment s = (.error f, s)) (final : f.IsFinal)
    (ends : Ends course .failed) : Tracks d limits views s e e rel course := by
  refine ⟨⟨views, List.prefix_rfl, ?_, ?_⟩, fun _ => rfl⟩
  · rw [ran]
    exact steady
  · rw [ran]
    exact .inr (.inr ⟨final, ends⟩)

theorem tracks_fail {cause : Cause} {location : Option Location}
    (steady : Consistent d limits.kept views s) (other : cause.category ≠ .circular)
    (ends : Ends course .failed) :
    Tracks d limits views s (fail cause location) (fail cause location) rel course :=
  tracks_of_failed steady (run_fail ..) (Failure.isFinal_error other) ends

theorem tracks_failHost {fault : HostFault} (steady : Consistent d limits.kept views s)
    (ends : Ends course .failed) :
    Tracks d limits views s (failHost fault) (failHost fault) rel course :=
  tracks_of_failed steady (run_failHost ..) (Failure.isFinal_host fault) ends

/-- A failure that shows something first. -/
theorem tracks_fail_shown {shown : Eval String} {c : String → Cause}
    {location : Option Location} (steady : Consistent d limits.kept views s)
    (shows : Shows d.environment s shown) (other : ∀ text, (c text).category ≠ .circular)
    (ends : Ends course .failed) :
    Tracks d limits views s (do fail (c (← shown)) location)
      (do fail (c (← shown)) location) rel course := by
  rcases shows with ⟨text, ran⟩ | ran
  · refine tracks_of_failed steady (by rw [run_bind, ran]; rfl)
      (Failure.isFinal_error (e := ⟨c text, location⟩) (other text)) ends
  · exact tracks_of_failed steady (by rw [run_bind, ran]) (Failure.isFinal_host _) ends

/-- What is read of the store does not count. -/
theorem tracks_read {first : Eval α} {next next' : α → Eval γ} {a : α} {course : Nat → Trace δ}
    (ran : first.run d.environment s = (.ok a, s))
    (tracks : Tracks d limits views s (next a) (next' a) after course) :
    Tracks d limits views s (first >>= next) (first >>= next') after course := by
  obtain ⟨agrees, mirrors⟩ := tracks
  refine ⟨?_, ?_⟩
  · rw [run_bind, ran]
    exact agrees
  · rw [run_bind, run_bind, ran]
    exact mirrors

theorem Tracks.of_run_eq {e same other : Eval α}
    (tracks : Tracks d limits views s e other rel course)
    (ran : same.run d.environment s = e.run d.environment s) :
    Tracks d limits views s same other rel course := by
  obtain ⟨agrees, mirrors⟩ := tracks
  exact ⟨by rwa [ran], by rwa [ran]⟩

/-- One evaluation after another tracks one trace after another. -/
theorem Tracks.bind {first first' : Eval α} {next next' : α → Eval γ} {k : Nat → β → Trace δ}
    (tracks : Tracks d limits views s first first' rel course)
    (goOn : ∀ more s a b, views <+: more → Consistent d limits.kept more s → rel more a b →
      Ends course (.done b) →
        Tracks d limits more s (next a) (next' a) after fun depth => k depth b) :
    Tracks d limits views s (first >>= next) (first' >>= next') after
      fun depth => course depth >>= k depth := by
  obtain ⟨⟨more, longer, steady, agrees⟩, mirrors⟩ := tracks
  rcases ran : first.run d.environment s with ⟨f | a, left⟩
  · rw [ran] at steady agrees mirrors
    refine ⟨⟨more, longer, ?_, ?_⟩, ?_⟩
    · rw [run_bind, ran]
      exact steady
    · rw [run_bind, ran]
      rcases agrees with short | ⟨circular, checked, held⟩ | ⟨final, ends⟩
      · exact .inl short
      · refine .inr (.inl ⟨circular, checked,
          fun depth finished => held depth fun none => finished ?_⟩)
        simp only [none, Trace.unfinished_bind]
      · exact .inr (.inr ⟨final, ends.bind_failed⟩)
    · rw [run_bind, run_bind, ran]
      intro final
      rw [mirrors fun f same => final f (by simpa using same)]
  · rw [ran] at steady agrees mirrors
    have same : first'.run d.environment s = (.ok a, left) := mirrors (by simp)
    obtain ⟨b, holds, ends⟩ := agrees
    obtain ⟨⟨most, further, steady, agrees⟩, mirrors⟩ := goOn more left a b longer steady holds ends
    refine ⟨⟨most, longer.trans further, ?_, ?_⟩, ?_⟩
    · rw [run_bind, ran]
      exact steady
    · rw [run_bind, ran]
      dsimp only
      cases result : ((next a).run d.environment left).1 with
      | ok c =>
        rw [result] at agrees
        obtain ⟨e, holds, ending⟩ := agrees
        exact ⟨e, holds, ends.bind ending⟩
      | error f =>
        rw [result] at agrees
        rcases agrees with short | ⟨circular, checked, held⟩ | ⟨final, ending⟩
        · exact .inl short
        · refine .inr (.inl ⟨circular, checked,
          fun depth finished => held depth fun none => finished ?_⟩)
          by_cases begun : course depth = .unfinished
          · simp only [begun, Trace.unfinished_bind]
          · simp only [ends.eq_of_ne begun, Trace.done_bind]
            exact none
        · exact .inr (.inr ⟨final, ends.bind ending⟩)
    · rw [run_bind, run_bind, ran, same]
      exact mirrors

/-- An evaluation of something that is traced elsewhere in another way. -/
theorem Tracks.of_eq {e e' : Eval α} {other : Nat → Trace β}
    (tracks : Tracks d limits views s e e' rel course)
    (same : ∀ depth, course depth = other depth) : Tracks d limits views s e e' rel other := by
  obtain rfl : course = other := funext same
  exact tracks

/-- Evaluations one after the other. -/
theorem tracks_mapM {evaluate evaluate' : α → Eval γ} {t : Nat → α → Trace δ}
    (stable : ∀ {views more c e}, views <+: more → r views c e → r more c e)
    {items : List α} (steady : Consistent d limits.kept views s)
    (each : ∀ more s a, a ∈ items → views <+: more → Consistent d limits.kept more s →
      Tracks d limits more s (evaluate a) (evaluate' a) r (t · a)) :
    Tracks d limits views s (items.mapM evaluate) (items.mapM evaluate')
      (fun views => List.Forall₂ (r views)) fun depth => items.mapM (t depth) := by
  induction items generalizing views s with
  | nil => exact tracks_pure steady .nil (Ends.const _)
  | cons a items ih =>
    simp only [List.mapM_cons]
    refine (each views s a (by simp) List.prefix_rfl steady).bind fun more s c e longer
      steady holds _ => ?_
    refine (ih steady fun most s b among further steady =>
      each most s b (by simp [among]) (longer.trans further) steady).bind
        fun most s cs es further steady all _ => ?_
    exact tracks_pure steady (.cons (stable further holds) all) (Ends.const _)

end LazyConfig.Resolution
