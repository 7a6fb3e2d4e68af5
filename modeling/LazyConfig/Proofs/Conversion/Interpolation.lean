import LazyConfig.Proofs.Conversion.Order
import LazyConfig.Proofs.Conversion.Rule
import LazyConfig.Proofs.Evaluation.Evolution

/-!
# Paths in texts

A text that is nothing but a path in braces stands for what the document has there, written as it
goes into texts. The path ends at the first closing brace, and not where the grammar of paths lets
it end: a path with a brace in it, in a quoted key or around a reference, is cut off there.
-/

namespace LazyConfig.Conversion

open Eval
open Evaluation

/-! ### The form of the text -/

/-- A path in braces behind a dollar sign. -/
def enclosed (path : String) : String := "$\x7b" ++ path ++ "\x7d"

@[simp] theorem toList_enclosed (path : String) :
    (enclosed path).toList = '$' :: '{' :: (path.toList ++ ['}']) := by
  simp [enclosed]

/-- Characters that are passed over leave no pieces. -/
theorem piecesFrom_of_length_le (literal : List Char) {text : List Char} {skip : Nat}
    (enough : text.length ≤ skip) :
    piecesFrom literal skip text = [.literal (String.ofList literal.reverse)] := by
  induction text generalizing skip with
  | nil => rfl
  | cons c text ih =>
    obtain ⟨fewer, rfl⟩ := Nat.exists_eq_add_of_le' (Nat.succ_pos _ |>.trans_le enough)
    exact ih (Nat.le_of_succ_le_succ enough)

theorem path?_of_not_mem {path : List Char} (some : path ≠ []) (noBrace : '}' ∉ path) :
    path? (path ++ ['}']) = Option.some path := by
  have isPath : (path ++ ['}']).takeWhile (· ≠ '}') = path := by
    rw [List.takeWhile_append_of_pos]
    · simp
    · intro c among
      simpa using ne_of_mem_of_not_mem among noBrace
  unfold path?
  dsimp only
  rw [isPath, if_neg]
  simp [some]

/-- The path is the one piece of the text. -/
theorem pieces_enclosed {path : String} (some : path ≠ "") (noBrace : '}' ∉ path.toList) :
    pieces (enclosed path).toList = [.literal "", .path path, .literal ""] := by
  have isPath : path? (path.toList ++ ['}']) = Option.some path.toList :=
    path?_of_not_mem (by simpa using some) noBrace
  have behind : piecesFrom [] (path.toList.length + 2) ('{' :: (path.toList ++ ['}'])) =
      [.literal ""] := piecesFrom_of_length_le [] (by simp)
  rw [toList_enclosed, pieces, piecesFrom]
  simp only [List.head?_cons, and_self, if_true, List.drop_succ_cons, List.drop_zero, isPath,
    behind, String.ofList_toList]
  rfl

/-- A path in braces has none of the other forms: what starts with a dollar sign can only be a
variable, whose name a brace does not start. -/
theorem fillsIn_enclosed {path : String} (some : path ≠ "") (noBrace : '}' ∉ path.toList) :
    FillsIn (enclosed path) := by
  have noLineEnd : dropLineEnd (enclosed path).toList = (enclosed path).toList := by
    rw [toList_enclosed, dropLineEnd, ← List.cons_append, ← List.cons_append,
      List.getLast?_concat, if_neg (by decide)]
  have dollar : '$' ∈ (dropLineEnd (enclosed path).toList).head? := by
    rw [noLineEnd, toList_enclosed]
    rfl
  constructor
  · exact fields?_eq_none_of_head dollar (by decide +kernel)
  · have noName : ('{' :: (path.toList ++ ['}'])).takeWhile Text.isWordChar = [] := by
      rw [List.takeWhile_cons_of_neg (by decide)]
    rw [environmentName?, noLineEnd, toList_enclosed]
    exact if_pos noName
  · exact objectName?_eq_none_of_head dollar (by decide)
  · rw [pieces_enclosed some noBrace]
    rfl

/-! ### Filling in -/

variable {environment : Environment} {s left : Store} {id : DocumentId}

/-- A text whose paths are filled in becomes another object, whatever it is then. -/
theorem run_convert_filled {m : Machine} {text : String} {mark : Mark} {texts : List String}
    (standard : environment.settings.converter = .standard) (fills : FillsIn text)
    (idle : (s.document id).converting.contains text = false)
    (looked : ((pieces text.toList).mapM (pieceText m id)).run environment (marked s id text) =
      (.ok texts, left))
    (new : mark ≠ .ofAssembled (String.join texts) (.made left.serial)) :
    (convert m id text mark).run environment s =
      (.ok (.text (String.join texts) (.ofAssembled (String.join texts) (.made left.serial))),
        unmarked left.fresh.2 id text) := by
  let made : Value :=
    .text (String.join texts) (.ofAssembled (String.join texts) (.made left.serial))
  have result : (converterResult m id text).run environment (marked s id text) =
      (.ok (some made), left.fresh.2) := by
    rw [run_converterResult standard fills, run_filledIn, looked]
  -- a conversion counts only if it gives another object, even where the text is the same
  have other : made.same (.text text mark) = false := by
    simp [made, Value.same, Value.mark?, new.symm]
  rw [convert_eq, run_bind, run_document]
  simp only [idle, Bool.false_eq_true, if_false]
  rw [run_bind, run_converting]
  dsimp only
  rw [← marked, result]
  simp only [settle, Option.filter, other, Bool.not_false, if_true]
  rfl

theorem ne_empty_of_read {path : String} {node : Node} (read : Path.ofString path = .ok node) :
    path ≠ "" := by
  rintro rfl
  have refused : (Path.ofString "").toOption.isSome = false := by decide +kernel
  rw [read] at refused
  cases refused

/-- A path in braces stands for what the document has there, if no brace stands in the path. It is
looked up while the text counts as being converted. -/
theorem path_filled_in {path : String} {node : Node} (read : Path.ofString path = .ok node)
    (noBrace : '}' ∉ path.toList) (standard : environment.settings.converter = .standard)
    (idle : (s.document id).converting.contains (enclosed path) = false) {v : Value}
    {middle : Store} {shown : String}
    (looked : (Document.get id path).run environment (marked s.fresh.2 id (enclosed path)) =
      (.ok v, middle))
    (shows : (interpolated v).run environment middle = (.ok shown, left)) :
    ∃ mark behind, (Document.convert id (enclosed path)).run environment s =
      (.ok (.text shown mark), behind) := by
  let m : Machine := ⟨answerWithin environment.depth⟩
  have some := ne_empty_of_read read
  rw [Resolution.run_documentGet] at looked
  -- the number of the text is given out before the numbers of all that is looked up
  have later : s.serial < left.serial := by
    have lookup := evolving_answerWithin environment.depth (.lookup id path none) environment
      (marked s.fresh.2 id (enclosed path))
    have shown := evolving_interpolated v environment middle
    rw [looked] at lookup
    rw [shows] at shown
    exact (Nat.lt_succ_self s.serial).trans_le (lookup.serial_le.trans shown.serial_le)
  have texts : ((pieces (enclosed path).toList).mapM (pieceText m id)).run environment
      (marked s.fresh.2 id (enclosed path)) = (.ok ["", shown, ""], left) := by
    rw [pieces_enclosed some noBrace]
    simp only [List.mapM_cons, List.mapM_nil, pieceText, run_bind, run_pure, Machine.lookup, m,
      looked, shows]
  have own : Mark.ofText (enclosed path) (.made s.serial) = .made s.serial := by
    refine Mark.ofText_of_two_le_length _ ?_
    rw [← String.length_toList, toList_enclosed]
    simp
  have new : Mark.made s.serial ≠
      .ofAssembled (String.join ["", shown, ""]) (.made left.serial) := by
    unfold Mark.ofAssembled
    split
    · simp
    · simpa using later.ne
  have stillIdle : (s.fresh.2.document id).converting.contains (enclosed path) = false := idle
  have converted := run_convert_filled standard (fillsIn_enclosed some noBrace) stillIdle texts new
  have joined : String.join ["", shown, ""] = shown := by simp
  rw [joined] at converted
  have ran : (Document.convert id (enclosed path)).run environment s =
      (convert m id (enclosed path) (.made s.serial)).run environment s.fresh.2 := by
    rw [Document.convert, machine, run_bind, run_bind, run_read]
    dsimp only
    rw [run_pure]
    dsimp only
    rw [run_bind, run_freshMark]
    dsimp only
    rw [own]
  exact ⟨_, _, ran.trans converted⟩

/-- A document with a brace in a key, and with an index that is looked up. -/
def braceText : Text.Decoded :=
  ⟨"a: \x7b'x\x7d': 1\x7d\ni: 0\nl: [5, 6]".toList, none⟩

def braceStore : Store :=
  ((Resolution.opened false braceText none).run Resolution.emptyWorld {}).2

/-- What a path leads to, as it goes into texts. -/
def shownAt (environment : Environment) (s : Store) (path : String) : Option String :=
  (((do interpolated (← Document.get 0 path)) : Eval String).run environment s).1.toOption

/-- The text that a text is converted to. -/
def convertedText (environment : Environment) (s : Store) (text : String) : Option String :=
  match ((Document.convert 0 text).run environment s).1 with
  | .ok (.text found _) => some found
  | _ => none

/-- A slice of a list is filled in. -/
theorem path_filled_in_slice :
    convertedText Resolution.emptyWorld braceStore (enclosed "l[::-1]") = some "[6, 5]" := by
  let begun := marked braceStore.fresh.2 0 (enclosed "l[::-1]")
  obtain ⟨node, read, -⟩ := Resolution.exists_of_any (Path.ofString "l[::-1]") (fun _ => true)
    (by decide +kernel)
  have isShown : shownAt Resolution.emptyWorld begun "l[::-1]" = some "[6, 5]" := by decide +kernel
  rw [shownAt, run_bind] at isShown
  rcases looked : (Document.get 0 "l[::-1]").run Resolution.emptyWorld begun with ⟨_ | v, middle⟩
  · rw [looked] at isShown
    cases isShown
  rw [looked] at isShown
  dsimp only at isShown
  rcases shows : (interpolated v).run Resolution.emptyWorld middle with ⟨_ | shown, left⟩
  · rw [shows] at isShown
    cases isShown
  rw [shows] at isShown
  cases isShown
  obtain ⟨mark, behind, converted⟩ :=
    path_filled_in read (by decide) rfl (by decide +kernel) looked shows
  rw [convertedText, converted]

/-! ### Braces in paths -/

/-- A path that leads to a value is not filled in if a brace stands in it: in a key, or around the
path of an index. Where texts have to be converted that is an error. -/
theorem brace_ends_path :
    let paths := ["a['x\x7d']", "l[$\x7bi\x7d]"]
    let texts := paths.map enclosed
    (∀ path ∈ paths, (Path.ofString path).toOption.isSome) ∧
      paths.map (shownAt Resolution.emptyWorld braceStore) = [some "1", some "5"] ∧
      texts.map (convertedText Resolution.emptyWorld braceStore) = [none, none] ∧
      texts.map (convertedText circleEnvironment braceStore) = texts.map some := by
  decide +kernel

end LazyConfig.Conversion
