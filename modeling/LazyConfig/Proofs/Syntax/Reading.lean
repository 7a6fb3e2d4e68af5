import LazyConfig.Proofs.Syntax.Follow
import LazyConfig.Proofs.Syntax.Soundness

/-!
# Reading tokens

What a parser makes of given tokens, when others stand behind them: for single tokens, for loops,
for strings, and for the bodies of lists and mappings and what they stand in.
-/

namespace LazyConfig.Syntax

open Token (Stream Kind)

namespace Parser

variable {α β σ : Type} {ending : Token} {tokens before behind rest : List Token}

/-! ### Reading tokens -/

/-- The parser takes the tokens, with the others behind them, and makes something that holds. -/
def Reads (ending : Token) (p : Parser α) (tokens rest : List Token) (holds : α → Prop) : Prop :=
  ∃ a, p.run (streamOf ending (tokens ++ rest)) = (.ok a, streamOf ending rest) ∧ holds a

theorem Reads.mono {p : Parser α} {holds weaker : α → Prop} (reads : Reads ending p tokens rest holds)
    (weaken : ∀ a, holds a → weaker a) : Reads ending p tokens rest weaker := by
  obtain ⟨a, ran, known⟩ := reads
  exact ⟨a, ran, weaken a known⟩

theorem reads_pure {a : α} {holds : α → Prop} (known : holds a) :
    Reads ending (pure a) [] rest holds := ⟨a, rfl, known⟩

theorem Reads.bind {p : Parser α} {f : α → Parser β} {P : α → Prop} {Q : β → Prop}
    {u v : List Token} (reads : Reads ending p u (v ++ rest) P)
    (next : ∀ a, P a → Reads ending (f a) v rest Q) : Reads ending (p >>= f) (u ++ v) rest Q := by
  obtain ⟨a, ran, known⟩ := reads
  obtain ⟨b, ranNext, holds⟩ := next a known
  refine ⟨b, ?_, holds⟩
  rw [List.append_assoc, run_bind, ran]
  exact ranNext

/-- What follows may take no more tokens. -/
theorem Reads.andThen {p : Parser α} {f : α → Parser β} {P : α → Prop} {Q : β → Prop}
    (reads : Reads ending p tokens rest P) (next : ∀ a, P a → Reads ending (f a) [] rest Q) :
    Reads ending (p >>= f) tokens rest Q := by
  rw [← List.append_nil tokens]
  exact reads.bind next

theorem Reads.map {p : Parser α} {f : α → β} {first : α → Prop} {holds : β → Prop}
    (reads : Reads ending p tokens rest first) (next : ∀ a, first a → holds (f a)) :
    Reads ending (f <$> p) tokens rest holds := by
  obtain ⟨a, ran, known⟩ := reads
  refine ⟨f a, ?_, next a known⟩
  rw [← bind_pure_comp, run_bind, ran]
  rfl

theorem reads_take {f : Token → Parser β} {t : Token} {holds : β → Prop}
    (next : Reads ending (f t) tokens rest holds) :
    Reads ending (take >>= f) (t :: tokens) rest holds := by
  have taken : Reads ending take [t] (tokens ++ rest) (· = t) := by
    refine ⟨t, ?_, rfl⟩
    cases tokens ++ rest <;> rfl
  exact taken.bind (u := [t]) fun _ same => same ▸ next

theorem reads_peek {f : Token → Parser β} {holds : β → Prop}
    (next : ∀ t, Reads ending (f t) tokens rest holds) :
    Reads ending (peek >>= f) tokens rest holds :=
  next (streamOf ending (tokens ++ rest)).next

theorem reads_expect {f : Token → Parser β} {t : Token} {wanted : Kind} {holds : β → Prop}
    (found : t.kind = wanted) (next : Reads ending (f t) tokens rest holds) :
    Reads ending (expect wanted >>= f) (t :: tokens) rest holds := by
  have taken : Reads ending (expect wanted) [t] (tokens ++ rest) (· = t) := by
    refine ⟨t, ?_, rfl⟩
    have isKind : Parser.kind.run (streamOf ending (t :: (tokens ++ rest))) =
        (.ok t.kind, streamOf ending (t :: (tokens ++ rest))) := rfl
    rw [expect, run_bind, List.singleton_append, isKind]
    simp only [found, if_true]
    cases tokens ++ rest <;> rfl
  exact taken.bind (u := [t]) fun _ same => same ▸ next

/-- There is a turn for each token. -/
theorem length_le_toList (ending : Token) (tokens : List Token) :
    tokens.length ≤ (streamOf ending tokens).toList.length := by
  cases tokens with
  | nil => exact Nat.zero_le _
  | cons => exact Nat.le_refl _

theorem reads_iterate {step : σ → Parser (σ ⊕ α)} {state : σ} {holds : α → Prop}
    (loop : ∀ budget : List Token, tokens.length ≤ budget.length →
      Reads ending (iterateWithin step budget state) tokens rest holds) :
    Reads ending (iterate step state) tokens rest holds :=
  loop (streamOf ending (tokens ++ rest)).toList
    ((by simp : tokens.length ≤ (tokens ++ rest).length).trans (length_le_toList ending _))

/-- A loop ends with a turn that asks for no other. -/
theorem reads_done {step : σ → Parser (σ ⊕ α)} {state : σ} {budget : List Token}
    {holds : α → Prop}
    (turn : Reads ending (step state) tokens rest fun result => ∃ a, result = .inr a ∧ holds a) :
    Reads ending (iterateWithin step budget state) tokens rest holds := by
  obtain ⟨_, ran, a, rfl, known⟩ := turn
  refine ⟨a, ?_, known⟩
  cases budget <;> rw [iterateWithin, run_bind, ran] <;> rfl

/-- A loop goes on with the state that a turn leaves. -/
theorem reads_again {step : σ → Parser (σ ⊕ α)} {state : σ} {t : Token} {budget : List Token}
    {P : σ → Prop} {Q : α → Prop} {u v : List Token}
    (turn : Reads ending (step state) u (v ++ rest) fun result => ∃ next, result = .inl next ∧ P next)
    (more : ∀ next, P next → Reads ending (iterateWithin step budget next) v rest Q) :
    Reads ending (iterateWithin step (t :: budget) state) (u ++ v) rest Q := by
  rw [iterateWithin]
  refine turn.bind fun result known => ?_
  obtain ⟨next, rfl, isNext⟩ := known
  exact more next isNext

variable (isEnd : ending.kind = .eof)

include isEnd

theorem next_streamOf (tokens : List Token) :
    (streamOf ending tokens).next.kind = headKind tokens := by
  cases tokens with
  | nil => exact isEnd
  | cons => rfl

theorem reads_kind {f : Kind → Parser β} {holds : β → Prop} 
    (next : Reads ending (f (headKind (tokens ++ rest))) tokens rest holds) :
    Reads ending (Parser.kind >>= f) tokens rest holds := by
  obtain ⟨b, ran, known⟩ := next
  refine ⟨b, ?_, known⟩
  rw [run_bind, show Parser.kind.run (streamOf ending (tokens ++ rest)) =
    (.ok (streamOf ending (tokens ++ rest)).next.kind, _) from rfl, next_streamOf isEnd]
  exact ran

theorem reads_advance {f : Kind → Parser β} {t : Token} {holds : β → Prop}
    (next : Reads ending (f (headKind (tokens ++ rest))) tokens rest holds) :
    Reads ending (advance >>= f) (t :: tokens) rest holds := by
  have advanced : Reads ending advance [t] (tokens ++ rest) (· = headKind (tokens ++ rest)) := by
    refine ⟨_, ?_, rfl⟩
    rw [← next_streamOf isEnd]
    cases tokens ++ rest <;> rfl
  exact advanced.bind (u := [t]) fun _ same => same ▸ next

theorem reads_skipNewlines {newlines : List Token} (areNewlines : AreNewlines newlines)
    (ends : headKind rest ≠ .newline) :
    Reads ending skipNewlines newlines rest (· = headKind rest) := by
  let step : Unit → Parser (Unit ⊕ Kind) := fun _ => do
    let found ← Parser.kind
    if found = .newline then let _ ← advance; return .inl () else return .inr found
  have loop (budget : List Token) (enough : newlines.length ≤ budget.length) :
      Reads ending (iterateWithin step budget ()) newlines rest (· = headKind rest) := by
    induction newlines generalizing budget with
    | nil =>
      refine reads_done (reads_kind isEnd ?_)
      rw [List.nil_append, if_neg ends]
      exact reads_pure ⟨_, rfl, rfl⟩
    | cons t newlines ih =>
      cases budget with
      | nil => exact absurd enough (by simp)
      | cons _ budget =>
        have isNewline : t.kind = .newline := areNewlines t (by simp)
        refine reads_again (u := [t]) (P := fun _ => True) (reads_kind isEnd ?_)
          fun _ _ => ih (fun t among => areNewlines t (by simp [among])) budget
            (Nat.le_of_succ_le_succ enough)
        rw [List.singleton_append, headKind_cons, if_pos isNewline]
        exact reads_advance isEnd (reads_pure ⟨(), rfl, trivial⟩)
  exact reads_iterate loop

/-! ### Values -/

theorem reads_strings {t : Token} (areStrings : Strings tokens t) (ends : headKind rest ≠ .string) :
    Reads ending strings tokens rest (·.bare = t) := by
  cases areStrings with
  | @joined first joined others all join =>
    let step : List Token → Parser (List Token ⊕ List Token) := fun others => do
      if (← Parser.kind) = .string then return .inl ((← take) :: others)
      else return .inr others.reverse
    have loop (done more budget : List Token) (areStrings : ∀ t ∈ more, t.kind = .string)
        (enough : more.length ≤ budget.length) :
        Reads ending (iterateWithin step budget done) more rest (· = done.reverse ++ more) := by
      induction more generalizing done budget with
      | nil =>
        refine reads_done (reads_kind isEnd ?_)
        rw [List.nil_append, if_neg ends]
        exact reads_pure ⟨_, rfl, by simp⟩
      | cons t more ih =>
        cases budget with
        | nil => exact absurd enough (by simp)
        | cons _ budget =>
          refine reads_again (u := [t]) (P := (· = t :: done)) (reads_kind isEnd ?_) ?_
          · rw [List.singleton_append, headKind_cons, if_pos (areStrings t (by simp))]
            exact reads_take (reads_pure ⟨_, rfl, rfl⟩)
          · rintro _ rfl
            refine (ih (t :: done) budget (fun t among => areStrings t (by simp [among]))
              (Nat.le_of_succ_le_succ enough)).mono ?_
            rintro _ rfl
            simp
    refine reads_take ?_
    refine Reads.andThen (p := iterate step []) (P := (· = others)) ?_ ?_
    · exact reads_iterate fun budget enough =>
        loop [] others budget (fun t among => all t (by simp [among])) enough
    · rintro _ rfl
      simp only [join]
      exact reads_pure rfl

theorem reads_value {t : Token} (isValue : startsValue t.kind) (single : t.kind ≠ .string) :
    Reads ending value [t] rest (·.bare = t.bare) := by
  refine reads_kind isEnd ?_
  simp only [List.singleton_append, headKind_cons, isValue, Bool.not_true, Bool.false_eq_true,
    if_false, single]
  rw [← bind_pure take]
  exact reads_take (reads_pure rfl)

theorem reads_value_strings {t : Token} (areStrings : Strings tokens t)
    (ends : headKind rest ≠ .string) : Reads ending value tokens rest (·.bare = t) := by
  obtain ⟨first, more, rfl, isString⟩ := areStrings.head
  refine reads_kind isEnd ?_
  simp only [List.cons_append, headKind_cons, isString, startsValue, Bool.not_true,
    Bool.false_eq_true, if_false, if_true]
  exact reads_strings isEnd areStrings ends

omit isEnd

/-! ### Loops of trees -/

/-- The parser comes to its loop on what follows, with the tree of the tokens that it has taken. -/
def Resumes (ending : Token) (turn : Node → Parser (Node ⊕ Node)) (p : Parser Node)
    (tokens rest : List Token) (tree : Node) : Prop :=
  ∃ node budget, node.bare = tree ∧ rest.length ≤ budget.length ∧
    p.run (streamOf ending (tokens ++ rest)) =
      (iterateWithin turn budget node).run (streamOf ending rest)

variable {turn : Node → Parser (Node ⊕ Node)} {p : Parser Node} {tree : Node}

theorem Reads.resumes (reads : Reads ending p tokens rest (·.bare = tree)) :
    Resumes ending turn (p >>= iterate turn) tokens rest tree := by
  obtain ⟨node, ran, isTree⟩ := reads
  refine ⟨node, (streamOf ending rest).toList, isTree, length_le_toList ending rest, ?_⟩
  rw [run_bind, ran]
  rfl

theorem Resumes.again {bigger : Node} {t : Token}
    (resumes : Resumes ending turn p tokens (t :: behind ++ rest) tree)
    (more : ∀ node, node.bare = tree → Reads ending (turn node) (t :: behind) rest fun result =>
      ∃ node, result = .inl node ∧ node.bare = bigger) :
    Resumes ending turn p (tokens ++ t :: behind) rest bigger := by
  obtain ⟨node, budget, isTree, enough, ran⟩ := resumes
  obtain ⟨_, ranTurn, next, rfl, isBigger⟩ := more node isTree
  cases budget with
  | nil => exact absurd enough (by simp)
  | cons _ budget =>
    have fewer : rest.length ≤ budget.length := by
      simp only [List.cons_append, List.length_cons, List.length_append] at enough
      omega
    refine ⟨next, budget, isBigger, fewer, ?_⟩
    rw [List.append_assoc, ran, iterateWithin, run_bind, ranTurn]

theorem Resumes.stops (resumes : Resumes ending turn p tokens rest tree)
    (ends : ∀ node, Reads ending (turn node) [] rest (· = .inr node)) :
    Reads ending p tokens rest (·.bare = tree) := by
  obtain ⟨node, budget, isTree, -, ran⟩ := resumes
  have done : Reads ending (iterateWithin turn budget node) [] rest (· = node) :=
    reads_done ((ends node).mono fun _ same => ⟨node, same, rfl⟩)
  obtain ⟨_, ranLoop, rfl⟩ := done
  exact ⟨_, ran.trans ranLoop, isTree⟩

/-- A turn of the loop over trailers. -/
def trailerTurn (nested : Nested) (base : Node) : Parser (Node ⊕ Node) := do
  if startsTrailer (← Parser.kind) then return .inl ((← trailer nested).apply base)
  else return .inr base

/-- A turn of the loop over the operators of a level. -/
def chainTurn (level : Level) (operand : Parser Node) (left : Node) : Parser (Node ⊕ Node) := do
  match InfixOp.at? level (← Parser.kind) with
  | some op =>
    let _ ← advance
    return .inl (.binary op left (← operand))
  | none => return .inr left

theorem primary_eq (nested : Nested) : primary nested = atom nested >>= iterate (trailerTurn nested) :=
  rfl

theorem chain_eq (level : Level) (operand : Parser Node) :
    chain level operand = operand >>= iterate (chainTurn level operand) := rfl

/-! ### Bodies -/

/-- A body: behind the line ends at its front, the loop adds its items to those that it has. The
token at which an item starts is no line end. -/
def ReadsBody (ending : Token) (turn : List β → Parser (List β ⊕ List β)) (starts : Kind → Bool)
    (shape : β → β) (tokens rest : List Token) (items : List β) : Prop :=
  ∃ newlines core, tokens = newlines ++ core ∧ AreNewlines newlines ∧
    (core = [] ∧ items = [] ∨ starts (headKind core)) ∧
    ∀ (budget : List Token) (done : List β), core.length ≤ budget.length →
      Reads ending (iterateWithin turn budget done) core rest fun found =>
        found.reverse.map shape = done.reverse.map shape ++ items

section

variable {turn : List β → Parser (List β ⊕ List β)} {starts : Kind → Bool} {shape : β → β}
  {items : List β} {newlines : List Token} {x : β}

theorem starts_append {core : List Token} (rest : List Token) (notEnd : starts .eof = false)
    (front : starts (headKind core)) : starts (headKind (core ++ rest)) := by
  cases core with
  | nil => exact absurd front (by simp [headKind, notEnd])
  | cons => exact front

theorem readsBody_nil (lead : AreNewlines newlines)
    (stops : ∀ done, Reads ending (turn done) [] rest (· = .inr done)) :
    ReadsBody ending turn starts shape newlines rest [] :=
  ⟨newlines, [], by simp, lead, .inl ⟨rfl, rfl⟩, fun _ done _ =>
    reads_done ((stops done).mono fun _ same => ⟨done, same, by simp⟩)⟩

theorem readsBody_last (lead : AreNewlines newlines) (front : starts (headKind tokens))
    (last : ∀ done, Reads ending (turn done) tokens rest fun result =>
      ∃ item, result = .inr (item :: done) ∧ shape item = x) :
    ReadsBody ending turn starts shape (newlines ++ tokens) rest [x] := by
  refine ⟨newlines, tokens, rfl, lead, .inr front, fun _ done _ => ?_⟩
  refine reads_done ((last done).mono ?_)
  rintro _ ⟨item, rfl, isItem⟩
  exact ⟨item :: done, rfl, by simp [isItem]⟩

/-- What stands behind the line ends of a body is no line end. -/
theorem not_newline {core : List Token} (notEnd : starts .eof = false)
    (noNewline : starts .newline = false) (ends : headKind rest ≠ .newline)
    (front : core = [] ∧ items = [] ∨ starts (headKind core)) :
    headKind (core ++ rest) ≠ .newline := by
  rcases front with ⟨rfl, -⟩ | front
  · exact ends
  · intro newline
    have front := starts_append rest notEnd front
    simp [newline, noNewline] at front

theorem readsBody_cons {separator : Token} {more : List Token} (notEnd : starts .eof = false)
    (noNewline : starts .newline = false) (ends : headKind rest ≠ .newline)
    (lead : AreNewlines newlines) (front : starts (headKind tokens))
    (again : ∀ done gap rest, AreNewlines gap → headKind rest ≠ .newline →
      Reads ending (turn done) (tokens ++ separator :: gap) rest fun result =>
        ∃ item, result = .inl (item :: done) ∧ shape item = x)
    (others : ReadsBody ending turn starts shape more rest items) :
    ReadsBody ending turn starts shape (newlines ++ tokens ++ separator :: more) rest
      (x :: items) := by
  obtain ⟨gap, core, rfl, areNewlines, behindGap, loop⟩ := others
  refine ⟨newlines, tokens ++ separator :: gap ++ core, by simp, lead, .inr ?_,
    fun budget done enough => ?_⟩
  · rw [List.append_assoc]
    exact starts_append _ notEnd front
  · cases budget with
    | nil => simp at enough
    | cons _ budget =>
      have fewer : core.length ≤ budget.length := by
        simp only [List.length_append, List.length_cons] at enough
        omega
      refine reads_again (P := fun found => ∃ item, found = item :: done ∧ shape item = x)
        ((again done gap _ areNewlines (not_newline notEnd noNewline ends behindGap)).mono ?_) ?_
      · rintro _ ⟨item, rfl, isItem⟩
        exact ⟨_, rfl, item, rfl, isItem⟩
      · rintro _ ⟨item, rfl, isItem⟩
        exact (loop budget _ fewer).mono fun all same => by simp [same, isItem]

/-- The line ends at the front of a body are skipped, and then the loop makes its items. -/
theorem ReadsBody.parts (isEnd : ending.kind = .eof)
    (body : ReadsBody ending turn starts shape tokens rest items) (notEnd : starts .eof = false)
    (noNewline : starts .newline = false) (ends : headKind rest ≠ .newline) :
    ∃ newlines core, tokens = newlines ++ core ∧
      Reads ending skipNewlines newlines (core ++ rest) (· = headKind (core ++ rest)) ∧
      (core = [] ∧ items = [] ∨ starts (headKind core)) ∧
      Reads ending (iterate turn []) core rest (·.reverse.map shape = items) := by
  obtain ⟨newlines, core, rfl, areNewlines, front, loop⟩ := body
  refine ⟨newlines, core, rfl, reads_skipNewlines isEnd areNewlines
    (not_newline notEnd noNewline ends front), front, ?_⟩
  exact reads_iterate fun budget enough =>
    (loop budget [] enough).mono fun _ same => by simpa using same

end

/-! ### Lists -/

variable {nested : Nested} {newlines : List Token} {separator : Token} {trees : List Node}

/-- A turn of the loop over the elements of a list. -/
def elementTurn (nested : Nested) (done : List Node) : Parser (List Node ⊕ List Node) := do
  if !startsExpression (← Parser.kind) then return .inr done
  let element ← nested .disjunction
  let done := element :: done
  if !isSeparator (← Parser.kind) then return .inr done
  let _ ← advance
  let _ ← skipNewlines
  return .inl done

/-- What stands behind the body of a list: a bracket, or the colon of a slice. -/
def EndsElements (k : Kind) : Prop := k = .rightBracket ∨ k = .colon

theorem EndsElements.kinds {k : Kind} (ends : EndsElements k) :
    startsExpression k = false ∧ isSeparator k = false ∧ k ≠ .newline ∧ continues k = 0 := by
  rcases ends with rfl | rfl <;> decide

abbrev ReadsElements (ending : Token) (nested : Nested) : List Token → List Token → List Node → Prop :=
  ReadsBody ending (elementTurn nested) startsExpression Node.bare

include isEnd

theorem readsElements_nil (lead : AreNewlines newlines) (ends : EndsElements (headKind rest)) :
    ReadsElements ending nested newlines rest [] := by
  refine readsBody_nil lead fun done => reads_kind isEnd ?_
  simp only [List.nil_append, ends.kinds.1, Bool.not_false, if_true]
  exact reads_pure rfl

theorem readsElements_last (lead : AreNewlines newlines) (ends : EndsElements (headKind rest))
    (starts : startsExpression (headKind tokens))
    (reads : Reads ending (nested .disjunction) tokens rest (·.bare = tree)) :
    ReadsElements ending nested (newlines ++ tokens) rest [tree] := by
  refine readsBody_last lead starts fun done => reads_kind isEnd ?_
  simp only [starts_append rest rfl starts, Bool.not_true, Bool.false_eq_true, if_false]
  refine reads.andThen fun node isTree => reads_kind isEnd ?_
  simp only [List.nil_append, ends.kinds.2.1, Bool.not_false, if_true]
  exact reads_pure ⟨node, rfl, isTree⟩

theorem readsElements_cons {more : List Token} (lead : AreNewlines newlines)
    (starts : startsExpression (headKind tokens)) (separates : isSeparator separator.kind)
    (ends : EndsElements (headKind rest))
    (reads : ∀ rest, Reads ending (nested .disjunction) tokens (separator :: rest) (·.bare = tree))
    (others : ReadsElements ending nested more rest trees) :
    ReadsElements ending nested (newlines ++ tokens ++ separator :: more) rest (tree :: trees) := by
  refine readsBody_cons rfl rfl ends.kinds.2.2.1 lead starts
    (fun done gap rest areNewlines notNewline => reads_kind isEnd ?_) others
  have front : startsExpression (headKind (tokens ++ separator :: gap ++ rest)) := by
    rw [List.append_assoc]
    exact starts_append _ rfl starts
  simp only [front, Bool.not_true, Bool.false_eq_true, if_false]
  refine Reads.bind (P := (·.bare = tree)) (reads (gap ++ rest)) fun node isTree =>
    reads_kind isEnd ?_
  simp only [List.cons_append, headKind_cons, separates, Bool.not_true, Bool.false_eq_true, if_false]
  refine reads_advance isEnd ?_
  refine (reads_skipNewlines isEnd areNewlines notNewline).andThen fun _ _ => ?_
  exact reads_pure ⟨node, rfl, isTree⟩

theorem reads_listBody (body : ReadsElements ending nested tokens rest trees)
    (ends : EndsElements (headKind rest)) :
    Reads ending (listBody nested) tokens rest (·.1.map Node.bare = trees) := by
  obtain ⟨newlines, core, rfl, skips, -, loop⟩ := body.parts isEnd rfl rfl ends.kinds.2.2.1
  refine skips.bind fun _ _ => reads_peek fun t => ?_
  refine loop.andThen fun found same => ?_
  exact reads_pure same

theorem reads_list {opening closing : Token} (opens : opening.kind = .leftBracket)
    (closes : closing.kind = .rightBracket)
    (body : ReadsElements ending nested tokens (closing :: rest) trees) :
    Reads ending (list nested) (opening :: tokens ++ [closing]) rest
      (·.bare = .list trees {}) := by
  refine reads_expect opens ?_
  refine (reads_listBody isEnd body (.inl closes)).bind (v := [closing]) fun found same => ?_
  refine reads_expect closes (reads_pure ?_)
  rw [Node.bare, Node.allBare_eq, same]

/-! ### Mappings -/

omit isEnd in
/-- A turn of the loop over the entries of a mapping. -/
def entryTurn (nested : Nested) (done : List (Token × Node)) :
    Parser (List (Token × Node) ⊕ List (Token × Node)) := do
  if !startsKey (← Parser.kind) then return .inr done
  let done := (← entry nested) :: done
  let found ← Parser.kind
  if isSeparator found then
    let _ ← advance
    let _ ← skipNewlines
    return .inl done
  else if endsBody found then return .inr done
  else fail (.afterEntry found)

omit isEnd in
abbrev ReadsEntries (ending : Token) (nested : Nested) :
    List Token → List Token → List (Token × Node) → Prop :=
  ReadsBody ending (entryTurn nested) startsKey bareEntry

omit isEnd in
theorem kinds_of_endsBody {k : Kind} (ends : endsBody k) :
    startsKey k = false ∧ isSeparator k = false ∧ k ≠ .newline := by
  cases k <;> first | contradiction | decide

variable {item : Token × Node} {items : List (Token × Node)}

theorem readsEntries_nil (lead : AreNewlines newlines) (ends : endsBody (headKind rest)) :
    ReadsEntries ending nested newlines rest [] := by
  refine readsBody_nil lead fun done => reads_kind isEnd ?_
  simp only [List.nil_append, (kinds_of_endsBody ends).1, Bool.not_false, if_true]
  exact reads_pure rfl

theorem readsEntries_last (lead : AreNewlines newlines) (ends : endsBody (headKind rest))
    (starts : startsKey (headKind tokens))
    (reads : Reads ending (entry nested) tokens rest (bareEntry · = item)) :
    ReadsEntries ending nested (newlines ++ tokens) rest [item] := by
  refine readsBody_last lead starts fun done => reads_kind isEnd ?_
  simp only [starts_append rest rfl starts, Bool.not_true, Bool.false_eq_true, if_false]
  refine reads.andThen fun found isItem => reads_kind isEnd ?_
  simp only [List.nil_append, (kinds_of_endsBody ends).2.1, ends, Bool.false_eq_true, if_false,
    if_true]
  exact reads_pure ⟨found, rfl, isItem⟩

theorem readsEntries_cons {more : List Token} (lead : AreNewlines newlines)
    (starts : startsKey (headKind tokens)) (separates : isSeparator separator.kind)
    (ends : endsBody (headKind rest))
    (reads : ∀ rest, Reads ending (entry nested) tokens (separator :: rest) (bareEntry · = item))
    (others : ReadsEntries ending nested more rest items) :
    ReadsEntries ending nested (newlines ++ tokens ++ separator :: more) rest (item :: items) := by
  refine readsBody_cons rfl rfl (kinds_of_endsBody ends).2.2 lead starts
    (fun done gap rest areNewlines notNewline => reads_kind isEnd ?_) others
  have front : startsKey (headKind (tokens ++ separator :: gap ++ rest)) := by
    rw [List.append_assoc]
    exact starts_append _ rfl starts
  simp only [front, Bool.not_true, Bool.false_eq_true, if_false]
  refine Reads.bind (P := (bareEntry · = item)) (reads (gap ++ rest)) fun found isItem =>
    reads_kind isEnd ?_
  simp only [List.cons_append, headKind_cons, separates, if_true]
  refine reads_advance isEnd ?_
  refine (reads_skipNewlines isEnd areNewlines notNewline).andThen fun _ _ => ?_
  exact reads_pure ⟨found, rfl, isItem⟩

theorem reads_mappingBody (body : ReadsEntries ending nested tokens rest items)
    (ends : endsBody (headKind rest)) :
    Reads ending (mappingBody nested) tokens rest (·.1.map bareEntry = items) := by
  obtain ⟨newlines, core, rfl, skips, front, loop⟩ :=
    body.parts isEnd rfl rfl (kinds_of_endsBody ends).2.2
  refine skips.bind fun first isFirst => reads_peek fun t => ?_
  have begins : (!endsBody first && !startsKey first) = false := by
    rw [isFirst]
    rcases front with ⟨rfl, -⟩ | starts
    · simp [ends]
    · simp [starts_append rest rfl starts]
  simp only [begins, Bool.false_eq_true, if_false]
  refine loop.andThen fun found same => ?_
  exact reads_pure same

theorem reads_mapping {opening closing : Token} (opens : opening.kind = .leftCurly)
    (closes : closing.kind = .rightCurly)
    (body : ReadsEntries ending nested tokens (closing :: rest) items) :
    Reads ending (mapping nested) (opening :: tokens ++ [closing]) rest
      (·.bare = .mapping items {}) := by
  refine reads_expect opens ?_
  refine (reads_mappingBody isEnd body (by simp [closes, endsBody])).bind (v := [closing])
    fun found same => ?_
  refine reads_expect closes (reads_pure ?_)
  rw [Node.bare, Node.entriesBare_eq, ← same]
  rfl

theorem reads_entry {label gap : List Token} {key sign : Token} (isKey : Key label key)
    (isSign : sign.kind = .colon ∨ sign.kind = .assign) (areNewlines : AreNewlines gap)
    (starts : startsExpression (headKind tokens))
    (reads : Reads ending (nested .disjunction) tokens rest (·.bare = tree)) :
    Reads ending (entry nested) (label ++ sign :: gap ++ tokens) rest
      (bareEntry · = (key, tree)) := by
  have keyed : Reads ending mappingKey label (sign :: gap ++ tokens ++ rest) (·.bare = key) := by
    refine reads_kind isEnd ?_
    cases isKey with
    | word isWord =>
      simp only [List.singleton_append, headKind_cons, isWord, reduceCtorEq, if_false]
      rw [← bind_pure take]
      exact reads_take (reads_pure rfl)
    | strings areStrings =>
      obtain ⟨first, more, rfl, isString⟩ := areStrings.head
      simp only [List.cons_append, headKind_cons, isString, if_true]
      refine reads_strings isEnd areStrings ?_
      rcases isSign with colon | assign
      · simp [colon]
      · simp [assign]
  rw [List.append_assoc]
  refine keyed.bind fun found isFound => reads_kind isEnd ?_
  have known : ¬(sign.kind ≠ .colon ∧ sign.kind ≠ .assign) := by
    rintro ⟨noColon, noAssign⟩
    exact isSign.elim noColon noAssign
  simp only [List.cons_append, headKind_cons, known, if_false]
  refine reads_advance isEnd ?_
  have notNewline : headKind (tokens ++ rest) ≠ .newline := by
    intro newline
    have front := starts_append rest rfl starts
    rw [newline] at front
    contradiction
  refine (reads_skipNewlines isEnd areNewlines notNewline).bind fun _ _ => ?_
  refine reads.andThen fun node isTree => reads_pure ?_
  rw [bareEntry, isFound, isTree]

end Parser

end LazyConfig.Syntax
