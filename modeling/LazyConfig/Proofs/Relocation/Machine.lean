import LazyConfig.Proofs.Relocation.Operator
import LazyConfig.Proofs.Relocation.Path

/-!
# The machine in relocated stores

Every request that is relocated has the relocated answer: this is so for the answer of each request
if it is so for the requests that it makes, and the depth at which evaluations stand inside one
another is the same in both stores.
-/

namespace LazyConfig

open Eval
open Evaluation
open Inclusion
open Conversion

variable {r : Relocation} {scope : Scope}

/-! ### Named objects -/

namespace Value

theorem IsOutside.attribute {v found : Value} {name : String} (outside : v.IsOutside)
    (isFound : v.attribute? name = some found) : found.IsOutside := by
  cases v with
  | object _ attributes mark =>
    rw [IsOutside, Within] at outside
    exact outside.lookup isFound
  | _ => cases isFound

end Value

namespace Registry

theorem isOutside_follow {v found : Value} {names : List String} (outside : v.IsOutside)
    (leads : follow v names = some found) : found.IsOutside := by
  induction names generalizing v with
  | nil =>
    cases leads
    exact outside
  | cons name rest ih =>
    rw [follow] at leads
    obtain ⟨next, isNext, leads⟩ := Option.bind_eq_some_iff.mp leads
    exact ih (outside.attribute isNext) leads

theorem isOutside_lookup {entries : List (String × Value)} {name : String} {v : Value}
    (all : ∀ entry ∈ entries, entry.2.IsOutside) (found : entries.lookup name = some v) :
    v.IsOutside :=
  ((Value.entriesWithin_iff _).mpr all).lookup found

variable {registry : Registry} (modules : ∀ entry ∈ registry.modules, entry.2.IsOutside)
  (builtins : ∀ entry ∈ registry.builtins, entry.2.IsOutside)

include modules

theorem isOutside_importSplit {found : Value} {before rest : List String}
    (imported : registry.importSplit before rest = some found) : found.IsOutside := by
  induction before generalizing rest with
  | nil => cases imported
  | cons last before ih =>
    rw [importSplit] at imported
    split at imported
    · rename_i v isFound
      cases imported
      obtain ⟨module, isModule, leads⟩ := Option.bind_eq_some_iff.mp isFound
      exact isOutside_follow (isOutside_lookup modules isModule) leads
    · exact ih imported

include builtins

theorem isOutside_import {found : Value} {path : String}
    (imported : registry.import? path = some found) : found.IsOutside := by
  unfold import? at imported
  split at imported
  · exact isOutside_importSplit modules imported
  · rcases Option.or_eq_some_iff.mp imported with isBuiltin | ⟨-, isModule⟩
    · exact isOutside_lookup builtins isBuiltin
    · exact isOutside_lookup modules isModule

theorem isOutside_resolve {found : Value} {name : String} {member : Option String}
    (resolved : registry.resolve name member = .ok found) : found.IsOutside := by
  unfold resolve at resolved
  split at resolved
  · cases resolved
  rename_i v imported
  have outside := isOutside_import modules builtins imported
  split at resolved
  · cases resolved
    exact outside
  split at resolved
  · cases resolved
    exact outside
  split at resolved
  · cases resolved
  · rename_i function
    split at resolved
    · cases resolved
    · cases resolved
      have called := outside.attribute function
      rwa [Value.IsOutside, Value.Within] at called
  · rename_i member
    cases resolved
    exact outside.attribute member

end Registry

namespace Evaluation

/-! ### Included files -/

theorem alike_readFile (name : String) :
    Alike r .plain scope (readFile name) (readFile name) := by
  refine .world fun environment outside => .settings fun other outside => ?_
  split
  · exact .plain _
  · exact .failHost _

theorem alike_parsed (rule : Syntax.Parser Node) (text : Text.Decoded) :
    Alike r .plain scope (parsed rule text) (parsed rule text) := by
  refine Alike.fresh.bind fun _ source _ => ?_
  cases Token.Stream.ofText text with
  | error e => exact .throw _
  | ok stream =>
    dsimp only
    split
    · exact .plain _
    · exact .throw _

theorem alike_nested {id : DocumentId} (name : String) (root : Node)
    (inside : id < scope.documents) :
    Alike r (.value r) scope (nested id name root) (nested (r.document id) name root) := by
  refine (Alike.document inside).bind fun {wide} le outer within => ?_
  refine .world fun environment outside => ?_
  let inner : Document := { parent := some id, cache := outer.cache.map fun _ => [] }
  let placed : Document := inner.atFile environment.world.files outer.includeChain name
  have placedWithin : placed.Within wide :=
    { parent := fun _ isParent => Option.some.inj isParent ▸ (Cargo.document r).mono le inside
      root := fun _ isRoot => by cases isRoot
      cache := fun entries kept => by
        obtain ⟨-, -, rfl⟩ := Option.map_eq_some_iff.mp kept
        intro entry among
        cases among
      views := fun _ among => by cases among }
  have same : placed.relocate r = Document.atFile
      { parent := some (r.document id), cache := (outer.relocate r).cache.map fun _ => [] }
      environment.world.files outer.includeChain name := by
    simp only [placed, inner, Document.relocate, Document.atFile, Option.map_map]
    rfl
  have added := Alike.addDocument (r := r) placedWithin
  rw [same] at added
  refine added.bind fun {wider} more child childInside => ?_
  cases root with
  | list elements span =>
    -- the root of the new document is the root of the one that includes it
    refine Alike.bind (c := .plain) (.modifyDocument childInside (fun d => rfl)
      (fun wide d dWithin => { dWithin with
        root := fun view isRoot => (Cargo.view r).mono (more.trans wide) (within.root view isRoot) })
      fun d => rfl) fun last _ _ => ?_
    exact (alike_listView elements span ((Cargo.document r).mono last childInside)).bind
      fun _ view present => @Alike.value _ _ (.listView view) present
  | mapping entries span =>
    refine (alike_mappingView entries span childInside).bind fun last view present => ?_
    have there := (Cargo.document r).mono last childInside
    refine Alike.bind (c := .plain) (.modifyDocument there (fun d => rfl)
      (fun wide d dWithin => { dWithin with
        root := fun _ isRoot => Option.some.inj isRoot ▸ (Cargo.view r).mono wide present })
      fun d => rfl) fun most _ _ => ?_
    exact @Alike.value r _ (.document child) ((Cargo.document r).mono most there)
  | _ => exact .fail _ _

theorem alike_includedFile {id : DocumentId} (name : String) (start : Location)
    (inside : id < scope.documents) :
    Alike r (.value r) scope (includedFile id name start)
      (includedFile (r.document id) name start) := by
  refine (Alike.document inside).bind fun {wide} le outer _ => ?_
  refine .read fun environment _ => ?_
  -- a file is looked for in the same directories
  rw [show located? ((Cargo.content r).relocate outer) environment name =
    located? outer environment name from rfl]
  cases located? outer environment name with
  | none => exact .fail _ _
  | some pair =>
    rw [show ((Cargo.content r).relocate outer).includeChain = outer.includeChain from rfl]
    dsimp only
    split
    · exact .fail _ _
    · refine (alike_readFile pair.1).bind fun {wider} more text _ => ?_
      refine (alike_parsed Syntax.document text).bind fun {widest} most root _ => ?_
      exact alike_nested pair.1 root ((Cargo.document r).mono ((le.trans more).trans most) inside)

/-! ### Conversions -/

/-- What a converter makes of a text. -/
abbrev converted (r : Relocation) : Cargo Converted := (Cargo.value r).option

theorem alike_notConverted : Alike r (converted r) scope (pure none) (pure none) :=
  @Alike.pure _ _ _ (converted r) none (fun _ isSome => by cases isSome)

theorem alike_converted {v : Value} (within : v.Within scope) :
    Alike r (converted r) scope (pure (some v)) (pure (some (v.relocate r))) :=
  @Alike.pure _ _ _ (converted r) (some v) (fun _ isSome => Option.some.inj isSome ▸ within)

theorem alike_convertedOutside {v : Value} (outside : v.IsOutside) :
    Alike r (converted r) scope (pure (some v)) (pure (some v)) := by
  have alike := @alike_converted r scope v (outside.within scope)
  rwa [Value.relocate_of_isOutside outside] at alike

theorem alike_tableEntry {entries : List (String × Value)} (key : String)
    (outside : ∀ entry ∈ entries, entry.2.IsOutside) :
    Alike r (converted r) scope (pure (entries.lookup key)) (pure (entries.lookup key)) := by
  cases found : entries.lookup key with
  | none => exact alike_notConverted
  | some v => exact alike_convertedOutside (Registry.isOutside_lookup outside found)

theorem alike_resolved (name : String) (member : Option String) :
    Alike r (converted r) scope (resolved name member) (resolved name member) := by
  refine .settings fun environment outside => ?_
  cases isResolver : environment.settings.resolver with
  | table entries => exact alike_tableEntry _ (outside.resolver entries isResolver)
  | registry =>
    refine .world fun environment outside => ?_
    cases result : environment.world.registry.resolve name member with
    | ok v =>
      exact alike_convertedOutside
        (Registry.isOutside_resolve outside.modules outside.builtins result)
    | error fault =>
      cases fault with
      | needsArguments member => exact .fail _ _
      | _ => exact alike_notConverted

theorem alike_settle (text : String) (mark : Mark) {result : Converted}
    (within : (converted r).Within scope result) :
    Alike r (.value r) scope (settle text mark result)
      (settle text mark ((converted r).relocate result)) := by
  have kept : Alike r (.value r) scope
      (do if (← Eval.settings).strictConversions then fail (.notConverted text)
          else return .text text mark)
      (do if (← Eval.settings).strictConversions then fail (.notConverted text)
          else return .text text mark) := by
    refine .settings fun environment _ => ?_
    split
    · exact .fail _ _
    · exact @Alike.value r _ (.text text mark) trivial
  cases result with
  | none => exact kept
  | some v =>
    unfold settle
    have same : (v.relocate r).same (.text text mark) = v.same (.text text mark) :=
      Value.same_relocate v (.text text mark)
    simp only [Cargo.option, Cargo.value, Option.map_some, Option.filter_some, same]
    cases v.same (.text text mark) with
    | true => exact kept
    | false => exact .value (within v rfl)

section

variable {m : Machine} (asks : m.AsksAlike r)

include asks

theorem alike_included {id : DocumentId} (operand : Node) (inside : id < scope.documents) :
    Alike r (.value r) scope (included m id operand) (included m (r.document id) operand) := by
  rw [included_eq, included_eq]
  refine (alike_evaluate asks operand inside).bind fun {wider} le v within => ?_
  have refused : Alike r (.value r) wider
      (do fail (.notFileName (← describe v)) operand.start)
      (do fail (.notFileName (← describe (v.relocate r))) operand.start) :=
    (alike_describe within).bind fun _ _ _ => .fail _ _
  cases v with
  | text name mark => exact alike_includedFile name _ ((Cargo.document r).mono le inside)
  | _ =>
    simp only [Cargo.value, Value.relocate] at refused ⊢
    exact refused

theorem alike_lookup {id : DocumentId} (key : String) {default? : Option Value}
    (inside : id < scope.documents) (within : ∀ v, default? = some v → v.Within scope) :
    Alike r (.value r) scope (m.lookup id key default?)
      (m.lookup (r.document id) key (default?.map (Value.relocate r))) :=
  @asks scope (.lookup id key default?) ⟨inside, within⟩

theorem alike_pieceText {id : DocumentId} (piece : Conversion.Piece)
    (inside : id < scope.documents) :
    Alike r .plain scope (pieceText m id piece) (pieceText m (r.document id) piece) := by
  cases piece with
  | literal text => exact .plain text
  | path text =>
    exact (alike_lookup asks text inside (fun _ isSome => by cases isSome)).bind
      fun _ _ within => alike_interpolated within

theorem alike_filledIn {id : DocumentId} (pieces : List Conversion.Piece)
    (inside : id < scope.documents) :
    Alike r (converted r) scope (filledIn m id pieces) (filledIn m (r.document id) pieces) := by
  rw [filledIn_eq, filledIn_eq]
  have texts : Alike r (Cargo.plain (α := String)).list scope (pieces.mapM (pieceText m id))
      (pieces.mapM (pieceText m (r.document id))) :=
    .mapM_plain fun le piece => alike_pieceText asks piece ((Cargo.document r).mono le inside)
  refine (texts.bind fun _ texts _ => ?_).tryCatch fun _ failure => ?_
  · -- texts refer to nothing
    rw [show (Cargo.plain (α := String)).list.relocate texts = texts from List.map_id texts]
    exact (Alike.joinedText _).bind fun _ _ within => alike_converted within
  · cases failure with
    | error e => exact alike_notConverted
    | _ => exact .throw _

theorem alike_standardConverted {id : DocumentId} (text : List Char)
    (inside : id < scope.documents) :
    Alike r (converted r) scope (standardConverted m id text)
      (standardConverted m (r.document id) text) := by
  unfold standardConverted
  split
  · split
    · exact Alike.freshMark.bind fun _ mark _ => alike_convertedOutside trivial
    · exact Alike.freshMark.bind fun _ mark _ => alike_convertedOutside trivial
    · exact alike_notConverted
  · refine .world fun environment _ => ?_
    split
    · exact (Alike.newText _).bind fun _ _ within => alike_converted within
    · exact alike_convertedOutside trivial
  · exact alike_resolved _ _
  · dsimp only
    split
    · exact alike_filledIn asks _ inside
    · exact alike_notConverted

theorem alike_converterResult {id : DocumentId} (text : String) (inside : id < scope.documents) :
    Alike r (converted r) scope (converterResult m id text)
      (converterResult m (r.document id) text) := by
  refine .settings fun environment outside => ?_
  cases isConverter : environment.settings.converter with
  | standard => exact alike_standardConverted asks _ inside
  | identity => exact alike_notConverted
  | lookup =>
    exact (alike_lookup asks text inside (fun _ isSome => by cases isSome)).bind
      fun _ _ within => alike_converted within
  | table entries => exact alike_tableEntry _ (outside.converter entries isConverter)

theorem alike_converting {id : DocumentId} (text : String) (inside : id < scope.documents) :
    Alike r (converted r) scope (converting m id text) (converting m (r.document id) text) := by
  refine Alike.bind (c := .plain) (.modifyDocument inside (fun d => rfl)
    (fun _ d within => { within with }) fun d => rfl) fun {wider} le _ _ => ?_
  have there := (Cargo.document r).mono le inside
  exact .andFinally (alike_converterResult asks text there) there (fun d => rfl)
    (fun _ d within => { within with }) fun d => rfl

theorem alike_convert {id : DocumentId} (text : String) (mark : Mark)
    (inside : id < scope.documents) :
    Alike r (.value r) scope (convert m id text mark) (convert m (r.document id) text mark) := by
  rw [convert_eq, convert_eq]
  refine (Alike.document inside).bind fun {wider} le d _ => ?_
  rw [show ((Cargo.content r).relocate d).converting = d.converting from rfl]
  split
  · exact .fail _ _
  · exact (alike_converting asks text ((Cargo.document r).mono le inside)).bind
      fun _ result within => alike_settle text mark within

/-! ### Trees -/

omit asks in
theorem alike_notEvaluable (node : Node) :
    Alike r (.value r) scope (notEvaluable node) (notEvaluable node) :=
  (Alike.shown _).bind fun _ _ _ => .fail _ _

omit asks in
theorem alike_variableValue (name : String) (location : Location) :
    Alike r (.value r) scope (variableValue name location) (variableValue name location) := by
  refine .settings fun environment outside => ?_
  cases found : environment.settings.context.lookup name with
  | none => exact .fail _ _
  | some v => exact .outside (Registry.isOutside_lookup outside.context found)

theorem alike_tokenValue {id : DocumentId} (token : Token) (inside : id < scope.documents) :
    Alike r (.value r) scope (tokenValue m id token) (tokenValue m (r.document id) token) := by
  have literal : Alike r (.value r) scope (pure (.ofLiteral token.span token.value))
      (pure (.ofLiteral token.span token.value)) :=
    .outside (Value.isOutside_ofLiteral token.span token.value)
  unfold tokenValue
  split
  any_goals exact literal
  · exact alike_variableValue _ _
  · split
    · exact alike_convert asks _ _ inside
    · exact alike_notEvaluable _
  · exact alike_notEvaluable _

theorem alike_truth {id : DocumentId} (operand : Node) (inside : id < scope.documents) :
    Alike r .plain scope (truth m id operand) (truth m (r.document id) operand) := by
  refine (alike_evaluate asks operand inside).bind fun {wider} le v within => ?_
  have refused : Alike r (.plain (α := Bool)) wider
      (do fail (.notBoolean (← describe v)) operand.start)
      (do fail (.notBoolean (← describe (v.relocate r))) operand.start) :=
    (alike_describe within).bind fun _ _ _ => .fail _ _
  cases v with
  | bool b => exact .plain b
  | _ =>
    simp only [Cargo.value, Value.relocate] at refused ⊢
    exact refused

theorem alike_infixValue {id : DocumentId} (op : Syntax.InfixOp) (left right : Node)
    (inside : id < scope.documents) :
    Alike r (.value r) scope (infixValue m id op left right)
      (infixValue m (r.document id) op left right) := by
  have decided {wider : Scope} (b : Bool) :
      Alike r (.value r) wider (pure (.bool b)) (pure (.bool b)) :=
    @Alike.value r wider (.bool b) trivial
  have rest {wider : Scope} (le : scope ≤ wider) :
      Alike r (.value r) wider (do return .bool (← truth m id right))
        (do return .bool (← truth m (r.document id) right)) :=
    (alike_truth asks right ((Cargo.document r).mono le inside)).bind fun _ b _ => decided b
  unfold infixValue
  split
  · -- the right operand of a conjunction is left alone if the left one does not hold
    refine (alike_truth asks left inside).bind fun le holds _ => ?_
    cases holds with
    | true => exact rest le
    | false => exact decided false
  · refine (alike_truth asks left inside).bind fun le holds _ => ?_
    cases holds with
    | true => exact decided true
    | false => exact rest le
  · refine (alike_evaluate asks left inside).bind fun {wide} le a aWithin => ?_
    refine (alike_evaluate asks right ((Cargo.document r).mono le inside)).bind
      fun {wider} more b bWithin => ?_
    exact alike_applyInfix asks _ _ ((Cargo.document r).mono (le.trans more) inside)
      (Value.Within.mono more aWithin) bWithin

theorem alike_treeValue {id : DocumentId} (node : Node) (inside : id < scope.documents) :
    Alike r (.value r) scope (treeValue m id node) (treeValue m (r.document id) node) := by
  unfold treeValue
  split
  · exact alike_tokenValue asks _ inside
  · exact alike_included asks _ inside
  · exact (alike_evaluate asks _ inside).bind fun _ v within => alike_applyPrefix _ _ within
  · exact alike_reference asks _ _ inside
  · exact alike_infixValue asks _ _ _ inside
  · exact (alike_listView _ _ inside).bind fun _ view present =>
      @Alike.value r _ (.listView view) present
  · exact (alike_mappingView _ _ inside).bind fun _ view present =>
      @Alike.value r _ (.mappingView view) present
  all_goals exact alike_notEvaluable _

theorem alike_operandValue {id : DocumentId} (operand : Syntax.Operand)
    (inside : id < scope.documents) :
    Alike r (.value r) scope (operandValue m id operand)
      (operandValue m (r.document id) operand) := by
  cases operand with
  | node node => exact alike_evaluate asks node inside
  | bounds bounds => exact (Alike.shown _).bind fun _ _ _ => .fail _ _

/-! ### Lookups -/

/-- A value, and whether it was found. -/
abbrev lookedUp (r : Relocation) : Cargo (Value × Bool) := (Cargo.value r).pair .plain

omit asks in
theorem alike_lookedUp {v : Value} (isFound : Bool) (within : v.Within scope) :
    Alike r (lookedUp r) scope (pure (v, isFound)) (pure (v.relocate r, isFound)) :=
  @Alike.pure _ _ _ (lookedUp r) (v, isFound) ⟨within, trivial⟩

omit asks in
theorem alike_withDefault {default? : Option Value} {body other : Eval Value}
    (within : ∀ v, default? = some v → v.Within scope) (alike : Alike r (.value r) scope body other) :
    Alike r (lookedUp r) scope (withDefault default? body)
      (withDefault (default?.map (Value.relocate r)) other) := by
  rw [withDefault_eq, withDefault_eq]
  have given : Alike r (lookedUp r) scope (do return (← body, true)) (do return (← other, true)) :=
    alike.bind fun _ _ vWithin => alike_lookedUp true vWithin
  cases default? with
  | none => exact given
  | some v =>
    refine given.tryCatch fun le failure => ?_
    cases failure with
    | error e =>
      simp only [standIn]
      split
      · exact alike_lookedUp false ((within v rfl).mono le)
      · exact .throw _
    | _ => exact .throw _

theorem alike_found {id : DocumentId} {root : ViewId} (key : String) {default? : Option Value}
    (inside : id < scope.documents) (rootInside : root < scope.views)
    (within : ∀ v, default? = some v → v.Within scope) :
    Alike r (lookedUp r) scope (found m id root key default?)
      (found m (r.document id) (r.view root) key (default?.map (Value.relocate r))) := by
  refine (alike_entryValue? asks key rootInside).bind fun {wider} le entry entryWithin => ?_
  have defaultWithin : ∀ v, default? = some v → v.Within wider :=
    fun v isSome => (within v isSome).mono le
  cases entry with
  | some v => exact alike_lookedUp true (entryWithin v rfl)
  | none =>
    change Alike r _ _ (if Path.isIdentifier key then _ else _) (if Path.isIdentifier key then _ else _)
    split
    · exact alike_withDefault defaultWithin (.fail _ _)
    · exact alike_withDefault defaultWithin
        (alike_followText asks key ((Cargo.document r).mono le inside))

/-- A value that was found is kept under its key. -/
theorem alike_keepFound {id : DocumentId} (key : String) {v : Value}
    (inside : id < scope.documents) (within : v.Within scope) :
    Alike r (.value r) scope
      (do
        let v ← unwrap m v
        modifyDocument id fun d => { d with cache := d.cache.map ((key, v) :: ·) }
        return v)
      (do
        let v ← unwrap m (v.relocate r)
        modifyDocument (r.document id) fun d => { d with cache := d.cache.map ((key, v) :: ·) }
        return v) := by
  refine (alike_unwrap asks within).bind fun {wider} le v vWithin => ?_
  refine Alike.bind (c := .plain) (.modifyDocument ((Cargo.document r).mono le inside) (fun d => ?_)
    (fun more d dWithin => ?_) fun d => rfl) fun last _ _ => .value (vWithin.mono last)
  · simp only [Document.relocate]
    cases d.cache <;> rfl
  · refine { dWithin with cache := fun entries kept => ?_ }
    obtain ⟨before, isBefore, rfl⟩ := Option.map_eq_some_iff.mp kept
    intro entry among
    rcases List.mem_cons.mp among with rfl | among
    · exact ⟨trivial, vWithin.mono more⟩
    · exact dWithin.cache before isBefore entry among

theorem alike_lookupValue {id : DocumentId} (key : String) {default? : Option Value}
    (inside : id < scope.documents) (within : ∀ v, default? = some v → v.Within scope) :
    Alike r (.value r) scope (lookupValue m id key default?)
      (lookupValue m (r.document id) key (default?.map (Value.relocate r))) := by
  refine (Alike.document inside).bind fun {a} le d dWithin => ?_
  have cached : (((Cargo.content r).relocate d).cache.bind (·.lookup key)) =
      (d.cache.bind (·.lookup key)).map (Value.relocate r) := by
    change (d.cache.map (Cargo.value r).entries.relocate).bind _ = _
    cases d.cache with
    | none => rfl
    | some entries => exact Cargo.lookup_relocate (.value r) key entries
  rw [cached]
  cases known : d.cache.bind (·.lookup key) with
  | some v =>
    obtain ⟨entries, isCache, isFound⟩ := Option.bind_eq_some_iff.mp known
    exact .value (@Cargo.within_lookup _ _ _ (.value r) _ _ _ _ (dWithin.cache entries isCache) isFound)
  | none =>
    -- the document is read again, as its entries are looked at
    have there := (Cargo.document r).mono le inside
    refine (Alike.document there).bind fun {b} more d dWithin => ?_
    have there := (Cargo.document r).mono more there
    rw [Cargo.root_content]
    cases isRoot : d.root with
    | none => exact .fail _ _
    | some root =>
      have defaultWithin : ∀ v, default? = some v → v.Within b :=
        fun v isSome => (within v isSome).mono (le.trans more)
      refine (alike_found asks key there (dWithin.root root isRoot) defaultWithin).bind
        fun most entry entryWithin => ?_
      obtain ⟨v, isFound⟩ := entry
      cases isFound with
      | false => exact .value entryWithin.1
      | true => exact alike_keepFound asks key ((Cargo.document r).mono most there) entryWithin.1

/-! ### Answers -/

theorem alike_answer {request : Request} (within : request.Within scope) :
    Alike r (.value r) scope (answer m request) (answer m (request.relocate r)) := by
  cases request with
  | evaluate id node => exact alike_treeValue asks node within
  | materialize v => exact alike_materializeStep asks within
  | lookup id key default? => exact alike_lookupValue asks key within.1 within.2

end

/-- Answers of every depth are alike in both stores. -/
theorem asksAlike_answerWithin (r : Relocation) (depth : Nat) :
    Machine.AsksAlike r ⟨answerWithin depth⟩ := by
  induction depth with
  | zero => exact fun _ => .throw _
  | succ depth ih => exact fun within => alike_answer ih within

/-- What asks the machine that the environment allows. -/
theorem alike_machine {α : Type} {c : Cargo α} {next otherNext : Machine → Eval α}
    (goesOn : ∀ m : Machine, m.AsksAlike r → Alike r c scope (next m) (otherNext m)) :
    Alike r c scope (machine >>= next) (machine >>= otherNext) :=
  fun environment s t => goesOn ⟨answerWithin environment.depth⟩
    (asksAlike_answerWithin r environment.depth) environment s t

end Evaluation

end LazyConfig
