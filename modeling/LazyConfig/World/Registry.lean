import LazyConfig.Value.Basic

/-!
# Named objects

The modules that can be imported, by dotted name, and the names that need no import. A dotted name
leads to a module or, through attributes, to something inside one; the longest name of a module that
leads all the way wins.
-/

namespace LazyConfig

structure Registry where
  modules : List (String × Value) := []
  builtins : List (String × Value) := []

namespace Registry

inductive Fault where
  | notImportable
  | noAttribute
  /-- The member is a function that cannot be called without arguments. -/
  | needsArguments (member : String)
deriving DecidableEq, Repr

/-- What the attributes of the given names lead to. -/
def follow (v : Value) : List String → Option Value
  | [] => some v
  | name :: rest => do follow (← v.attribute? name) rest

/-- What the longest importable beginning of a dotted name leads to; the arguments are the first
components, the last of them first, and the others. -/
def importSplit (r : Registry) : List String → List String → Option Value
  | [], _ => none
  | last :: before, rest =>
    match (r.modules.lookup (".".intercalate (last :: before).reverse)).bind (follow · rest) with
    | some v => some v
    | none => importSplit r before (last :: rest)

def import? (r : Registry) (path : String) : Option Value :=
  if path.contains '.' then r.importSplit (path.splitOn ".").reverse []
  else (r.builtins.lookup path).or (r.modules.lookup path)

/-- What a dotted name and a member of it, if one is given, stand for. A function is called. -/
def resolve (r : Registry) (name : String) (member : Option String) : Except Fault Value :=
  match r.import? name with
  | none => .error .notImportable
  | some v =>
    match member with
    | none => .ok v
    | some member =>
      if member = "" then .ok v
      else match v.attribute? member with
        | none => .error .noAttribute
        | some (.function _ parameters result _) =>
          if (parameters.getD []).any Parameter.isNeeded then .error (.needsArguments member)
          else .ok result
        | some found => .ok found

end Registry

end LazyConfig
