import LazyConfig.Text.Encoding

/-!
# Files

A tree of files, directories and symbolic links, and the ways to name a file in it. A name is
followed from the root or the working directory, component by component and through links, to a
place; the place of a file does not depend on how the file was named. A name that leads nowhere
says why.
-/

namespace LazyConfig

open Text (Encoding Decoded)

/-- The components of an absolute name without links, the outermost first. -/
abbrev Place := List String

inductive FileEntry where
  | file (content : ByteArray)
  | link (target : String)
  | directory

structure FileTree where
  workingDirectory : Place
  entries : List (Place × FileEntry)

/-- Text with every line end written as one line feed. -/
def unifyNewlines : List Char → List Char
  | [] => []
  | '\r' :: '\n' :: rest => '\n' :: unifyNewlines rest
  | '\r' :: rest => '\n' :: unifyNewlines rest
  | c :: rest => c :: unifyNewlines rest

theorem not_mem_unifyNewlines (text : List Char) : '\r' ∉ unifyNewlines text := by
  fun_induction unifyNewlines text with
  | case1 => simp
  | case2 rest ih => simpa using ih
  | case3 rest _ ih => simpa using ih
  | case4 c rest _ ordinary ih =>
    intro there
    rcases List.mem_cons.mp there with same | later
    · exact ordinary same.symm
    · exact ih later

/-- The text of a file with its line ends unified. A carriage return is held back until it is known
whether a line feed follows, so it is lost where the text breaks off behind it. -/
def unifiedText (text : Decoded) : Decoded :=
  let known := if text.fault.isSome ∧ text.characters.getLast? = some '\r'
    then text.characters.dropLast else text.characters
  { text with characters := unifyNewlines known }

theorem not_mem_unifiedText (text : Decoded) : '\r' ∉ (unifiedText text).characters :=
  not_mem_unifyNewlines _

def Place.text (p : Place) : String := "/" ++ "/".intercalate p

namespace FileTree

/-! ### Names -/

def isAbsolute (name : String) : Bool := name.startsWith "/"

/-- The name of a file relative to a directory, unless it is absolute. -/
def join (directory name : String) : String :=
  if isAbsolute name then name
  else if directory = "" ∨ directory.endsWith "/" then directory ++ name
  else directory ++ "/" ++ name

/-- The components of a name without detours, taking every component for a directory. -/
def normalize (start : Place) (components : List String) : Place :=
  components.foldl (fun place component =>
    if component = "" ∨ component = "." then place
    else if component = ".." then place.dropLast
    else place ++ [component]) start

/-- What an absolute name starts with when it is normalized: exactly two slashes have a meaning of
their own and are kept, more of them count as one. -/
def rootMark (name : String) : String :=
  if name.startsWith "//" ∧ ¬ name.startsWith "///" then "//" else "/"

variable (t : FileTree)

def startOf (name : String) : Place := if isAbsolute name then [] else t.workingDirectory

/-- The directory that a name puts its file in, without following links. -/
def directoryOf (name : String) : String :=
  let place := normalize (t.startOf name) (name.splitOn "/")
  rootMark name ++ "/".intercalate place.dropLast

/-! ### Following names -/

def entry? (place : Place) : Option FileEntry := t.entries.lookup place

/-- Directories are those that are listed, and those that something is in. -/
def isDirectory (place : Place) : Bool :=
  place.isPrefixOf t.workingDirectory ||
    t.entries.any fun (other, entry) =>
      if other = place then entry matches .directory else place.isPrefixOf other

/-- Why a name leads to no file that can be read. -/
inductive Fault where
  | notFound
  /-- A component behind something that is no directory. -/
  | notDirectory
  | isDirectory
  /-- More links than are followed for one name. -/
  | tooManyLinks
  | nameTooLong
  /-- A character that no name can have. -/
  | nullCharacter
deriving DecidableEq, Repr

/-- How many bytes a component of a name can have. -/
def componentLimit : Nat := 255

/-- How many bytes a name can have. -/
def nameLimit : Nat := 4095

/-- How many links are followed for one name. -/
def linkLimit : Nat := 40

/-- The place that components lead to from a directory. The first argument says where components
lead from the directory of a link, those of its target before those that follow the link. -/
def walkWith (follow : Place → List String → Except Fault Place) :
    Place → List String → Except Fault Place
  | place, [] => .ok place
  | place, component :: rest =>
    if !t.isDirectory place then .error .notDirectory
    else if component = "" ∨ component = "." then walkWith follow place rest
    else if component = ".." then walkWith follow place.dropLast rest
    else if componentLimit < component.utf8ByteSize then .error .nameTooLong
    else
      let next := place ++ [component]
      match t.entry? next with
      | some (.link target) =>
        follow (if isAbsolute target then [] else place) (target.splitOn "/" ++ rest)
      | some _ => walkWith follow next rest
      | none => if t.isDirectory next then walkWith follow next rest else .error .notFound

/-- The place that components lead to from a directory through at most so many links. -/
def walk : Nat → Place → List String → Except Fault Place
  | 0 => t.walkWith fun _ _ => .error .tooManyLinks
  | links + 1 => t.walkWith (walk links)

variable {t} in
/-- A place is still reached when links lead further. -/
theorem walkWith_mono {follow further : Place → List String → Except Fault Place}
    (leads : ∀ start components place,
      follow start components = .ok place → further start components = .ok place)
    {start place : Place} {components : List String}
    (found : t.walkWith follow start components = .ok place) :
    t.walkWith further start components = .ok place := by
  fun_induction walkWith t follow start components <;> grind [walkWith]

variable {t} in
/-- A place that is reached through few links is reached when more of them are followed. -/
theorem walk_succ {links : Nat} {start place : Place} {components : List String}
    (found : t.walk links start components = .ok place) :
    t.walk (links + 1) start components = .ok place := by
  induction links generalizing start place components with
  | zero => exact walkWith_mono (fun _ _ _ beyond => by cases beyond) found
  | succ links ih => exact walkWith_mono (fun _ _ _ => ih) found

/-- The place that a name leads to. -/
def resolve (name : String) : Except Fault Place :=
  if name.contains '\x00' then .error .nullCharacter
  else if name = "" then .error .notFound
  else if nameLimit < name.utf8ByteSize then .error .nameTooLong
  else t.walk linkLimit (t.startOf name) (name.splitOn "/")

/-- The place that a name leads to, if there is anything. -/
def resolve? (name : String) : Option Place := (t.resolve name).toOption

def isFile (name : String) : Bool :=
  ((t.resolve? name).bind t.entry?).any fun entry => entry matches .file _

/-- The text of a file. -/
def read (encoding : Encoding) (name : String) : Except Fault Decoded := do
  match t.entry? (← t.resolve name) with
  | some (.file content) => return unifiedText (encoding.decode content.toList)
  | _ => throw .isDirectory

/-- The tree with something put at a place. -/
def put (place : Place) (entry : FileEntry) : FileTree :=
  { t with entries := (place, entry) :: t.entries.filter (·.1 ≠ place) }

end FileTree

end LazyConfig
