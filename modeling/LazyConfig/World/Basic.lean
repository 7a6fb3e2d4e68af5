import LazyConfig.World.FileTree
import LazyConfig.World.Registry

/-!
# The world of a document

What a document finds outside itself: files, environment variables and named objects; and the
settings that it shares with all documents it includes.
-/

namespace LazyConfig

structure World where
  files : FileTree
  environment : List (String × String) := []
  registry : Registry := {}

/-- What turns a conversion text into a value. -/
inductive Converter where
  /-- Dates, environment variables, named objects and interpolation. -/
  | standard
  | identity
  /-- The value of the document at the text, taken for a key. -/
  | lookup
  | table (entries : List (String × Value))

/-- What finds the objects that conversion texts name. -/
inductive Resolver where
  | registry
  | table (entries : List (String × Value))

structure Settings where
  /-- The values of bare words. -/
  context : List (String × Value) := []
  /-- Directories that are searched for included files after the document's own. -/
  includePath : List String := []
  noDuplicates : Bool := true
  /-- Whether it is an error that a conversion text stays as it is. -/
  strictConversions : Bool := true
  converter : Converter := .standard
  resolver : Resolver := .registry
  encoding : Text.Encoding := .utf8

end LazyConfig
