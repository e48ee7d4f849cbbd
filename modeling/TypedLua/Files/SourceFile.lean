import TypedLua.Files.Path

/-!
# TypedLua.Files.SourceFile

A module's source text with the names of the file that holds it, and the rule by which an import
names another file.
-/

namespace TypedLua

/-- A source text and where it is kept. -/
structure SourceFile where
  /-- The directory of the file. -/
  directory : Path
  /-- The name of the file in it. -/
  fileName : String
  /-- The file name without its extension. -/
  moduleName : String
  /-- The source text. -/
  text : String
deriving DecidableEq, Repr, Inhabited

namespace SourceFile

/-- The source text kept at a path. -/
def ofPath (p : Path) (text : String) : SourceFile where
  directory := p.parent?.getD ⟨""⟩
  fileName := p.fileName?.getD ""
  moduleName := (p.fileName?.map Path.stem).getD ""
  text := text

/-- The path of the file. -/
def path (f : SourceFile) : Path := f.directory.join ⟨f.fileName⟩

/-- The extension of source files. -/
def extension : String := ".lua"

/-- The text after a leading `./`, or the whole text. -/
def withoutHere : List Char → List Char
  | '.' :: '/' :: cs => cs
  | cs => cs

/-- The file that an import names: only names that start with a point lead to files, and they are
seen from the directory of the importing file. -/
def importPath? (f : SourceFile) (modulePath : String) : Option Path :=
  match modulePath.toList with
  | '.' :: cs =>
    let relative := withoutHere ('.' :: cs)
    if relative.isEmpty then none
    else some (f.directory.join ⟨String.ofList relative ++ extension⟩)
  | _ => none

end SourceFile

end TypedLua
