import TypedLua.Files.Path

/-!
# TypedLua.Files.Tree

The files that modules are loaded from: a finite tree, and a directory in it from which relative
paths are followed.  A file may be named by many paths, but it stands at one place, which is given by
the names that lead there from the root.
-/

namespace TypedLua

/-! ## §1. Trees -/

/-- What stands at a place of the tree. -/
inductive FileNode where
  /-- A directory. -/
  | directory
  /-- A file of text. -/
  | text (content : String)
  /-- A file whose bytes are not text. -/
  | binary
deriving DecidableEq, Repr, Inhabited

/-- Why a file cannot be read. -/
inductive ReadError where
  /-- There is nothing at the path. -/
  | missing
  /-- The path goes through a file. -/
  | notDirectory
  /-- There is a directory at the path. -/
  | isDirectory
  /-- The file does not hold text. -/
  | notText
deriving DecidableEq, Repr

/-- The wording of a failure to read. -/
def ReadError.message : ReadError → String
  | missing => "No such file or directory (os error 2)"
  | notDirectory => "Not a directory (os error 20)"
  | isDirectory => "Is a directory (os error 21)"
  | notText => "stream did not contain valid UTF-8"

/-- A finite tree of files. -/
structure FileTree where
  /-- The working directory, as a path from the root. -/
  here : String
  /-- What stands in the tree, by the names that lead there from the root. -/
  nodes : List (List String × FileNode) := []
deriving DecidableEq, Repr, Inhabited

namespace FileTree

/-- The place of the working directory. -/
def hereNames (t : FileTree) : List String := (Path.mk t.here).names

/-- What stands at a place.  The working directory and those around it are always there. -/
def node? (t : FileTree) (place : List String) : Option FileNode :=
  if place.isPrefixOf t.hereNames then some .directory else t.nodes.lookup place

/-! ## §2. Places -/

/-- The place that one name leads to from a directory.  The root is its own parent. -/
def enter (t : FileTree) (place : List String) (name : String) : Except ReadError (List String) :=
  if Path.isVoid name then .ok place
  else if name == ".." then .ok place.dropLast
  else if (t.node? (place ++ [name])).isSome then .ok (place ++ [name])
  else .error .missing

/-- Follow names, each from a directory. -/
def follow (t : FileTree) : List String → List String → Except ReadError (List String)
  | place, [] => .ok place
  | place, name :: names =>
    if t.node? place = some .directory then
      match t.enter place name with
      | .ok next => t.follow next names
      | .error e => .error e
    else .error .notDirectory

/-- The place that a path starts from. -/
def start (t : FileTree) (p : Path) : List String := if p.isAbsolute then [] else t.hereNames

/-- The place that a path leads to. -/
def locate (t : FileTree) (p : Path) : Except ReadError (List String) :=
  if p.text == "" then .error .missing
  else t.follow (t.start p) ((Path.splitSlashes p.text.toList).map String.ofList)

/-! ## §3. Reading -/

/-- The text of the file at a path. -/
def read (t : FileTree) (p : Path) : Except ReadError String := do
  match t.node? (← t.locate p) with
  | some (.text content) => .ok content
  | some .directory => .error .isDirectory
  | some .binary => .error .notText
  | none => .error .missing

/-- Whether there is a file at a path. -/
def isFile (t : FileTree) (p : Path) : Bool :=
  match t.locate p with
  | .ok place => (t.node? place).any (· != .directory)
  | .error _ => false

/-- What identifies the file at a path: its place if it exists, and otherwise the names of the path
seen from the root.  The empty path is nowhere. -/
def key (t : FileTree) (p : Path) : List String :=
  match t.locate p with
  | .ok place => "/" :: place
  | .error _ => if p.text == "" then [] else "/" :: (t.start p ++ p.names)

/-! ## §4. Changes -/

/-- The tree with `node` at a place. -/
def setNode (t : FileTree) (place : List String) (node : FileNode) : FileTree :=
  { t with nodes := (place, node) :: t.nodes.filter fun entry => entry.1 != place }

/-- The place that a path would lead to if all its names led somewhere. -/
def target (t : FileTree) (p : Path) : List String :=
  p.names.foldl (fun place name => if name == ".." then place.dropLast else place ++ [name])
    (t.start p)

/-- Put `node` at a path, making the directories on the way. -/
def write (t : FileTree) (p : Path) (node : FileNode) : FileTree :=
  let place := t.target p
  let parents := (List.range place.length).map place.take
  let t := parents.foldl (fun t parent => if (t.node? parent).isSome then t
    else t.setNode parent .directory) t
  t.setNode place node

/-- Remove the file at a path; says whether there was one. -/
def remove (t : FileTree) (p : Path) : Bool × FileTree :=
  match t.isFile p, t.locate p with
  | true, .ok place => (true, { t with nodes := t.nodes.filter fun entry => entry.1 != place })
  | _, _ => (false, t)

/-- How many places hold something. -/
def size (t : FileTree) : Nat := t.nodes.length

end FileTree

end TypedLua
