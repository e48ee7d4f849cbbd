import TypedLua.Grammar.Module
import TypedLua.Session.Basic
import TypedLua.Typing.Module

/-!
# TypedLua.Session.Compile

Compiling modules in a session.  Compiling a module reads it, loading and compiling the modules that
it imports, and then checks it; the first fault is reported and ends the module.  A file that is
being loaded is never loaded again, so the chain of imports is no longer than there are files.
-/

namespace TypedLua.Session

open Text

/-! ## §1. Reading and checking -/

/-- Loads the module kept at a path, given its text. -/
abbrev Loader := Path → String → StateM Session (Option Module)

/-- A parser at the start of a text. -/
def startParser (text : String) (session : Session) : Except Fault ParserState := do
  let stream ← Token.Stream.ofSource text
  return { stream, session }

/-- Read a module, without marking its file as being loaded. -/
def readModule (files : FileTree) (load : Loader) (file : SourceFile) :
    StateM Session (Except Fault Module) := fun session =>
  match startParser file.text session with
  | .error f => (.error f, session)
  | .ok start =>
    let (found, state) := Grammar.module ⟨files, file, load⟩ start
    (found, state.session)

/-- Report the fault of a module of the given file, if it has one. -/
def conclude {α : Type} (file : SourceFile) : Except Fault α → StateM Session (Option α)
  | .ok a => return some a
  | .error f => do
    modify (·.report file f.diagnostic)
    return none

/-- Read the module kept at a path, and report its first fault. -/
def parseWith (files : FileTree) (load : Loader) (path : Path) (text : String) :
    StateM Session (Option Module) := do
  let file := SourceFile.ofPath path text
  modify fun s => { s with loading := files.key path :: s.loading }
  let found ← readModule files load file
  modify fun s => { s with loading := s.loading.tail }
  conclude file found

/-- Check a module, and report its first fault.  The module is given back with the types found so
far, and whether it is free of faults. -/
def validate (m : Module) : StateM Session (Bool × Module) := do
  let s ← get
  let ((m, found), types) := m.check s.config s.vars s.types
  set { s with types }
  return ((← conclude m.file found).isSome, m)

/-- Read and check the module kept at a path. -/
def compileWith (files : FileTree) (load : Loader) (path : Path) (text : String) :
    StateM Session (Option Module) := do
  match ← parseWith files load path text with
  | none => return none
  | some m =>
    let (valid, m) ← validate m
    return if valid then some m else none

/-! ## §2. Imports -/

/-- Compile a module whose imports are nested at most `depth` deep. -/
def compileWithin (files : FileTree) : Nat → Loader
  | 0 => compileWith files fun _ _ => return none
  | depth + 1 => compileWith files (compileWithin files depth)

/-- Compile the module kept at a path, given its text. -/
def compile (files : FileTree) : Loader := compileWithin files files.size

/-- Read the module kept at a path, given its text; imported modules are compiled. -/
def parse (files : FileTree) : Loader := parseWith files (compile files)

/-! ## §3. Files -/

/-- Why a file is not compiled. -/
inductive CompileError where
  /-- The file cannot be read. -/
  | unreadable (path : Path) (cause : ReadError)
  /-- The module is refused. -/
  | refused (diagnostic : Diagnostic)
deriving DecidableEq, Repr

/-- The wording of a failure to compile a file. -/
def CompileError.message : CompileError → String
  | unreadable path cause => s!"unable to open file '{path.text}': {cause.message}"
  | refused diagnostic => diagnostic.message

/-- Compile the module in a file.  What is given back of a refused module is the first diagnostic
that compiling it reports. -/
def compileFile (files : FileTree) (path : Path) : StateM Session (Except CompileError Module) := do
  match files.read path with
  | .error cause => return .error (.unreadable path cause)
  | .ok text =>
    let before := (← get).reported.length
    match ← compile files path text with
    | some m => return .ok m
    | none =>
      let first := ((← get).reported.drop before).head?
      return .error (.refused (first.getD ⟨{}, "compilation failed"⟩))

end TypedLua.Session
