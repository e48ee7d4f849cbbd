import TypedLua.Config.Basic
import TypedLua.Report.Snippet
import TypedLua.Scope.Variable
import TypedLua.Types.Arena

/-!
# TypedLua.Session.Basic

What the modules of one compilation share: the switches, the types and variables, the modules that
are being loaded, and what was reported so far.
-/

namespace TypedLua

/-- What the modules of one compilation share. -/
structure Session where
  /-- The switches. -/
  config : Config := {}
  /-- The types. -/
  types : TypeArena := .primitives
  /-- The variables. -/
  vars : VariableArena := {}
  /-- The files of the modules that are being loaded, the innermost first. -/
  loading : List (List String) := []
  /-- The diagnostics reported so far. -/
  reported : List Diagnostic := []
  /-- The text printed for them, if it is kept. -/
  output : Option String := some ""
deriving DecidableEq, Repr, Inhabited

namespace Session

/-- Report a diagnostic about a file. -/
def report (s : Session) (file : SourceFile) (d : Diagnostic) : Session :=
  { s with
    reported := s.reported ++ [d]
    output := s.output.map (· ++ d.render file s.config.detailedErrors) }

end Session

end TypedLua
