/-!
# TypedLua.Config.Basic

The switches of a session and the document that shows them.
-/

namespace TypedLua

/-- The switches of a session. -/
structure Config where
  /-- Whether a declaration may have fewer values than variables. -/
  imbalancedLocals : Bool := false
  /-- Whether a function may lack its return type. -/
  typelessFunctions : Bool := false
  /-- Whether diagnostics show the source. -/
  detailedErrors : Bool := true
deriving DecidableEq, Repr, Inhabited

namespace Config

/-- The switches by their keys. -/
inductive Switch where
  | imbalancedLocals | typelessFunctions | detailedErrors
deriving DecidableEq, Repr

namespace Switch

/-- All switches, in the order in which they are written. -/
def all : List Switch := [imbalancedLocals, typelessFunctions, detailedErrors]

/-- The key of a switch. -/
def key : Switch → String
  | imbalancedLocals => "imbalancedLocalAssignments"
  | typelessFunctions => "allowTypelessFunctions"
  | detailedErrors => "detailedErrors"

/-- The switch with the given key. -/
def ofKey? (key : String) : Option Switch := all.find? fun s => s.key == key

end Switch

/-- The state of a switch. -/
def get (c : Config) : Switch → Bool
  | .imbalancedLocals => c.imbalancedLocals
  | .typelessFunctions => c.typelessFunctions
  | .detailedErrors => c.detailedErrors

/-- Set a switch. -/
def set (c : Config) (s : Switch) (on : Bool) : Config :=
  match s with
  | .imbalancedLocals => { c with imbalancedLocals := on }
  | .typelessFunctions => { c with typelessFunctions := on }
  | .detailedErrors => { c with detailedErrors := on }

/-- The document that sets every switch as it is. -/
def render (c : Config) : String :=
  String.join (Switch.all.map fun s => s.key ++ " = " ++ (if c.get s then "true" else "false") ++ "\n")

@[simp] theorem get_set (c : Config) (s t : Switch) (on : Bool) :
    (c.set s on).get t = if t = s then on else c.get t := by
  cases s <;> cases t <;> rfl

end Config

end TypedLua
