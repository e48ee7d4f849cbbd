import TypedLua.Proofs.Typing.Growth
import TypedLua.Proofs.Typing.Plans

/-!
# Typing.Untyped

Checking changes nothing but types.  An expression with its type annotations taken off is the same
before and after it is checked, whether or not a fault is found; so an expression keeps its place,
its label and the number of its parts.

Main statements: `Expr.Checks.untyped` and `Expr.Amends.untyped`.
-/

namespace TypedLua

open Text Typing

/-! ## Taking off types -/

namespace Expr

mutual

/-- The expression with its type annotations taken off. -/
def untyped : Expr → Expr
  | .call callee arguments tag =>
    .call callee.untyped (untypedAll arguments) { tag with type := .any }
  | .member object name tag => .member object.untyped name { tag with type := .any }
  | .index object key tag => .index object.untyped key.untyped { tag with type := .any }
  | .group inner tag => .group inner.untyped { tag with type := .any }
  | .constructor entries tag => .constructor (untypedAll entries) { tag with type := .any }
  | .entry id value tag => .entry id value.untyped { tag with type := .any }
  | e => e.setType .any

/-- The expressions with their type annotations taken off. -/
def untypedAll : List Expr → List Expr
  | [] => []
  | e :: es => e.untyped :: untypedAll es

end

theorem untypedAll_eq_map (es : List Expr) : untypedAll es = es.map untyped := by
  induction es with
  | nil => rfl
  | cons e es ih => exact congrArg (e.untyped :: ·) ih

@[simp] theorem span_untyped (e : Expr) : e.untyped.span = e.span := by
  cases e <;> rfl

@[simp] theorem label?_untyped (e : Expr) : e.untyped.label? = e.label? := by
  cases e <;> rfl

end Expr

section

variable {es ds : List Expr}

theorem labels_eq_of_untyped (h : es.map Expr.untyped = ds.map Expr.untyped) :
    es.map Expr.label? = ds.map Expr.label? := by
  have hlabels := congrArg (List.map Expr.label?) h
  simpa only [List.map_map, Function.comp_def, Expr.label?_untyped] using hlabels

theorem length_eq_of_untyped (h : es.map Expr.untyped = ds.map Expr.untyped) :
    es.length = ds.length := by
  simpa only [List.length_map] using congrArg List.length h

end

/-! ## Checked expressions -/

variable {vars : VariableArena}

mutual

/-- Checking changes nothing but types. -/
theorem Expr.Checks.untyped {e e' : Expr} {demand : Demand} {found : Except Fault TypeId}
    {a b : TypeArena} : e.Checks vars demand a e' found b → e'.untyped = e.untyped
  | .plain _ | .unresolved | .reference | .unplanned _ => rfl
  | .group h rfl | .entry h rfl | .callee h _ | .member h _ rfl | .object h => by
    simp only [Expr.untyped, Tag.span_settled, h.untyped]
  | .call h _ heach _ rfl => by
    simp only [Expr.untyped, Expr.untypedAll_eq_map, Tag.span_settled, h.untyped, heach.untyped]
  | .index h hkey _ rfl => by simp only [Expr.untyped, Tag.span_settled, h.untyped, hkey.untyped]
  | .entries _ heach | .constructor _ heach _ => by
    simp only [Expr.untyped, Expr.untypedAll_eq_map, heach.untyped]

theorem Expr.ChecksEach.untyped {report : Option Mismatch} {es es' : List Expr}
    {demands : List Demand} {found : Except Fault (List TypeId)} {a b : TypeArena} :
    Expr.ChecksEach vars report es demands a es' found b →
      es'.map Expr.untyped = es.map Expr.untyped
  | .nil => rfl
  | .fault h | .mismatch h _ => by rw [List.map_cons, List.map_cons, h.untyped]
  | .cons h _ heach _ => by rw [List.map_cons, List.map_cons, h.untyped, heach.untyped]

end

/-- An expression keeps its span. -/
theorem Expr.Checks.span_eq {e e' : Expr} {demand : Demand} {found : Except Fault TypeId}
    {a b : TypeArena} (h : e.Checks vars demand a e' found b) : e'.span = e.span := by
  rw [← Expr.span_untyped, h.untyped, Expr.span_untyped]

theorem Expr.untyped_withParts {e : Expr} {parts : List Expr}
    (h : parts.map Expr.untyped = e.parts.map Expr.untyped) :
    (e.withParts parts).untyped = e.untyped := by
  fun_cases Expr.withParts e parts with
  | case6 => rfl
  | _ =>
    simp only [Expr.parts, List.map_cons, List.map_nil, List.cons.injEq] at h
    simp only [Expr.untyped, Expr.untypedAll_eq_map, h]

mutual

/-- Checking its constructors changes nothing but types. -/
theorem Expr.Amends.untyped {e e' : Expr} {found : Except Fault Unit} {a b : TypeArena} :
    e.Amends vars a e' found b → e'.untyped = e.untyped
  | .constructor h _ => h.untyped
  | .parts _ hall => Expr.untyped_withParts hall.untyped

theorem Expr.AmendsAll.untyped {es es' : List Expr} {found : Except Fault Unit}
    {a b : TypeArena} : Expr.AmendsAll vars es a es' found b →
      es'.map Expr.untyped = es.map Expr.untyped
  | .nil => rfl
  | .fault h => by rw [List.map_cons, List.map_cons, h.untyped]
  | .cons h hall => by rw [List.map_cons, List.map_cons, h.untyped, hall.untyped]

end

end TypedLua
