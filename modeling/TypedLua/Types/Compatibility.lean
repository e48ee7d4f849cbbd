import TypedLua.Types.Arena

/-!
# TypedLua.Types.Compatibility

Where one type is declared, which types may a value have?  Tables are compared by their properties,
and a value may have more of them; functions are compared place by place; interfaces are compared by
name and number of parameters.  A type always takes its own values.
-/

namespace TypedLua

/-- Whether two lists are equally long and related place by place; the lengths are compared
first. -/
def allPairs (r : TypeId → TypeId → Bool) (xs ys : List TypeId) : Bool :=
  xs.length == ys.length && (xs.zip ys).all fun (x, y) => r x y

/-- Whether a declared shape takes values of another, given the relation on their parts. -/
def Shape.takes (r : TypeId → TypeId → Bool) : Shape → Shape → Bool
  | .primitive p, .primitive q => p == q
  | .generic n, .generic m => n == m
  | .array x, .array y => r x y
  | .vararg x, .vararg y => r x y
  | .function xs us, .function ys vs => allPairs r xs ys && allPairs r us vs
  | .table ps, .table qs =>
    ps.all fun p =>
      match findProperty qs p.name with
      | some q => r p.type q.type
      | none => p.optional
  | .interface n gs _, .interface m hs _ => n == m && gs.length == hs.length
  | _, _ => false

namespace TypeArena

/-- Whether the first type takes values of the second, looking at most `fuel` layers deep. -/
def compatibleWithin (a : TypeArena) : Nat → TypeId → TypeId → Bool
  | 0, x, y => x == y
  | fuel + 1, x, y =>
    x == y ||
      match a.get? x, a.get? y with
      | some s, some t => s.takes (a.compatibleWithin fuel) t
      | _, _ => false

/-- Whether a value of type `value` may be used where `declared` is declared.  No pair of types
comes up again inside its own comparison, so that there are at most as many layers as pairs.  There
may be more layers than types, since types can refer to each other in a ring: two rings of different
lengths are compared until a property is missing. -/
def compatible (a : TypeArena) (declared value : TypeId) : Bool :=
  a.compatibleWithin (a.size * a.size + 1) declared value

/-- A type takes its own values. -/
@[simp] theorem compatible_self (a : TypeArena) (id : TypeId) : a.compatible id id = true := by
  simp [compatible, compatibleWithin]

end TypeArena

end TypedLua
