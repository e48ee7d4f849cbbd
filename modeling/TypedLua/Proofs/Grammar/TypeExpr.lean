import TypedLua.Grammar.TypeExpr
import TypedLua.Proofs.Grammar.Correspondence

/-!
# Grammar.TypeExpr

Reading types keeps a legible correspondence.  Each form agrees with itself if the reader of the
types inside it does; the whole reader then does so by induction on the room that is left.  What a
named type with arguments does to the types of a session is left to the correspondence.

Main statements: `Legible.typeWithin`, and `Legible.readsNamed` for a correspondence that is kept when
type arguments are given.
-/

namespace TypedLua.Correspondence

open Text TypedLua.Parser
open Token (Kind)

/-- Taking tokens of any kind keeps the correspondence.  So does reading a named type, if reading type
arguments does. -/
structure ReadsNamed (C : Correspondence) : Prop where
  passes (kind : Kind) : C.Passes kind
  named (p q : Parser TypeId) : (∀ w, C.Agrees w C.types p q) →
    ∀ w, C.Agrees w C.types (Grammar.namedTypeOf p) (Grammar.namedTypeOf q)

/-- Giving type arguments to types that go together keeps the correspondence. -/
structure Instantiates (C : Correspondence) : Prop where
  passes (kind : Kind) : C.Passes kind
  /-- Types that go together have shapes that do. -/
  shapes {w s t x y} : C.state w s t → C.types.rel w x y →
    C.types.shape.option.rel w (s.session.types.get? x) (t.session.types.get? y)
  instantiated {w s t x y xs ys} : C.state w s t → C.types.rel w x y → C.types.list.rel w xs ys →
    ∃ v, w ≤ v ∧
      C.types.option.rel v (TypeArena.instantiate x xs s.session.types).1
        (TypeArena.instantiate y ys t.session.types).1 ∧
      C.state v
        (s.withTypes (TypeArena.instantiate x xs s.session.types).2)
        (t.withTypes (TypeArena.instantiate y ys t.session.types).2)

/-- Lists of types correspond if the types do, and variadic types come last. -/
def typeList (C : Correspondence) : Link C.World (List TypeId) (List TypeId) where
  rel w xs ys := C.types.list.rel w xs ys ∧ C.ordered w xs
  mono hwv _ _ h := ⟨C.types.list.mono hwv h.1, C.ordered_mono hwv h.2⟩

/-- Returns correspond if their types do, variadic types come last, and they are no lone `void`. -/
def returns (C : Correspondence) : Link C.World (List TypeId) (List TypeId) where
  rel w xs ys := C.typeList.rel w xs ys ∧ (C.rooted → xs ≠ [Primitive.void.typeId])
  mono hwv _ _ h := ⟨C.typeList.mono hwv h.1, h.2⟩

/-- Types that correspond and are not `void`. -/
def functions (C : Correspondence) : Link C.World TypeId TypeId where
  rel w x y := C.types.rel w x y ∧ (C.rooted → x ≠ Primitive.void.typeId)
  mono hwv _ _ h := ⟨C.types.mono hwv h.1, h.2⟩

variable {s t : ParserState} {xs ys : List TypeId} {a b : Span} {p q : Parser TypeId}

namespace Legible

variable {C : Correspondence} {w : C.World} {k : Option Kind} {α β : Type} {R : Link C.World α β}
  (hC : C.Legible)

include hC

/-! ## Lists -/

theorem required {p q : Parser (Option TypeId)} (h : C.Agrees w C.types.option p q) :
    C.Agrees w C.types (Grammar.required p) (Grammar.required q) := by
  refine h.bind fun v x y _ hxy => ?_
  cases hxy with
  | none => exact hC.unexpected "type"
  | some h => exact .pure h

theorem hasMisplacedVararg_eq (hst : C.state w s t) (h : C.types.list.rel w xs ys) :
    s.session.types.hasMisplacedVararg xs = t.session.types.hasMisplacedVararg ys := by
  unfold TypeArena.hasMisplacedVararg
  change List.Forall₂ _ xs ys at h
  induction h with
  | nil => rfl
  | cons hxy hrest ih =>
    cases hrest with
    | nil => rfl
    | cons _ _ =>
      rw [List.dropLast_cons_cons, List.dropLast_cons_cons, List.any_cons, List.any_cons, ih,
        hC.vararg hst hxy]

theorem checkVarargs_bind (h : C.types.list.rel w xs ys) (hab : C.regard.place a b)
    {p : Unit → Parser α} {q : Unit → Parser β}
    (hnext : C.ordered w xs → C.AgreesAt k w R (p ()) (q ())) :
    C.AgreesAt k w R (Grammar.checkVarargs xs a >>= p) (Grammar.checkVarargs ys b >>= q) := by
  simp only [Grammar.checkVarargs, bind_assoc]
  refine .gets_bind fun s t hst => ?_
  unfold Grammar.varargLast
  rw [← hC.hasMisplacedVararg_eq hst h]
  split
  · exact AgreesAt.fail (R := R) hab _
  · next hnone => exact hnext (hC.checked hst h (by simpa using hnone))

theorem typeListOf (h : ∀ w, C.Agrees w C.types p q) :
    C.Agrees w C.typeList (Grammar.typeListOf p) (Grammar.typeListOf q) := by
  refine hC.currentSpan_bind fun a b hab => (hC.commaList h).bind fun v xs ys _ hxys => ?_
  refine hC.spanFrom_bind hab fun _ _ hab => hC.checkVarargs_bind hxys hab fun hordered => ?_
  exact .pure ⟨hxys, hordered⟩

theorem ordered_of_length (hst : C.state w s t) (h : C.types.list.rel w xs ys)
    (hlen : xs.length ≤ 1) : C.typeList.rel w xs ys := by
  refine ⟨h, hC.checked hst h ?_⟩
  have hnil : xs.dropLast = [] := List.length_eq_zero_iff.1 (by rw [List.length_dropLast]; omega)
  unfold TypeArena.hasMisplacedVararg
  rw [hnil]
  rfl

theorem groupOf (h : ∀ w, C.Agrees w C.types p q) :
    C.Agrees w C.typeList (Grammar.groupOf p) (Grammar.groupOf q) := by
  refine hC.expect_bind .leftParen (by decide) fun _ _ _ => ?_
  have hclose : ∀ v xs ys, C.typeList.rel v xs ys →
      C.Agrees v C.typeList (Parser.expect .rightParen >>= fun _ => pure xs)
        (Parser.expect .rightParen >>= fun _ => pure ys) :=
    fun v xs ys hxys => hC.expect_bind .rightParen (by decide) fun _ _ _ => .pure hxys
  refine hC.check_bind .rightParen ?_ ?_
  · refine .of_state fun s t hst => .here (hclose w [] [] ?_)
    exact hC.ordered_of_length hst .nil (Nat.zero_le 1)
  · exact (hC.typeListOf h).bind fun v xs ys _ hxys => hclose v xs ys hxys

theorem stripVoid (hst : C.state w s t) (h : C.typeList.rel w xs ys) :
    C.returns.rel w (Grammar.stripVoid xs) (Grammar.stripVoid ys) := by
  have hvoid : xs = [Primitive.void.typeId] ↔ ys = [Primitive.void.typeId] := by
    cases h.1 with
    | nil => simp
    | cons hxy hrest =>
      cases hrest with
      | nil => simpa using hC.void hst hxy
      | cons _ _ => simp
  unfold Grammar.stripVoid
  by_cases hxs : xs = [Primitive.void.typeId]
  · rw [if_pos hxs, if_pos (hvoid.1 hxs)]
    exact ⟨hC.ordered_of_length hst .nil (Nat.zero_le 1), fun _ => nofun⟩
  · rw [if_neg hxs, if_neg fun hys => hxs (hvoid.2 hys)]
    exact ⟨h, fun _ => hxs⟩

theorem returnListOf (h : ∀ w, C.Agrees w C.types p q) :
    C.Agrees w C.returns (Grammar.returnListOf p) (Grammar.returnListOf q) :=
  (hC.typeListOf h).bind fun _ _ _ _ hxys => .of_state fun _ _ hst => .pure (hC.stripVoid hst hxys)

theorem any (hst : C.state w s t) : C.types.rel w .any .any :=
  hC.primitive .any hst

theorem typelessReturns (hab : C.regard.place a b) :
    C.Agrees w C.returns (Grammar.typelessReturns a) (Grammar.typelessReturns b) := by
  refine .gets_bind fun s t hst => ?_
  rcases hC.typeless hst with ⟨hlenient, hoff⟩ | hsame
  · rw [hoff]
    exact .excused hlenient
  · rw [hsame]
    split
    · have hlist := hC.ordered_of_length hst (.cons (hC.any hst) .nil) (Nat.le_refl 1)
      exact .pure ⟨hlist, fun _ => by decide⟩
    · exact .fail hab _

/-! ## Forms -/

theorem propertyOf (h : ∀ w, C.Agrees w C.types p q) :
    C.Agrees w C.types.property (Grammar.propertyOf p) (Grammar.propertyOf q) := by
  refine hC.identifier_bind fun name _ _ _ => ?_
  have htype : ∀ optional, C.Agrees w C.types.property
      (Parser.expect .colon >>= fun _ => p >>= fun type => pure ⟨name, type, optional⟩)
      (Parser.expect .colon >>= fun _ => q >>= fun type => pure ⟨name, type, optional⟩) :=
    fun optional => hC.expect_bind .colon (by decide) fun _ _ _ =>
      (h w).bind fun v x y _ hxy => .pure ⟨rfl, hxy, rfl⟩
  exact hC.eat_bind .question (by decide) (htype true) (htype false)

theorem tableTypeOf (h : ∀ w, C.Agrees w C.types p q) :
    C.Agrees w C.types (Grammar.tableTypeOf p) (Grammar.tableTypeOf q) := by
  refine hC.expect_bind .leftBrace (by decide) fun _ _ _ => ?_
  refine (hC.braceTail fun u => hC.propertyOf (w := u) h).bind fun v ps qs _ hps => ?_
  exact hC.internType (.table hps) .intro

/-- Functions are interned alike. -/
theorem internFunction {us vs : List TypeId} (hxys : C.typeList.rel w xs ys)
    (hus : C.returns.rel w us vs) :
    C.Agrees w C.functions (Parser.internType (.function xs us))
      (Parser.internType (.function ys vs)) := by
  intro env env' henv s t hst _ _
  obtain ⟨v, hwv, hid, hv⟩ :=
    hC.intern hst (.function hxys.1 hus.1.1) ⟨hxys.2, hus.1.2, hus.2⟩
  refine ⟨v, hwv, .ok ⟨hid, ?_⟩, hv⟩
  intro hrooted hvoid
  have hget := TypeArena.get?_intern s.session.types (.function xs us)
  have hdenotes : (TypeArena.intern (.function xs us) s.session.types).2.get? _ = _ :=
    hC.denotes hrooted hv
  rw [← show (TypeArena.intern (.function xs us) s.session.types).1 = _ from hvoid, hget] at hdenotes
  cases hdenotes

/-- Functions correspond, however many arrows there are. -/
theorem functionFrom (h : ∀ w, C.Agrees w C.types p q) (n : Nat) (hab : C.regard.place a b)
    (hxys : C.typeList.rel w xs ys) :
    C.Agrees w C.functions (Grammar.functionFrom p n a xs) (Grammar.functionFrom q n b ys) := by
  induction n generalizing w a b xs ys with
  | zero =>
    refine hC.spanFrom_bind hab fun _ _ hab => (hC.typelessReturns hab).bind fun v us vs hle hus => ?_
    exact hC.internFunction (C.typeList.mono hle hxys) hus
  | succ n ih =>
    refine hC.eat_bind .arrow (by decide) (hC.check_bind .leftParen (.here ?_) ?_) ?_
    · refine hC.currentSpan_bind fun _ _ hab => (hC.groupOf h).bind fun v us vs hle hus => ?_
      refine hC.check_bind .arrow (.here ?_) (.of_state fun s t hst => ?_)
      · -- the group was the argument list of the function that is returned
        refine (ih hab hus).bind fun u x y hle' hxy => .of_state fun s t hst => ?_
        have hone := hC.ordered_of_length hst (.cons hxy.1 .nil) (Nat.le_refl 1)
        refine hC.internFunction (C.typeList.mono (le_trans hle hle') hxys) ⟨hone, ?_⟩
        exact fun hrooted hvoid => hxy.2 hrooted (List.singleton_inj.1 hvoid)
      · exact hC.internFunction (C.typeList.mono hle hxys) (hC.stripVoid hst hus)
    · refine (h w).bind fun v x y hle hxy => .of_state fun s t hst => ?_
      have hone := hC.ordered_of_length hst (.cons hxy .nil) (Nat.le_refl 1)
      exact hC.internFunction (C.typeList.mono hle hxys) (hC.stripVoid hst hone)
    · refine hC.spanFrom_bind hab fun _ _ hab =>
        (hC.typelessReturns hab).bind fun v us vs hle hus => ?_
      exact hC.internFunction (C.typeList.mono hle hxys) hus

theorem functionTypeOf (h : ∀ w, C.Agrees w C.types p q) :
    C.Agrees w C.types (Grammar.functionTypeOf p) (Grammar.functionTypeOf q) := by
  refine hC.currentSpan_bind fun a b hab => (hC.groupOf h).bind fun v xs ys _ hxys => ?_
  exact hC.fuel_bind fun n => (hC.functionFrom h n hab hxys).imp fun _ _ _ hxy => hxy.1

theorem baseTypeOf (hnamed : C.ReadsNamed) {p q : Parser (Option TypeId)}
    (h : ∀ w, C.Agrees w C.types.option p q) :
    C.Agrees w C.types (Grammar.baseTypeOf p) (Grammar.baseTypeOf q) := by
  have hreq : ∀ w, C.Agrees w C.types (Grammar.required p) (Grammar.required q) :=
    fun w => hC.required (h w)
  refine hC.currentKind_bind fun kind => ?_
  split
  · exact .here (hnamed.named _ _ hreq w)
  · refine hC.advance_bind (hC.passes (by decide)) (.of_state fun s t hst => ?_)
    exact .pure (hC.primitive .nil hst)
  · exact .here (hC.tableTypeOf hreq)
  · exact .here (hC.functionTypeOf hreq)
  · refine hC.advance_bind (hC.passes (by decide)) ?_
    refine (h w).bind fun v x y _ hxy => .of_state fun s t hst => ?_
    cases hxy with
    | none => exact hC.internType (.vararg (hC.any hst)) .intro
    | some hxy => exact hC.internType (.vararg hxy) .intro
  · exact hC.unexpected "type"

/-! ## Types -/

theorem atArraySuffix_bind {p : Bool → Parser α} {q : Bool → Parser β}
    (h : ∀ found, C.Agrees w R (p found) (q found)) :
    C.Agrees w R (Grammar.atArraySuffix >>= p) (Grammar.atArraySuffix >>= q) := by
  unfold Grammar.atArraySuffix
  rw [bind_assoc, bind_assoc]
  refine hC.check_bind .leftBracket (.here ?_) (h false)
  simp only [if_true, bind_assoc, pure_bind]
  exact hC.peekKind_bind 1 fun kind => h (kind == .rightBracket)

theorem skip_bind (hnamed : C.ReadsNamed) {p : Unit → Parser α} {q : Unit → Parser β}
    (h : C.Agrees w R (p ()) (q ())) : C.Agrees w R (advance >>= p) (advance >>= q) := by
  intro env env' henv s t hst _
  refine hC.advance_bind (hnamed.passes s.stream.current.kind) h env env' henv s t hst ?_
  rintro _ ⟨⟩
  rfl

theorem arraySuffixes (hnamed : C.ReadsNamed) (room : Nat) {x y : TypeId}
    (hxy : C.types.rel w x y) :
    C.Agrees w C.types (Grammar.arraySuffixes room x) (Grammar.arraySuffixes room y) := by
  induction room generalizing w x y with
  | zero =>
    refine hC.atArraySuffix_bind fun found => ?_
    cases found with
    | true => exact hC.tooDeep "type"
    | false => exact .pure hxy
  | succ room ih =>
    refine hC.atArraySuffix_bind fun found => ?_
    cases found with
    | false => exact .pure hxy
    | true =>
      refine hC.deepen_bind "type" (hC.skip_bind hnamed (hC.skip_bind hnamed ?_))
      exact (hC.internType (.array hxy) .intro).bind fun v x' y' _ hxy' => ih hxy'

/-- By induction on how deep types may still be nested. -/
theorem tryTypeWithin (hnamed : C.ReadsNamed) (room : Nat) (w : C.World) :
    C.Agrees w C.types.option (Grammar.tryTypeWithin room) (Grammar.tryTypeWithin room) := by
  induction room generalizing w with
  | zero =>
    refine hC.currentKind_bind fun kind => ?_
    split
    · exact hC.tooDeep "type"
    · exact .pure .none
  | succ room ih =>
    refine hC.currentKind_bind fun kind => ?_
    split
    · refine hC.nested "type" ((hC.baseTypeOf hnamed ih).bind fun v x y _ hxy => ?_)
      exact (hC.chain (hC.arraySuffixes hnamed room hxy)).bind fun _ x' y' _ h => .pure (.some h)
    · exact .pure .none

/-- Reading types keeps the correspondence. -/
theorem typeWithin (hnamed : C.ReadsNamed) (room : Nat) (w : C.World) :
    C.Agrees w C.types (Grammar.typeWithin room) (Grammar.typeWithin room) :=
  hC.required (hC.tryTypeWithin hnamed room w)

/-! ## Named types -/

omit hC in
theorem instanceOf (h : C.Instantiates) (name : String) (wanted : Nat) (hab : C.regard.place a b)
    {x y : TypeId} (hxy : C.types.rel w x y) (hargs : C.types.list.rel w xs ys) :
    C.Agrees w C.types (Grammar.namedTypeOf.instanceOf name x wanted xs a)
      (Grammar.namedTypeOf.instanceOf name y wanted ys b) := by
  intro env env' _ s t hst _ _
  obtain ⟨v, hwv, hid, hstate⟩ := h.instantiated hst hxy hargs
  have hlen : xs.length = ys.length := List.Forall₂.length_eq hargs
  unfold Grammar.namedTypeOf.instanceOf
  rw [hlen]
  generalize TypeArena.instantiate x xs s.session.types = p at hid hstate ⊢
  generalize TypeArena.instantiate y ys t.session.types = q at hid hstate ⊢
  obtain ⟨p, a⟩ := p
  obtain ⟨q, b⟩ := q
  cases hid with
  | none => exact ⟨v, hwv, .error _ hab, hstate⟩
  | some hid => exact ⟨v, hwv, .ok hid, hstate⟩

/-- Named types correspond if instances do. -/
theorem readsNamed (h : C.Instantiates) : C.ReadsNamed where
  passes := h.passes
  named p q hpq w := by
    refine hC.currentSpan_bind fun _ _ hstart => hC.identifier_bind fun name _ _ hname => ?_
    refine .gets_bind fun s t hst => ?_
    have hresolve := ScopeStack.rel_resolveType (hC.scopes hst) name
    generalize s.scopes.resolveType name = x, t.scopes.resolveType name = y at hresolve ⊢
    cases hresolve with
    | none => exact .fail hname _
    | @some x y hxy =>
      refine hC.eat_bind .less (by decide) ?_ (.pure hxy)
      refine (hC.typeListOf hpq).bind fun v xs ys hle hargs => ?_
      refine hC.expect_bind .greater (by decide) fun _ _ _ => ?_
      refine hC.spanFrom_bind hstart fun a b hab => .gets_bind fun s' t' hst' => ?_
      -- types that go together have shapes of one form, so both sides take the same branch
      have hxy := C.types.mono hle hxy
      have hshape := h.shapes hst' hxy
      generalize s'.session.types.get? x = m, t'.session.types.get? y = n at hshape ⊢
      cases hshape with
      | none => exact .fail hab _
      | some hshape =>
        cases hshape with
        | interface _ hgs _ =>
          cases hgs with
          | nil => exact .fail hab _
          | @cons g h' gs hs _ hgs =>
            show C.Agrees v _ (Grammar.namedTypeOf.instanceOf name x (gs.length + 1) xs a)
              (Grammar.namedTypeOf.instanceOf name y (hs.length + 1) ys b)
            rw [List.Forall₂.length_eq hgs]
            exact instanceOf h name _ hab hxy hargs.1
        | _ => exact .fail hab _

end Legible

end TypedLua.Correspondence
