import TypedLua.Proofs.Grammar.Renamed

/-!
# Grammar.Renamed.Types

Reading a type where parameters may be renamed.  A name in the place of a type is looked up as it is
outside of the declaration, and renamed within it; the scopes give types that correspond.  Each form
of type is followed if the types inside it are, and the whole reader is by induction on the room that
is left.

Main statement: `ReadsType.typeWithin`.
-/

namespace TypedLua

open Text TypedLua.Parser
open Token (Kind Place Level naming placeAfter)

variable {w : Sides} {s t : ParserState}
variable {xs ys : List TypeId} {a b : Span}

namespace Respelling

variable {N : Respelling} {L : Link Sides ScopeStack ScopeStack} {level : Level}

/-- Types may be read at the level: the scopes give corresponding types to the names there. -/
structure Typed (N : Respelling) (level : Level) (L : Link Sides ScopeStack ScopeStack) : Prop where
  /-- Within the declaration types are in brackets. -/
  bracketed : level ≠ some []
  /-- A name and what stands in its place mean corresponding types. -/
  resolves {w : Sides} {a b : ScopeStack} : L.rel w a b → ∀ name, N.occurs name →
    N.types.option.rel w (a.resolveType name) (b.resolveType (naming N.rename level.due name))

theorem Typed.inside (h : N.Typed level L) (k : Kind) : N.Typed (level.inside k) L := by
  refine ⟨?_, fun hab name hname => ?_⟩
  · cases level <;> simp [Level.inside]
  · rw [Level.naming_due_inside]
    exact h.resolves hab name hname

theorem State.undue {due : Bool} (h : N.State (level.place due) L w s t)
    (hkind : s.stream.current.kind ≠ .identifier) (due' : Bool) :
    N.State (level.place due') L w s t := by
  cases level with
  | none => exact h
  | some opened => exact { h with tokens := h.tokens.undue hkind due' }

/-- Read where a type is due, the two results go together. -/
def ReadsType {α : Type} (N : Respelling) (L : Link Sides ScopeStack ScopeStack) (p : Parser α)
    (R : Link Sides α α) : Prop :=
  ∀ ⦃level : Level⦄ ⦃w : Sides⦄ ⦃s t : ParserState⦄, N.Typed level L → N.State level.due L w s t →
    Follows w s t p p (N.Both level.settled L R)

end Respelling

/-! ## Lists -/

section

variable {N : Respelling} {L : Link Sides ScopeStack ScopeStack} {place : Option Place}

theorem Follows.checkVarargs (h : N.State place L w s t) (hxys : N.types.list.rel w xs ys) :
    Follows w s t (Grammar.checkVarargs xs a) (Grammar.checkVarargs ys b)
      (N.Both place L .any) := by
  refine .gets_bind ?_
  unfold Grammar.varargLast
  rw [h.left, h.right, Sides.hasMisplacedVararg_eq hxys]
  split
  · intro env env' x s' hx
    cases hx
  · exact .pure ⟨.intro, h⟩

theorem Follows.typeListOf {place' : Option Place} (hplace : placeAfter place .comma = place')
    {p : Parser TypeId}
    (hp : ∀ w s t, N.State place' L w s t → Follows w s t p p (N.Both place L N.types))
    (h : N.State place' L w s t) :
    Follows w s t (Grammar.typeListOf p) (Grammar.typeListOf p) (N.Both place L N.types.list) := by
  refine .currentSpan_bind fun _ _ => (Follows.commaList hplace hp h).bind ?_
  rintro v xs s' ys t' - ⟨hxys, h⟩
  refine .spanFrom_bind fun _ _ => (Follows.checkVarargs h hxys).bind ?_
  rintro u _ s₂ _ t₂ hvu ⟨-, h⟩
  exact .pure ⟨N.types.list.mono hvu hxys, h⟩

theorem Follows.typelessReturns (h : N.State place L w s t) :
    Follows w s t (Grammar.typelessReturns a) (Grammar.typelessReturns b)
      (N.Both place L N.types.list) := by
  refine .gets_bind ?_
  rw [h.config]
  split
  · exact .pure ⟨.cons (.primitive w .any) .nil, h⟩
  · exact .fail _ _

theorem stripVoid_renamed (h : N.types.list.rel w xs ys) :
    N.types.list.rel w (Grammar.stripVoid xs) (Grammar.stripVoid ys) := by
  have hvoid : xs = [Primitive.void.typeId] ↔ ys = [Primitive.void.typeId] := by
    cases h with
    | nil => simp
    | cons hxy hrest =>
      cases hrest with
      | nil => simpa using Sides.Corresponds.eq_primitive_iff hxy .void
      | cons _ _ => simp
  unfold Grammar.stripVoid
  by_cases hxs : xs = [Primitive.void.typeId]
  · rw [if_pos hxs, if_pos (hvoid.1 hxs)]
    exact .nil
  · rw [if_neg hxs, if_neg fun hys => hxs (hvoid.2 hys)]
    exact h

theorem Follows.internFunction (h : N.State place L w s t) {us vs : List TypeId}
    (hxys : N.types.list.rel w xs ys) (hus : N.types.list.rel w us vs) :
    Follows w s t (Parser.internType (.function xs us)) (Parser.internType (.function ys vs))
      (N.Both place L N.types) :=
  .internType h (.of_rel (.function hxys hus) nofun)

theorem Follows.instanceOf (h : N.State place L w s t) {x y : TypeId} (hxy : N.types.rel w x y)
    (hxys : N.types.list.rel w xs ys) {m n : String} {i j : Nat} :
    Follows w s t (Grammar.namedTypeOf.instanceOf m x i xs a)
      (Grammar.namedTypeOf.instanceOf n y j ys b) (N.Both place L N.types) := by
  intro env env' id s' hrun
  unfold Grammar.namedTypeOf.instanceOf at hrun ⊢
  cases hinstance : TypeArena.instantiate x xs s.session.types with
  | mk found types =>
    rw [hinstance] at hrun
    cases found with
    | none => cases hrun
    | some id' =>
      cases hrun
      rw [h.left] at hinstance
      obtain ⟨v, other, hwv, rfl, hother, hid⟩ := Sides.instantiate hxy hxys hinstance
      rw [← h.right] at hother
      refine ⟨v, other, _, hwv, ?_, hid, h.retyped hwv⟩
      rw [hother]

end

namespace Respelling.ReadsType

variable {N : Respelling} {L : Link Sides ScopeStack ScopeStack}

theorem required {p : Parser (Option TypeId)} (h : N.ReadsType L p N.types.option) :
    N.ReadsType L (Grammar.required p) N.types := by
  intro level w s t hlevel hst
  refine (h hlevel hst).bind ?_
  rintro v x s' y t' - ⟨hxy, hst⟩
  cases hxy with
  | none => exact .unexpected "type"
  | some hxy => exact .pure ⟨hxy, hst⟩

variable {p : Parser TypeId} (hp : N.ReadsType L p N.types)

include hp

theorem groupOf : N.ReadsType L (Grammar.groupOf p) N.types.list := by
  intro level w s t hlevel h
  refine .expect_bind h (by decide) fun _ h => ?_
  rw [Level.after_opening .leftParen (by decide)] at h
  have hclose : ∀ {v : Sides} {s t : ParserState} {xs ys : List TypeId},
      N.types.list.rel v xs ys → N.State (level.inside .leftParen).settled L v s t →
      Follows v s t (Parser.expect .rightParen >>= fun _ => pure xs)
        (Parser.expect .rightParen >>= fun _ => pure ys)
        (N.Both level.settled L N.types.list) := by
    intro v s t xs ys hxys h
    refine .expect_bind h (by decide) fun _ h => ?_
    rw [Level.after_closing .rightParen .leftParen (by decide)] at h
    exact .pure ⟨hxys, h⟩
  refine .check_bind h (fun hkind => ?_) fun _ => ?_
  · exact hclose .nil (h.undue (by rw [hkind]; decide) false)
  · refine (Follows.typeListOf (Level.after_comma .leftParen (by decide))
      (fun _ _ _ h => hp (hlevel.inside _) h) h).bind ?_
    rintro v xs s' ys t' - ⟨hxys, h⟩
    exact hclose hxys h

theorem propertyOf {level : Level} (hlevel : N.Typed level L) (h : N.State level.settled L w s t) :
    Follows w s t (Grammar.propertyOf p) (Grammar.propertyOf p)
      (N.Both level.settled L N.types.property) := by
  refine .identifier_bind h fun name a b _ _ h => ?_
  rw [Level.naming_settled]
  rw [Level.after_plain .identifier (by decide)] at h
  have htype : ∀ {s t : ParserState} (optional : Bool), N.State level.settled L w s t →
      Follows w s t (Parser.expect .colon >>= fun _ => p >>= fun type => pure ⟨name, type, optional⟩)
        (Parser.expect .colon >>= fun _ => p >>= fun type => pure ⟨name, type, optional⟩)
        (N.Both level.settled L N.types.property) := by
    intro s t optional h
    refine .expect_bind h (by decide) fun _ h => ?_
    rw [Level.after_announcing .colon (by decide)] at h
    refine (hp hlevel h).bind ?_
    rintro v x s' y t' - ⟨hxy, h⟩
    exact .pure ⟨⟨rfl, hxy, rfl⟩, h⟩
  refine .eat_bind h (by decide) (fun _ h => ?_) fun _ => htype false h
  rw [Level.after_plain .question (by decide)] at h
  exact htype true h

theorem properties {level : Level} (hlevel : N.Typed (level.inside .leftBrace) L)
    (h : N.State (level.inside .leftBrace).settled L w s t) :
    Follows w s t (braceTail (Grammar.propertyOf p)) (braceTail (Grammar.propertyOf p))
      (N.Both (placeAfter (level.inside .leftBrace).settled .rightBrace) L N.types.property.list) :=
  Follows.braceTail Level.after_separator (Level.after_plain .semicolon (by decide))
    (fun _ _ _ h => hp.propertyOf hlevel h) h

theorem tableTypeOf : N.ReadsType L (Grammar.tableTypeOf p) N.types := by
  intro level w s t hlevel h
  refine .expect_bind h (by decide) fun _ h => ?_
  rw [Level.after_leftBrace] at h
  refine (hp.properties (hlevel.inside _) h).bind ?_
  rintro v ps s' qs t' - ⟨hps, h⟩
  rw [Level.after_rightBrace _ hlevel.bracketed] at h
  exact .internType h (.of_rel (.table hps) nofun)

theorem namedTypeOf : N.ReadsType L (Grammar.namedTypeOf p) N.types := by
  intro level w s t hlevel h
  refine .currentSpan_bind fun _ _ => .identifier_bind h fun name a b hname _ h => ?_
  rw [Level.after_plain .identifier (by decide)] at h
  refine .gets_bind ?_
  have hmeaning := hlevel.resolves h.scopes name hname
  generalize s.next.scopes.resolveType name = x,
    t.next.scopes.resolveType (naming N.rename level.due name) = y at hmeaning ⊢
  cases hmeaning with
  | none => exact .fail _ _
  | some hxy =>
    refine .eat_bind h (by decide) (fun _ h => ?_) fun _ => .pure ⟨hxy, h⟩
    rw [Level.after_opening .less (by decide)] at h
    refine (Follows.typeListOf (Level.after_comma .less (by decide))
      (fun _ _ _ h => hp (hlevel.inside _) h) h).bind ?_
    rintro v xs s' ys t' hwv ⟨hxys, h⟩
    refine .expect_bind h (by decide) fun _ h => ?_
    rw [Level.after_closing .greater .less (by decide)] at h
    refine .spanFrom_bind fun _ _ => .gets_bind ?_
    have hxy := N.types.mono hwv hxy
    obtain ⟨m, n, hm, hn, hmn⟩ := Sides.Corresponds.outline hxy
    rw [h.left, h.right, hm, hn]
    cases m with
    | interface declared gs ps =>
      obtain ⟨hs, qs, rfl, hlen, -⟩ := Sides.outline_interface hmn
      cases gs with
      | nil => exact .fail _ _
      | cons g gs =>
        cases hs with
        | nil => cases hlen
        | cons g' hs => exact .instanceOf h hxy hxys
    | _ => exact .fail _ _

/-- Functions follow each other, however many arrows there are. -/
theorem functionFrom {level : Level} (hlevel : N.Typed level L) (n : Nat)
    (hxys : N.types.list.rel w xs ys) (h : N.State level.settled L w s t) :
    Follows w s t (Grammar.functionFrom p n a xs) (Grammar.functionFrom p n b ys)
      (N.Both level.settled L N.types) := by
  induction n generalizing w s t a b xs ys with
  | zero =>
    refine .spanFrom_bind fun _ _ => (Follows.typelessReturns h).bind ?_
    rintro v us s' vs t' hwv ⟨hus, h⟩
    exact .internFunction h (N.types.list.mono hwv hxys) hus
  | succ n ih =>
    refine .eat_bind h (by decide) (fun _ h => ?_) fun _ => ?_
    · rw [Level.after_announcing .arrow (by decide)] at h
      refine .check_bind h (fun _ => ?_) fun _ => ?_
      · refine .currentSpan_bind fun _ _ => (hp.groupOf hlevel h).bind ?_
        rintro v us s' vs t' hwv ⟨hus, h⟩
        refine .check_bind h (fun _ => ?_) fun _ => ?_
        · -- the group was the argument list of the function that is returned
          refine (ih hus h).bind ?_
          rintro u x s₂ y t₂ hvu ⟨hxy, h⟩
          exact .internFunction h (N.types.list.mono (le_trans hwv hvu) hxys) (.cons hxy .nil)
        · exact .internFunction h (N.types.list.mono hwv hxys) (stripVoid_renamed hus)
      · refine (hp hlevel h).bind ?_
        rintro v x s' y t' hwv ⟨hxy, h⟩
        exact .internFunction h (N.types.list.mono hwv hxys) (stripVoid_renamed (.cons hxy .nil))
    · refine .spanFrom_bind fun _ _ => (Follows.typelessReturns h).bind ?_
      rintro v us s' vs t' hwv ⟨hus, h⟩
      exact .internFunction h (N.types.list.mono hwv hxys) hus

theorem functionTypeOf : N.ReadsType L (Grammar.functionTypeOf p) N.types := by
  intro level w s t hlevel h
  refine .currentSpan_bind fun _ _ => (hp.groupOf hlevel h).bind ?_
  rintro v xs s' ys t' - ⟨hxys, h⟩
  exact .fuel_bind h fun n => hp.functionFrom hlevel n hxys h

omit hp in
theorem baseTypeOf {p : Parser (Option TypeId)} (hp : N.ReadsType L p N.types.option) :
    N.ReadsType L (Grammar.baseTypeOf p) N.types := by
  intro level w s t hlevel h
  refine .currentKind_bind h ?_
  split
  · exact hp.required.namedTypeOf hlevel h
  · next hkind =>
    refine .advance_bind h hkind (by decide) fun h => ?_
    rw [Level.after_plain .kwNil (by decide)] at h
    exact .pure ⟨.primitive w .nil, h⟩
  · exact hp.required.tableTypeOf hlevel h
  · exact hp.required.functionTypeOf hlevel h
  · next hkind =>
    refine .advance_bind h hkind (by decide) fun h => ?_
    rw [Level.after_announcing .ellipsis (by decide)] at h
    refine (hp hlevel h).bind ?_
    rintro v x s' y t' - ⟨hxy, h⟩
    cases hxy with
    | none => exact .internType h (.of_rel (.vararg (.primitive v .any)) fun _ h => by cases h)
    | some hxy => exact .internType h (.of_rel (.vararg hxy) fun _ h => by cases h)
  · exact .unexpected "type"

end Respelling.ReadsType

/-! ## Types -/

section

variable {N : Respelling} {L : Link Sides ScopeStack ScopeStack} {level : Level}

theorem Follows.arraySuffixes (room : Nat) {x y : TypeId} (hxy : N.types.rel w x y)
    (h : N.State level.settled L w s t) :
    Follows w s t (Grammar.arraySuffixes room x) (Grammar.arraySuffixes room y)
      (N.Both level.settled L N.types) := by
  induction room generalizing w s t x y with
  | zero =>
    exact .ahead_bind .leftBracket .rightBracket (by decide) h (fun _ _ => .tooDeep "type")
      (.pure ⟨hxy, h⟩)
  | succ room ih =>
    refine .ahead_bind .leftBracket .rightBracket (by decide) h (fun hopen hclose => ?_)
      (.pure ⟨hxy, h⟩)
    refine .deepen_bind h fun h => ?_
    refine .advance_bind h hopen (by decide) fun h => ?_
    rw [Level.after_plain .leftBracket (by decide)] at h
    refine .advance_bind h hclose (by decide) fun h => ?_
    rw [Level.after_plain .rightBracket (by decide)] at h
    refine (Follows.internType h (.of_rel (.array hxy) nofun)).bind ?_
    rintro v x' s' y' t' - ⟨hxy', h⟩
    exact ih hxy' h

namespace Respelling.ReadsType

/-- By induction on how deep types may still be nested. -/
theorem tryTypeWithin (room : Nat) : N.ReadsType L (Grammar.tryTypeWithin room) N.types.option := by
  induction room with
  | zero =>
    intro level w s t hlevel h
    refine .currentKind_bind h ?_
    split
    · exact .tooDeep "type"
    · next hstarts =>
      refine .pure ⟨.none, h.undue ?_ false⟩
      rintro hkind
      exact hstarts (by rw [hkind]; rfl)
  | succ room ih =>
    intro level w s t hlevel h
    refine .currentKind_bind h ?_
    split
    · refine .nested h fun s t h => (ih.baseTypeOf hlevel h).bind ?_
      rintro v x s' y t' - ⟨hxy, h⟩
      refine (Follows.chain h (.arraySuffixes room hxy h)).bind ?_
      rintro u x' s₂ y' t₂ - ⟨hxy', h⟩
      exact .pure ⟨.some hxy', h⟩
    · next hstarts =>
      refine .pure ⟨.none, h.undue ?_ false⟩
      rintro hkind
      exact hstarts (by rw [hkind]; rfl)

/-- Types are renamed as the names in them are. -/
theorem typeWithin (room : Nat) : N.ReadsType L (Grammar.typeWithin room) N.types :=
  (tryTypeWithin room).required

end Respelling.ReadsType

end

end TypedLua
