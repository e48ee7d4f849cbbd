import TypedLua.Proofs.Tree.Related

/-!
# Tree.Alike

Trees that agree in everything are equal.

Main statement: `Module.Agree.eq`.
-/

namespace TypedLua

open Text

/-! ## Links of equal ids -/

namespace Link

variable {W : Type} [Preorder W] {α : Type} {w : W}

theorem list_same {xs ys : List α} : (same (W := W)).list.rel w xs ys ↔ xs = ys :=
  iff_of_eq (congrFun (congrFun List.forall₂_eq_eq_eq xs) ys)

theorem option_rel_eq {x y : Option α} : Option.Rel Eq x y ↔ x = y := by
  refine ⟨fun h => ?_, fun h => ?_⟩
  · cases h with
    | none => rfl
    | some h => rw [h]
  · subst h
    cases x with
    | none => exact .none
    | some x => exact .some rfl

theorem option_same {x y : Option α} : (same (W := W)).option.rel w x y ↔ x = y := option_rel_eq

theorem bindings_same (b : Bindings α) : (same (W := W)).bindings.rel w b b :=
  List.forall₂_same.2 fun _ _ => ⟨rfl, rfl⟩

theorem scope_same {s t : Scope} : (scope (W := W) same same).rel w s t ↔ s = t := by
  refine ⟨fun h => Scope.Rel.eq h (fun _ _ h => h) fun _ _ h => h, fun h => ?_⟩
  subst h
  exact ⟨bindings_same _, bindings_same _, bindings_same _, bindings_same _⟩

theorem scopes_same {s t : ScopeStack} : (scopes (W := W) same same).rel w s t ↔ s = t := by
  obtain ⟨xs⟩ := s
  obtain ⟨ys⟩ := t
  refine ⟨fun h => ?_, fun h => ?_⟩
  · have heq : List.Forall₂ Eq xs ys := List.Forall₂.imp (fun _ _ h => scope_same.1 h) h
    rw [List.forall₂_eq_eq_eq] at heq
    rw [heq]
  · cases h
    exact List.forall₂_same.2 fun _ _ => scope_same.2 rfl

end Link

/-! ## Equal trees -/

theorem Tag.Agree.eq {t u : Tag} (h : Tag.Agree .all Eq t u) : t = u := by
  obtain ⟨span, type⟩ := t
  obtain ⟨hspan, rfl⟩ := h
  rw [show span = u.span from hspan]

theorem Prototype.Agree.eq {h k : Prototype} (hk : Prototype.Agree .all Eq Eq h k) : h = k := by
  obtain ⟨name, function, parameters, returns, vararg, tag⟩ := h
  obtain ⟨rfl, rfl, hparameters, hreturns, hvararg, htag⟩ := hk
  rw [List.forall₂_eq_eq_eq] at hparameters hreturns
  dsimp only at hparameters hreturns
  rw [hparameters, hreturns, show vararg = k.vararg from Link.option_rel_eq.1 hvararg,
    show tag = k.tag from htag.eq]

mutual

/-- Expressions that agree in everything are equal. -/
theorem Expr.Agree.eq {e d : Expr} : Expr.Agree .all Eq Eq e d → e = d
  | .number v ht | .string v ht | .boolean v ht | .nil ht => by rw [ht.toAgree.eq]
  | .unresolved n ht => by rw [ht.eq]
  | .reference hx ht => by rw [hx, ht.eq]
  | .typeName n ht => by rw [ht.eq]
  | .call hf hxs ht => by rw [hf.eq, Expr.Agree.eqAll hxs, ht.eq]
  | .member n he ht => by rw [he.eq, ht.eq]
  | .index he hk ht => by rw [he.eq, hk.eq, ht.eq]
  | .group he ht => by rw [he.eq, ht.eq]
  | .constructor hxs ht => by rw [Expr.Agree.eqAll hxs, ht.eq]
  | .entry hx he ht => by rw [hx, he.eq, ht.eq]
  | .prototype hk => by rw [hk.eq]
  | .typeAlias n ht => by rw [ht.eq]

theorem Expr.Agree.eqAll {xs ys : List Expr} :
    List.Forall₂ (Expr.Agree .all Eq Eq) xs ys → xs = ys
  | .nil => rfl
  | .cons h hs => by rw [h.eq, Expr.Agree.eqAll hs]

end

mutual

/-- So are statements. -/
theorem Stmt.Agree.eq {m n : Stmt} : Stmt.Agree .all Eq Eq m n → m = n
  | .expression hs he => by rw [he.eq, show _ = _ from hs]
  | .locals hs hx he => by
    rw [List.forall₂_eq_eq_eq] at hx
    rw [hx, Expr.Agree.eqAll he, show _ = _ from hs]
  | .exportStmt hs hm => by rw [hm.eq, show _ = _ from hs]
  | .exportExpr hs he => by
    cases he with
    | mk n ht => rw [ht.eq, show _ = _ from hs]
  | .externVariable hs hx => by rw [hx, show _ = _ from hs]
  | .externFunction hs hk => by rw [hk.eq, show _ = _ from hs]
  | .imports hs he hm => by rw [Expr.Agree.eqAll he, hm.eq, show _ = _ from hs]
  | .block hb => by rw [hb.eq]

theorem Block.Agree.eq {b c : Block} : Block.Agree .all Eq Eq b c → b = c
  | .mk hs hms hscope => by
    rw [Stmt.Agree.eqAll hms, hscope.eq (fun _ _ h => h) fun _ _ h => h, show _ = _ from hs]

/-- So are modules. -/
theorem Module.Agree.eq {m n : Module} : Module.Agree .all Eq Eq m n → m = n
  | .mk hf hb => by rw [hf.eq, hb.eq]

theorem Stmt.Agree.eqAll {ms ns : List Stmt} :
    List.Forall₂ (Stmt.Agree .all Eq Eq) ms ns → ms = ns
  | .nil => rfl
  | .cons h hs => by rw [h.eq, Stmt.Agree.eqAll hs]

end

end TypedLua
