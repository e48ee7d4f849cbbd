import Mathlib.Data.List.Forall2
import Mathlib.Order.Defs.PartialOrder
import TypedLua.Fault

/-!
# Simulation

Two computations that run in step.  What is known to correspond on the two sides grows while they
run; a world is a stage of that knowledge.  A link says which values correspond in which world and
never forgets; actions are in step if from corresponding states they come to corresponding states
with linked results, in a later world.

Main statements: `InStep.bind`, sequences of actions in step are in step, and `InStep.mapM`.
-/

namespace TypedLua

open Text

/-! ## Links -/

/-- Which values correspond in which world; what corresponds once does so in every later world. -/
structure Link (W : Type) [Preorder W] (α β : Type) where
  rel : W → α → β → Prop
  mono {w v : W} (hwv : w ≤ v) {x : α} {y : β} : rel w x y → rel v x y

namespace Link

variable {W : Type} [Preorder W] {α β γ δ : Type}

/-- Equal values correspond. -/
def same : Link W α α where
  rel _ x y := x = y
  mono _ _ _ h := h

/-- Lists correspond place by place. -/
def list (R : Link W α β) : Link W (List α) (List β) where
  rel w := List.Forall₂ (R.rel w)
  mono hwv _ _ h := h.imp fun _ _ => R.mono hwv

/-- Optional values correspond if both are missing or both are there and correspond. -/
def option (R : Link W α β) : Link W (Option α) (Option β) where
  rel w := Option.Rel (R.rel w)
  mono hwv _ _ h := by
    cases h with
    | none => exact .none
    | some h => exact .some (R.mono hwv h)

theorem isSome_eq {r : α → β → Prop} {x : Option α} {y : Option β} (h : Option.Rel r x y) :
    x.isSome = y.isSome := by
  cases h <;> rfl

/-- Pairs correspond in both places. -/
def pair (R : Link W α β) (S : Link W γ δ) : Link W (α × γ) (β × δ) where
  rel w p q := R.rel w p.1 q.1 ∧ S.rel w p.2 q.2
  mono hwv _ _ h := ⟨R.mono hwv h.1, S.mono hwv h.2⟩

/-- Results correspond if both are values that correspond, or faults of one cause at places that go
together. -/
inductive ResultRel (place : Span → Span → Prop) (r : α → β → Prop) :
    Except Fault α → Except Fault β → Prop
  | ok {x : α} {y : β} : r x y → ResultRel place r (.ok x) (.ok y)
  | error {a b : Span} (cause : Cause) : place a b →
      ResultRel place r (.error ⟨a, cause⟩) (.error ⟨b, cause⟩)

namespace ResultRel

variable {place : Span → Span → Prop} {r : α → β → Prop} {q : γ → δ → Prop} {x : Except Fault α}
  {y : Except Fault β}

theorem error_of {f g : Fault} (hcause : f.cause = g.cause) (hspan : place f.span g.span) :
    ResultRel place r (.error f) (.error g) := by
  obtain ⟨span, cause⟩ := f
  cases hcause
  exact .error _ hspan

theorem of_ok {x : α} {y : β} (h : ResultRel place r (.ok x) (.ok y)) : r x y := by
  cases h with
  | ok h => exact h

/-- Related results go on to related results. -/
theorem bind (h : ResultRel place r x y) {f : α → Except Fault γ} {g : β → Except Fault δ}
    (hfg : ∀ a b, r a b → ResultRel place q (f a) (g b)) :
    ResultRel place q (x.bind f) (y.bind g) := by
  cases h with
  | ok h => exact hfg _ _ h
  | error cause hab => exact .error cause hab

theorem map (h : ResultRel place r x y) {f : α → γ} {g : β → δ}
    (hfg : ∀ a b, r a b → q (f a) (g b)) : ResultRel place q (x.map f) (y.map g) := by
  cases h with
  | ok h => exact .ok (hfg _ _ h)
  | error cause hab => exact .error cause hab

theorem imp {r' : α → β → Prop} (h : ResultRel place r x y) (hr : ∀ a b, r a b → r' a b) :
    ResultRel place r' x y := by
  cases h with
  | ok h => exact .ok (hr _ _ h)
  | error cause hab => exact .error cause hab

theorem refl {r : α → α → Prop} (hr : ∀ a, r a a) (hplace : ∀ a, place a a) :
    ResultRel place r x x := by
  cases x with
  | ok a => exact .ok (hr a)
  | error f => exact .error f.cause (hplace f.span)

end ResultRel

/-- Results correspond if both are values that correspond, or faults of one cause at places that go
together. -/
def result (R : Link W α β) (place : Span → Span → Prop) :
    Link W (Except Fault α) (Except Fault β) where
  rel w := ResultRel place (R.rel w)
  mono hwv _ _ h := h.imp fun _ _ => R.mono hwv

theorem getElem? (R : Link W α β) {w : W} {xs : List α} {ys : List β}
    (h : R.list.rel w xs ys) (i : Nat) : R.option.rel w xs[i]? ys[i]? := by
  change List.Forall₂ _ xs ys at h
  induction h generalizing i with
  | nil => exact .none
  | cons hxy _ ih =>
    cases i with
    | zero => exact .some hxy
    | succ i => exact ih i

theorem lookup (R : Link W α β) {w : W} {xs : List (String × α)} {ys : List (String × β)}
    (h : (same.pair R).list.rel w xs ys) (name : String) :
    R.option.rel w (xs.lookup name) (ys.lookup name) := by
  change List.Forall₂ _ xs ys at h
  induction h with
  | nil => exact .none
  | cons hxy _ ih =>
    obtain ⟨hname, hvalue⟩ := hxy
    rw [List.lookup_cons, List.lookup_cons, ← show _ = _ from hname]
    split
    · exact .some hvalue
    · exact ih

end Link

/-! ## Actions in step -/

section

variable {W : Type} [Preorder W] {S T α β γ δ : Type} {state : W → S → T → Prop}

/-- From states that correspond in the world `w` the actions come to states and results that
correspond in a later world. -/
def InStep (state : W → S → T → Prop) (w : W) (R : Link W α β) (f : StateM S α)
    (g : StateM T β) : Prop :=
  ∀ s t, state w s t →
    ∃ v, w ≤ v ∧ R.rel v (f s).1 (g t).1 ∧ state v (f s).2 (g t).2

/-- A run of two programs is one of the first and then one of the second. -/
theorem run_bind {σ α β : Type} {f : StateM σ α} {g : α → StateM σ β} {s t : σ} {y : β}
    (h : (f >>= g) s = (y, t)) : ∃ x u, f s = (x, u) ∧ g x u = (y, t) :=
  ⟨(f s).1, (f s).2, rfl, h⟩

theorem bind_of_run {σ α β : Type} {f : StateM σ α} {g : α → StateM σ β} {s t : σ} {x : α}
    (h : f s = (x, t)) : (f >>= g) s = g x t := by
  show g (f s).1 (f s).2 = g x t
  rw [h]

namespace InStep

variable {w : W} {R : Link W α β} {Q : Link W γ δ}

theorem pure {x : α} {y : β} (h : R.rel w x y) :
    InStep state w R (Pure.pure x : StateM S α) (Pure.pure y : StateM T β) :=
  fun _ _ hst => ⟨w, le_refl w, h, hst⟩

/-- Programs in step, one after the other, stay in step. -/
theorem bind {f : StateM S α} {g : StateM T β} (hfg : InStep state w R f g)
    {f' : α → StateM S γ} {g' : β → StateM T δ}
    (hnext : ∀ v x y, w ≤ v → R.rel v x y → InStep state v Q (f' x) (g' y)) :
    InStep state w Q (f >>= f') (g >>= g') := by
  intro s t hst
  obtain ⟨v, hwv, hr, hv⟩ := hfg s t hst
  obtain ⟨u, hvu, hq, hu⟩ := hnext v _ _ hwv hr _ _ hv
  exact ⟨u, le_trans hwv hvu, hq, hu⟩

theorem get_bind {f : S → StateM S α} {g : T → StateM T β}
    (h : ∀ s t, state w s t → InStep state w R (f s) (g t)) :
    InStep state w R (get >>= f) (get >>= g) :=
  fun s t hst => h s t hst s t hst

/-- Programs in step, run for the members of related lists, stay in step. -/
theorem mapM {f : α → StateM S γ} {g : β → StateM T δ} {xs : List α} {ys : List β}
    (hxy : R.list.rel w xs ys)
    (hfg : ∀ v x y, w ≤ v → R.rel v x y → InStep state v Q (f x) (g y)) :
    InStep state w Q.list (xs.mapM f) (ys.mapM g) := by
  -- the members still to come correspond in the world that the earlier ones lead to
  induction xs generalizing w ys with
  | nil =>
    cases hxy with
    | nil => exact pure .nil
  | cons x xs ih =>
    cases hxy with
    | cons hx hxs =>
      rw [List.mapM_cons, List.mapM_cons]
      refine bind (hfg w _ _ (le_refl w) hx) ?_
      intro v x' y' hwv hx'
      refine bind (ih (R.list.mono hwv hxs) fun u x y hvu => hfg u x y (le_trans hwv hvu)) ?_
      intro u xs' ys' hvu hxs'
      exact pure (.cons (Q.mono hvu hx') hxs')

end InStep

end

end TypedLua
