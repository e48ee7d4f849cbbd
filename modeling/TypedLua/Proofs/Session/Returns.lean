import TypedLua.Proofs.Session.Varargs
import TypedLua.Proofs.Types.Interning

/-!
# Session.Returns

Functions that return nothing.  A lone `void` that is written for what a function returns stands for
an empty list.  Giving arguments to an interface rebuilds the functions in it, and a function that
returns a lone parameter may then return a lone `void`; this takes `void` for a type argument.

Main statement: `Session.parse_void_returns`.
-/

namespace TypedLua

/-! ## Functions of an arena -/

namespace TypeArena

variable {a b : TypeArena} {σ : String → Option TypeTree}

/-- No function returns a lone `void`. -/
def VoidStripped (a : TypeArena) : Prop :=
  ∀ id xs, a.get? id ≠ some (.function xs [Primitive.void.typeId])

/-- No interface has `void` for a type argument. -/
def NoVoidArgument (a : TypeArena) : Prop :=
  ∀ shape ∈ a.shapes, Primitive.void.typeId ∉ shape.typeArguments

/-- No function returns a lone parameter. -/
def NoLoneParameter (a : TypeArena) : Prop :=
  ∀ id xs u name, a.get? id = some (.function xs [u]) → a.get? u ≠ some (.generic name)

instance (a : TypeArena) : Decidable a.NoVoidArgument :=
  inferInstanceAs (Decidable (∀ shape ∈ a.shapes, Primitive.void.typeId ∉ shape.typeArguments))

theorem NoVoidArgument.of_extends (h : b.NoVoidArgument) (hab : a.Extends b) : a.NoVoidArgument :=
  fun shape hshape => h shape (hab.subset hshape)

theorem NoLoneParameter.of_extends (h : b.NoLoneParameter) (hab : a.Extends b) :
    a.NoLoneParameter :=
  fun id xs u name hid hu => h id xs u name (hab.get? hid) (hab.get? hu)

theorem VoidStripped.intern (h : a.VoidStripped) {s : Shape}
    (hs : ∀ xs, s ≠ .function xs [Primitive.void.typeId]) : (intern s a).2.VoidStripped := by
  intro id xs hid
  rcases get?_intern_cases hid with hold | hnew
  · exact h id xs hold
  · exact hs xs hnew.symm

/-- Functions without results are one type for one list of arguments. -/
theorem VoidStripped.unique (h : a.VoidStripped) (ha : a.Canonical) {x y : TypeId}
    {xs us vs : List TypeId} (hx : a.get? x = some (.function xs us))
    (hy : a.get? y = some (.function xs vs)) (hreturns : Grammar.stripVoid us = Grammar.stripVoid vs) :
    x = y := by
  have hkept : ∀ id ws, a.get? id = some (.function xs ws) → Grammar.stripVoid ws = ws := by
    intro id ws hid
    apply if_neg
    intro hlone
    rw [hlone] at hid
    exact h id xs hid
  rw [hkept x us hx, hkept y vs hy] at hreturns
  rw [hreturns] at hx
  exact ha.eq_of_get? hx hy

/-! ## Rebuilt functions -/

theorem Grounded.unfold_void (ha : a.Grounded) :
    a.unfold Primitive.void.typeId = .node (.primitive .void) [] :=
  ha.unfold_eq (ha.primitive .void)

theorem Replaced.void_cases (ha : a.Grounded) {u : TypeId}
    (h : a.Replaced σ u Primitive.void.typeId) :
    u = Primitive.void.typeId ∨ ∃ name, a.get? u = some (.generic name) ∧
      σ name = some (.node (.primitive .void) []) := by
  obtain ⟨hu, hvoid, htree⟩ := h
  obtain ⟨s, hs⟩ := hu.get?
  rw [ha.unfold_void] at htree
  by_cases hgen : ∃ name, s = .generic name
  · obtain ⟨name, rfl⟩ := hgen
    refine .inr ⟨name, hs, ?_⟩
    rw [ha.unfold_eq hs] at htree
    cases hname : σ name with
    | none => simp [TypeTree.ofShape, TypeTree.replace, hname] at htree
    | some t => simpa [TypeTree.ofShape, TypeTree.replace, hname] using htree.symm
  · -- a layer that is no parameter stays, and `void` has no parts
    left
    rw [← ha.unfold_eq_iff hu hvoid, ha.unfold_void]
    rw [ha.unfold_eq hs] at htree ⊢
    cases s <;> simp_all [TypeTree.ofShape, TypeTree.replace, Shape.parts, Shape.blank]

theorem VoidStripped.rebuild (h : a.VoidStripped) (ha : a.Grounded) {x : TypeId} {s t : Shape}
    (hs : a.get? x = some s) (hst : Shape.Rel (a.Replaced σ) s t)
    (hσ : a.NoLoneParameter ∨ ∀ name, σ name ≠ some (.node (.primitive .void) [])) :
    (TypeArena.intern t a).2.VoidStripped := by
  apply h.intern
  intro ys ht
  rw [ht] at hst
  cases hst with
  | @function xs _ us _ _ hus =>
    obtain ⟨u, rest, hu, hrest, rfl⟩ := List.forall₂_cons_right_iff.1 hus
    rw [List.forall₂_nil_right_iff.1 hrest] at hs
    rcases hu.void_cases ha with rfl | ⟨name, hgeneric, hname⟩
    · exact h x xs hs
    · rcases hσ with hlone | hnot
      · exact hlone x xs u name hs hgeneric
      · exact hnot name hname

/-- Instances have no lone `void` if it is not an argument. -/
theorem VoidStripped.instantiate (h : a.VoidStripped) (ha : a.Grounded) {d : TypeId} {name : String}
    {gs xs : List TypeId} {ps : List Property} (hd : a.get? d = some (.interface name gs ps))
    (hlen : gs.length = xs.length) (hxs : ∀ x ∈ xs, a.Holds x)
    (hvoid : (instantiate d xs a).2.NoLoneParameter ∨ Primitive.void.typeId ∉ xs) :
    (instantiate d xs a).2.VoidStripped := by
  have hσ : Primitive.void.typeId ∉ xs →
      ∀ parameter, a.argumentTrees gs xs parameter ≠ some (.node (.primitive .void) []) := by
    intro hnot parameter htree
    obtain ⟨x, hx, hunfold⟩ := Option.map_eq_some_iff.1 htree
    have hmem := mem_of_replacement_lookup hx
    rw [← ha.unfold_void, ha.unfold_eq_iff (hxs x hmem) (ha.holds_primitive .void)] at hunfold
    rw [hunfold] at hmem
    exact hnot hmem
  -- the arena grows while the properties are rebuilt: what it must not hold in the end it never held
  obtain ⟨b, qs, hb, hJ, -, -, heq⟩ := instantiate_spec
    (J := fun b => b.NoLoneParameter ∨ Primitive.void.typeId ∉ xs → b.VoidStripped)
    (by
      intro b x s t hb hx hst hJ hkeeps
      have hbefore : b.NoLoneParameter ∨ Primitive.void.typeId ∉ xs :=
        hkeeps.imp_left fun hlone => hlone.of_extends (extends_intern b t)
      exact (hJ hbefore).rebuild hb hx hst (hbefore.imp_right hσ))
    ha (fun _ => h) hd hlen hxs
  rw [heq] at hvoid ⊢
  refine (hJ ?_).intern nofun
  exact hvoid.imp_left fun hlone => hlone.of_extends (extends_intern b _)

/-- One step keeps lone `void`s away. -/
theorem Step.voidStripped (h : Step a b) (ha : a.Grounded)
    (hstripped : a.NoVoidArgument ∨ a.NoLoneParameter → a.VoidStripped) :
    b.NoVoidArgument ∨ b.NoLoneParameter → b.VoidStripped := by
  intro hb
  have hab := h.extends ha
  have hJ := hstripped (hb.imp (fun hargument => hargument.of_extends hab)
    fun hlone => hlone.of_extends hab)
  cases h with
  | form hparts hformed =>
    apply hJ.intern
    rintro xs rfl
    exact hformed.2.2 rfl
  | @apply d name gs xs ps hd hlen hxs =>
    apply hJ.instantiate ha hd hlen hxs
    rcases hb with hargument | hlone
    · right
      obtain ⟨c, qs, -, -, -, -, heq⟩ := instantiate_spec (J := fun _ => True)
        (fun _ _ _ _ _ _ _ _ => .intro) ha .intro hd hlen hxs
      -- the instance has the arguments, and none of them may be `void`
      rw [heq] at hargument
      exact hargument _ (List.mem_of_getElem? (get?_intern c (.interface name xs qs)))
    · exact .inl hlone

theorem primitives_voidStripped : primitives.VoidStripped := by
  intro id xs hid
  obtain ⟨p, -, hp⟩ := List.mem_map.1 (List.mem_of_getElem? hid)
  cases hp

end TypeArena

/-! ## Functions of a session -/

namespace Session

/-- **A function that returns nothing has one form.**  No function type that reading a module leaves
in a fresh session returns a lone `void`, and with the same arguments there is one type of function
that returns nothing, unless some interface was given `void` for a type argument and some function
returns a lone parameter.  This holds for modules with imports, and for modules that are refused. -/
theorem parse_void_returns {files : FileTree} {path : Path} {text : String} {config : Config}
    {output : Option String} {found : Option Module} {s : Session}
    (hparse : parse files path text { config, output } = (found, s))
    (hkeeps : s.types.NoVoidArgument ∨ s.types.NoLoneParameter) :
    s.types.VoidStripped ∧ ∀ x y xs us vs, s.types.get? x = some (.function xs us) →
      s.types.get? y = some (.function xs vs) → Grammar.stripVoid us = Grammar.stripVoid vs →
      x = y := by
  have hgrows := grows_parse files path text config output
  rw [hparse] at hgrows
  obtain ⟨hgrounded, hstripped⟩ := hgrows.keeps
    (J := fun a => a.NoVoidArgument ∨ a.NoLoneParameter → a.VoidStripped)
    (fun b c hb hJ hstep => hstep.voidStripped hb hJ) TypeArena.primitives_grounded
    fun _ => TypeArena.primitives_voidStripped
  refine ⟨hstripped hkeeps, fun x y xs us vs hx hy hreturns => ?_⟩
  exact (hstripped hkeeps).unique hgrounded.toCanonical hx hy hreturns

set_option maxRecDepth 4000 in
/-- An interface whose functions return a parameter and nothing, and one of its instances; a function
that returns nothing is written in two ways. -/
theorem parse_void_returns_instance :
    let text := "interface F<T> \x7b f: (T) => T, g: (T) => void \x7d
local x: F<number>
local y: (number) => (void)"
    ∃ m s, parse ⟨"/", []⟩ ⟨"main.lua"⟩ text {} = (some m, s) ∧ s.types.NoVoidArgument ∧
      s.types.get? ⟨12⟩ = some (.function [⟨1⟩] []) ∧ s.types.VoidStripped := by
  intro text
  obtain ⟨m, s, hparse, htypes⟩ : ∃ m s, parse ⟨"/", []⟩ ⟨"main.lua"⟩ text {} = (some m, s) ∧
      s.types = ⟨TypeArena.primitives.shapes ++ [.generic "T", .function [⟨7⟩] [⟨7⟩],
        .function [⟨7⟩] [], .interface "F" [⟨7⟩] [⟨"f", ⟨8⟩, false⟩, ⟨"g", ⟨9⟩, false⟩],
        .function [⟨1⟩] [⟨1⟩], .function [⟨1⟩] [],
        .interface "F" [⟨1⟩] [⟨"f", ⟨11⟩, false⟩, ⟨"g", ⟨12⟩, false⟩]]⟩ :=
    exists_of_found (by rw [parse_ofList]; decide +kernel)
  have hargument : s.types.NoVoidArgument := by
    rw [htypes]
    decide
  refine ⟨m, s, hparse, hargument, ?_, (parse_void_returns hparse (.inl hargument)).1⟩
  rw [htypes]
  rfl

set_option maxRecDepth 4000 in
/-- A parameter that a function returns becomes `void`: there are then two functions that take
nothing and return nothing, which read the same and are not compatible. -/
theorem void_returned :
    let text := "interface F<T> \x7b f: () => T, g: () => void \x7d
local x: F<void>"
    ∃ m s, parse ⟨"/", []⟩ ⟨"main.lua"⟩ text {} = (some m, s) ∧
      (∀ token ∈ Token.words text, token.kind ≠ .kwImport) ∧ ¬ s.types.VoidStripped ∧
      s.types.display ⟨9⟩ = s.types.display ⟨11⟩ ∧ s.types.compatible ⟨9⟩ ⟨11⟩ = false := by
  intro text
  obtain ⟨m, s, hparse, htypes⟩ : ∃ m s, parse ⟨"/", []⟩ ⟨"main.lua"⟩ text {} = (some m, s) ∧
      s.types = ⟨TypeArena.primitives.shapes ++ [.generic "T", .function [] [⟨7⟩],
        .function [] [], .interface "F" [⟨7⟩] [⟨"f", ⟨8⟩, false⟩, ⟨"g", ⟨9⟩, false⟩],
        .function [] [⟨5⟩], .interface "F" [⟨5⟩] [⟨"f", ⟨11⟩, false⟩, ⟨"g", ⟨9⟩, false⟩]]⟩ :=
    exists_of_found (by rw [parse_ofList]; decide +kernel)
  refine ⟨m, s, hparse, by decide +kernel, ?_⟩
  rw [htypes]
  exact ⟨fun hstripped => hstripped ⟨11⟩ [] rfl, by decide +kernel, by decide +kernel⟩

end Session

end TypedLua
