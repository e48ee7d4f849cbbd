import TypedLua.Proofs.Session.Runs
import TypedLua.Proofs.Session.Sound
import TypedLua.Proofs.Types.Nesting

/-!
# Session.Varargs

Variadic types in the argument and return lists of functions.  They come last in every list that is
written.  Giving arguments to an interface rebuilds the functions in it, and a parameter that stands
before others may then become variadic; this takes a variadic type argument.

Main statement: `Session.parse_varargs_last`.
-/

namespace TypedLua

/-! ## Variadic types as trees -/

/-- The type arguments of an interface. -/
def Shape.typeArguments : Shape → List TypeId
  | .interface _ xs _ => xs
  | _ => []

namespace TypeArena

variable {a b : TypeArena} {σ : String → Option TypeTree}

theorem Replaced.isVararg_eq (ha : a.Grounded) (hσ : ∀ name t, σ name = some t → t.isVararg = false)
    {x y : TypeId} (h : a.Replaced σ x y) : a.isVararg y = a.isVararg x := by
  obtain ⟨hx, hy, htree⟩ := h
  rw [← ha.isVararg_unfold hx, ← ha.isVararg_unfold hy, htree]
  cases a.unfold x with
  | absent => rfl
  | node layer parts =>
    rw [TypeTree.replace_node]
    rfl
  | parameter name =>
    rw [TypeTree.replace]
    cases hname : σ name with
    | none => rfl
    | some t => exact hσ name t hname

/-! ## Lists of types -/

/-- Variadic types of the list are at its last place. -/
def VarargLast (a : TypeArena) (xs : List TypeId) : Prop :=
  ∀ i x e, xs[i]? = some x → a.get? x = some (.vararg e) → i + 1 = xs.length

theorem isVararg_eq_true_iff {x : TypeId} :
    a.isVararg x = true ↔ ∃ e, a.get? x = some (.vararg e) := by
  unfold isVararg
  cases hx : a.get? x with
  | none => simp
  | some s => cases s <;> simp [Shape.isVararg]

/-- A list passes the check if a vararg stands last. -/
theorem hasMisplacedVararg_eq_false_iff {xs : List TypeId} :
    a.hasMisplacedVararg xs = false ↔ a.VarargLast xs := by
  have hany : a.hasMisplacedVararg xs = false ↔ ∀ x ∈ xs.dropLast, ¬ a.isVararg x = true := by
    simp [hasMisplacedVararg]
  rw [hany]
  constructor
  · intro h i x e hx he
    obtain ⟨hi, hget⟩ := List.getElem?_eq_some_iff.1 hx
    by_contra hlast
    -- a place before the last one is a place of the list without its last member
    have hlt : i < xs.dropLast.length := by
      rw [List.length_dropLast]
      omega
    refine h x ?_ (isVararg_eq_true_iff.2 ⟨e, he⟩)
    rw [← hget, ← List.getElem_dropLast hlt]
    exact List.getElem_mem hlt
  · intro h x hx hvararg
    obtain ⟨e, he⟩ := isVararg_eq_true_iff.1 hvararg
    obtain ⟨i, hi, rfl⟩ := List.getElem_of_mem hx
    rw [List.getElem_dropLast] at he
    have hlen := h i _ e (List.getElem?_eq_getElem _) he
    rw [List.length_dropLast] at hi
    omega

theorem hasMisplacedVararg_replaced (ha : a.Grounded)
    (hσ : ∀ name t, σ name = some t → t.isVararg = false) {xs ys : List TypeId}
    (h : List.Forall₂ (a.Replaced σ) xs ys) :
    a.hasMisplacedVararg ys = a.hasMisplacedVararg xs := by
  unfold hasMisplacedVararg
  induction h with
  | nil => rfl
  | cons hxy hrest ih =>
    cases hrest with
    | nil => rfl
    | cons _ _ =>
      rw [List.dropLast_cons_cons, List.dropLast_cons_cons, List.any_cons, List.any_cons, ih,
        hxy.isVararg_eq ha hσ]

/-! ## Functions of an arena -/

/-- All functions have their variadic types last. -/
def VarargsLast (a : TypeArena) : Prop :=
  ∀ id xs us, a.get? id = some (.function xs us) → a.VarargLast xs ∧ a.VarargLast us

/-- No interface has a variadic type argument. -/
def PlainArguments (a : TypeArena) : Prop :=
  ∀ shape ∈ a.shapes, ∀ x ∈ shape.typeArguments, a.isVararg x = false

instance (a : TypeArena) : Decidable a.PlainArguments :=
  inferInstanceAs (Decidable (∀ shape ∈ a.shapes, ∀ x ∈ shape.typeArguments, a.isVararg x = false))

theorem VarargsLast.intern (h : a.VarargsLast) (ha : a.Grounded) {s : Shape}
    (hs : ∀ xs us, s = .function xs us → (∀ x ∈ xs ++ us, a.Holds x) ∧
      a.hasMisplacedVararg xs = false ∧ a.hasMisplacedVararg us = false) :
    (intern s a).2.VarargsLast := by
  have hext := extends_intern a s
  -- lists of types that exist are not affected by what is added
  have hkept : ∀ xs, (∀ x ∈ xs, a.Holds x) → a.hasMisplacedVararg xs = false →
      (TypeArena.intern s a).2.VarargLast xs := by
    intro xs hxs hlast
    rw [← hasMisplacedVararg_eq_false_iff, hext.hasMisplacedVararg_eq hxs]
    exact hlast
  intro id xs us hid
  rcases get?_intern_cases hid with hold | hnew
  · obtain ⟨hxs, hus⟩ := h id xs us hold
    rw [← hasMisplacedVararg_eq_false_iff] at hxs hus
    exact ⟨hkept xs (fun x hx => ha.holds_part hold (List.mem_append_left us hx)) hxs,
      hkept us (fun u hu => ha.holds_part hold (List.mem_append_right xs hu)) hus⟩
  · obtain ⟨hheld, hxs, hus⟩ := hs xs us hnew.symm
    exact ⟨hkept xs (fun x hx => hheld x (List.mem_append_left us hx)) hxs,
      hkept us (fun u hu => hheld u (List.mem_append_right xs hu)) hus⟩

/-- Instances keep varargs last if none is an argument. -/
theorem VarargsLast.instantiate (h : a.VarargsLast) (ha : a.Grounded) {d : TypeId} {name : String}
    {gs xs : List TypeId} {ps : List Property} (hd : a.get? d = some (.interface name gs ps))
    (hlen : gs.length = xs.length) (hxs : ∀ x ∈ xs, a.Holds x)
    (hplain : ∀ x ∈ xs, a.isVararg x = false) : (instantiate d xs a).2.VarargsLast := by
  have hσ : ∀ parameter t, a.argumentTrees gs xs parameter = some t → t.isVararg = false := by
    intro parameter t ht
    obtain ⟨x, hx, rfl⟩ := Option.map_eq_some_iff.1 ht
    have hmem := mem_of_replacement_lookup hx
    rw [ha.isVararg_unfold (hxs x hmem)]
    exact hplain x hmem
  -- a rebuilt function has variadic types where the function had them that it is rebuilt from
  have hrebuilt : ∀ b x s t, b.Grounded → b.get? x = some s →
      Shape.Rel (b.Replaced (a.argumentTrees gs xs)) s t → b.VarargsLast →
      (TypeArena.intern t b).2.VarargsLast := by
    intro b x s t hb hx hst hJ
    refine hJ.intern hb ?_
    rintro ys vs rfl
    cases hst with
    | @function as _ us _ has hus =>
      obtain ⟨hlast, hlast'⟩ := hJ x as us hx
      rw [← hasMisplacedVararg_eq_false_iff] at hlast hlast'
      refine ⟨fun y hy => ?_, ?_, ?_⟩
      · obtain ⟨i, hi, rfl⟩ := List.getElem_of_mem hy
        have hall := List.rel_append has hus
        exact (hall.get (by rw [hall.length_eq]; exact hi) hi).2.1
      · rw [hasMisplacedVararg_replaced hb hσ has]
        exact hlast
      · rw [hasMisplacedVararg_replaced hb hσ hus]
        exact hlast'
  obtain ⟨b, qs, hb, hJ, -, -, heq⟩ := instantiate_spec hrebuilt ha h hd hlen hxs
  rw [heq]
  exact hJ.intern hb nofun

theorem PlainArguments.of_extends (h : b.PlainArguments) (hab : a.Extends b) :
    a.PlainArguments := by
  intro shape hshape x hx
  have hplain := h shape (hab.subset hshape) x hx
  rw [Bool.eq_false_iff] at hplain ⊢
  intro hvararg
  obtain ⟨e, he⟩ := isVararg_eq_true_iff.1 hvararg
  exact hplain (isVararg_eq_true_iff.2 ⟨e, hab.get? he⟩)

/-- So does every step. -/
theorem Step.varargsLast (h : Step a b) (ha : a.Grounded)
    (hlast : a.PlainArguments → a.VarargsLast) : b.PlainArguments → b.VarargsLast := by
  intro hb
  have hJ := hlast (hb.of_extends (h.extends ha))
  cases h with
  | form hparts hformed =>
    refine hJ.intern ha ?_
    rintro xs us rfl
    exact ⟨hparts, hformed.1, hformed.2.1⟩
  | @apply d name gs xs ps hd hlen hxs =>
    refine hJ.instantiate ha hd hlen hxs fun x hx => ?_
    obtain ⟨c, qs, -, -, hac, -, heq⟩ := instantiate_spec (J := fun _ => True)
      (fun _ _ _ _ _ _ _ _ => .intro) ha .intro hd hlen hxs
    -- the instance has the arguments, and none of them may be variadic
    rw [heq] at hb
    have hmem := List.mem_of_getElem? (get?_intern c (.interface name xs qs))
    have hplain := hb _ hmem x hx
    unfold isVararg at hplain ⊢
    rw [(hac.trans (extends_intern c _)).get?_eq (hxs x hx)] at hplain
    exact hplain

theorem primitives_varargsLast : primitives.VarargsLast := by
  intro id xs us hid
  obtain ⟨p, -, hp⟩ := List.mem_map.1 (List.mem_of_getElem? hid)
  cases hp

end TypeArena

/-! ## Functions of a session -/

namespace Session

/-- Parsing makes types step by step. -/
theorem grows_parse (files : FileTree) (path : Path) (text : String) (config : Config)
    (output : Option String) :
    TypeArena.primitives.Grows (parse files path text { config, output }).2.types := by
  have hstart : Session.Sound ⟨.primitives, {}⟩ { config, output } { config, output } :=
    ⟨⟨TypeArena.primitives_grounded, fun hv => by cases hv⟩, rfl, rfl, rfl⟩
  obtain ⟨v, hle, -, hv⟩ := sound_lawful.parse files [] _ path text text rfl _ _ hstart
  rw [hv.types]
  exact hle.2.2

/-- **Variadic types come last** in the argument list and in the return list of every function type
that reading a module leaves in a fresh session, unless some interface was given a variadic type
argument.  This holds for modules with imports, and for modules that are refused. -/
theorem parse_varargs_last {files : FileTree} {path : Path} {text : String} {config : Config}
    {output : Option String} {found : Option Module} {s : Session}
    (hparse : parse files path text { config, output } = (found, s))
    (hplain : s.types.PlainArguments) : s.types.VarargsLast := by
  have hgrows := grows_parse files path text config output
  rw [hparse] at hgrows
  refine (hgrows.keeps (J := fun a => a.PlainArguments → a.VarargsLast) ?_
    TypeArena.primitives_grounded fun _ => TypeArena.primitives_varargsLast).2 hplain
  intro b c hb hlast hstep
  exact hstep.varargsLast hb hlast

set_option maxRecDepth 4000 in
/-- Variadic types in an argument list and in a return list, written out and through another name,
in an interface that gets a plain argument. -/
theorem parse_varargs_last_mixed :
    let text := "type V = ...number
interface F<T> \x7b f: (T, V) => (T, ...T) \x7d
local x: F<string>"
    ∃ m s, parse ⟨"/", []⟩ ⟨"mixed.lua"⟩ text {} = (some m, s) ∧ s.types.PlainArguments ∧
      s.types.get? ⟨13⟩ = some (.function [⟨0⟩, ⟨7⟩] [⟨0⟩, ⟨12⟩]) ∧ s.types.VarargsLast := by
  intro text
  obtain ⟨m, s, hparse, htypes⟩ : ∃ m s, parse ⟨"/", []⟩ ⟨"mixed.lua"⟩ text {} = (some m, s) ∧
      s.types = ⟨TypeArena.primitives.shapes ++ [.vararg ⟨1⟩, .generic "T", .vararg ⟨8⟩,
        .function [⟨8⟩, ⟨7⟩] [⟨8⟩, ⟨9⟩], .interface "F" [⟨8⟩] [⟨"f", ⟨10⟩, false⟩],
        .vararg ⟨0⟩, .function [⟨0⟩, ⟨7⟩] [⟨0⟩, ⟨12⟩],
        .interface "F" [⟨0⟩] [⟨"f", ⟨13⟩, false⟩]]⟩ :=
    exists_of_found (by rw [parse_ofList]; decide +kernel)
  have hplain : s.types.PlainArguments := by
    rw [htypes]
    decide
  refine ⟨m, s, hparse, hplain, ?_, parse_varargs_last hparse hplain⟩
  rw [htypes]
  rfl

set_option maxRecDepth 4000 in
/-- A variadic type argument gets in front of other arguments. -/
theorem varargs_move :
    let text := "interface F<T> \x7b f: (T, number) => void \x7d
local x: F<...string>"
    ∃ m s, parse ⟨"/", []⟩ ⟨"main.lua"⟩ text {} = (some m, s) ∧
      (∀ token ∈ Token.words text, token.kind ≠ .kwImport) ∧ ¬ s.types.VarargsLast := by
  intro text
  obtain ⟨m, s, hparse, htypes⟩ : ∃ m s, parse ⟨"/", []⟩ ⟨"main.lua"⟩ text {} = (some m, s) ∧
      s.types = ⟨TypeArena.primitives.shapes ++ [.generic "T", .function [⟨7⟩, ⟨1⟩] [],
        .interface "F" [⟨7⟩] [⟨"f", ⟨8⟩, false⟩], .vararg ⟨0⟩, .function [⟨10⟩, ⟨1⟩] [],
        .interface "F" [⟨10⟩] [⟨"f", ⟨11⟩, false⟩]]⟩ :=
    exists_of_found (by rw [parse_ofList]; decide +kernel)
  refine ⟨m, s, hparse, by decide +kernel, fun hlast => ?_⟩
  rw [htypes] at hlast
  -- the list has two members, and the first is variadic
  have hlen := (hlast ⟨11⟩ _ _ rfl).1 0 ⟨10⟩ ⟨0⟩ rfl rfl
  simp at hlen

end Session

end TypedLua
