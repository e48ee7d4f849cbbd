import TypedLua.Proofs.Session.Mirror
import TypedLua.Proofs.Typing.Growth

/-!
# Session.History

Compiling does not depend on what the session did before.  Reading, checking and loading keep
sessions mirrored; a fresh session is mirrored by any session that earlier calls lead to, since
these leave the types canonical and no module in loading.

Main statement: `compile_independent_of_history`.
-/

namespace TypedLua.Session

open Text

/-! ## Earlier calls -/

/-- A call of a session, with the files it is made on. -/
inductive Call where
  /-- Compile the module kept at a path. -/
  | compile (files : FileTree) (path : Path) (text : String)
  /-- Read the module kept at a path. -/
  | parse (files : FileTree) (path : Path) (text : String)
  /-- Check a module. -/
  | validate (m : Module)

/-- What a call leaves of a session. -/
def Call.run : Call → Session → Session
  | compile files path text, s => (Session.compile files path text s).2
  | parse files path text, s => (Session.parse files path text s).2
  | validate m, s => (Session.validate m s).2

/-- What calls leave of a session, one after the other. -/
def after (s : Session) (calls : List Call) : Session := calls.foldl (fun s call => call.run s) s

/-- Between calls the types are canonical and no module is being loaded. -/
structure Settled (config : Config) (s : Session) : Prop where
  config_eq : s.config = config
  /-- No shape occurs twice among the types, and primitives have their ids. -/
  types : s.types.Canonical
  loading : s.loading = []

/-- The renaming of the primitives, which keep their ids. -/
def primitiveRenaming : Renaming := ⟨Primitive.all.map Primitive.typeId⟩

theorem primitiveRenaming_matches {b : TypeArena} (hb : b.Canonical) :
    primitiveRenaming.Matches .primitives b := by
  have hprimitive : ∀ p : Primitive, primitiveRenaming.Maps p.typeId p.typeId := by
    intro p
    cases p <;> rfl
  refine ⟨TypeArena.primitives_grounded, hb, rfl, by decide, hprimitive, ?_⟩
  intro x y hxy
  obtain ⟨p, hp, rfl⟩ : ∃ p : Primitive, Primitive.all[x.index]? = some p ∧ y = p.typeId := by
    have hxy : (Primitive.all.map Primitive.typeId)[x.index]? = some y := hxy
    rw [List.getElem?_map] at hxy
    obtain ⟨p, hp, rfl⟩ := Option.map_eq_some_iff.1 hxy
    exact ⟨p, hp, rfl⟩
  refine ⟨.primitive p, .primitive p, ?_, hb.primitive p, .primitive p⟩
  show (Primitive.all.map Shape.primitive)[x.index]? = _
  rw [List.getElem?_map, hp]
  rfl

/-- The past of a settled session, seen from a fresh one. -/
def pastOf (s : Session) : Past := ⟨s.config, s.vars.size, s.reported, []⟩

variable {config : Config} {s : Session}

/-- A session between calls mirrors a new one. -/
theorem Settled.mirrors (h : Settled config s) :
    Mirrors s.pastOf primitiveRenaming { config } s where
  config_left := h.config_eq.symm
  config_right := rfl
  types := primitiveRenaming_matches h.types
  shift_le := Nat.le_refl _
  vars := by
    show List.Forall₂ _ [] (s.vars.vars.drop s.vars.vars.length)
    rw [List.drop_length]
    exact .nil
  loading_left := rfl
  loading_right := h.loading
  reported := (List.append_nil _).symm

theorem canonical_keptByInterning : KeptByInterning TypeArena.Canonical :=
  fun s _ h => h.intern s

theorem conclude_settled {α : Type} (h : Settled config s) (file : SourceFile)
    (found : Except Fault α) : Settled config (conclude file found s).2 := by
  cases found with
  | ok a => exact h
  | error f => exact ⟨h.config_eq, h.types, h.loading⟩

/-- A call leaves the session settled. -/
theorem Settled.run (h : Settled config s) (call : Call) : Settled config (call.run s) := by
  have hloaded : ∀ {v : Renaming} {f t : Session}, Mirrors s.pastOf v f t → Settled config t :=
    fun ht => ⟨ht.config_right.trans h.config_eq, ht.types.right, ht.loading_right⟩
  cases call with
  | compile files path text =>
    obtain ⟨v, -, -, hv⟩ :=
      (mirrored_lawful s.pastOf).compile files [] _ path text text rfl _ _ h.mirrors
    exact hloaded hv
  | parse files path text =>
    obtain ⟨v, -, -, hv⟩ :=
      (mirrored_lawful s.pastOf).parse files [] _ path text text rfl _ _ h.mirrors
    exact hloaded hv
  | validate m =>
    have htypes := keeps_moduleCheck canonical_keptByInterning s.config s.vars m _ h.types
    have hchecked : Settled config { s with types := (m.check s.config s.vars s.types).2 } :=
      ⟨h.config_eq, htypes, h.loading⟩
    show Settled config (Session.validate m s).2
    rw [validate_apply]
    exact conclude_settled hchecked _ _

theorem Settled.after (h : Settled config s) (calls : List Call) :
    Settled config (s.after calls) := by
  induction calls generalizing s with
  | nil => exact h
  | cons call calls ih => exact ih (h.run call)

/-! ## Independence of history -/

/-- **Compilation does not depend on the history of the session.**  After any calls, compiling a
module succeeds exactly if it does in a fresh session with the same switches, and adds the same
diagnostics.  The modules that result are the same, their scopes included, but for their ids: types
that stand at one place have one structure, and variables are shifted by the number of variables
that the session had before. -/
theorem compile_independent_of_history (config : Config) (output : Option String)
    (calls : List Call) (files : FileTree) (path : Path) (text : String) :
    let before := Session.after { config, output } calls
    let here := Session.compile files path text before
    let fresh := Session.compile files path text { config }
    (here.1.isSome = fresh.1.isSome) ∧
      here.2.reported = before.reported ++ fresh.2.reported ∧
      Option.Rel (Module.Rel (TypeArena.SameStructure fresh.2.types here.2.types)
        (fun x y => y.index = x.index + before.vars.size)) fresh.1 here.1 := by
  intro before here fresh
  have hstart : Settled config { config, output } := ⟨rfl, TypeArena.primitives_canonical, rfl⟩
  have hbefore : Settled config before := hstart.after calls
  obtain ⟨v, -, hm, hv⟩ :=
    (mirrored_lawful before.pastOf).compile files [] _ path text text rfl _ _ hbefore.mirrors
  refine ⟨(Link.isSome_eq hm).symm, hv.reported, ?_⟩
  have hids : ∀ x y, v.Maps x y → TypeArena.SameStructure fresh.2.types here.2.types x y := by
    intro x y hxy
    obtain ⟨hx, hy⟩ := hv.types.embeds.holds hxy
    exact ⟨hx, hy, hv.types.alike.unfold_eq hxy⟩
  show Option.Rel _ fresh.1 here.1
  have hm : (mirrored before.pastOf).module.option.rel v fresh.1 here.1 := hm
  generalize fresh.1 = m, here.1 = n at hm ⊢
  cases hm with
  | none => exact .none
  | some hmn => exact .some (Module.Agree.mono hids (fun _ _ h => h) hmn)

end TypedLua.Session
