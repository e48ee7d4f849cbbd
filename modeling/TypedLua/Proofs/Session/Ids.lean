import TypedLua.Proofs.Grammar.Effects
import TypedLua.Proofs.Session.History
import TypedLua.Proofs.Session.Validated
import TypedLua.Proofs.Tree.Externs

/-!
# Session.Ids

Ids stay meaningful.  Every call extends the session, whether it succeeds or fails, so that an id
goes on denoting what it did.  All along the history of a session the ids in the modules that calls
gave back denote, and so do the types of all variables: the values that stand in for what an id does
not denote are never taken.

Main statement: `ids_stay_meaningful`.
-/

namespace TypedLua

open Text

theorem VariableArena.typeOf_of_get? {vars : VariableArena} {id : VariableId} {v : Variable}
    (h : vars.get? id = some v) : vars.typeOf id = v.type := by
  unfold typeOf
  rw [h]
  rfl

namespace Session

/-! ## Sessions that extend others -/

/-- The types and variables of the first session stand at the start of those of the second. -/
structure Extends (s t : Session) : Prop where
  types : s.types.Extends t.types
  vars : s.vars.vars <+: t.vars.vars

theorem extends_validate (m : Module) (s : Session) : s.Extends (validate m s).2 := by
  have hkept : KeptByInterning s.types.Extends :=
    fun shape b h => h.trans (TypeArena.extends_intern b shape)
  have htypes := keeps_moduleCheck hkept s.config s.vars m s.types (.refl _)
  rw [validate_apply]
  dsimp only
  cases (m.check s.config s.vars s.types).1.2 with
  | ok _ | error f => exact ⟨htypes, List.prefix_refl _⟩

/-- The modules that a call gives back. -/
def Call.modules : Call → Session → List Module
  | compile files path text, s => (Session.compile files path text s).1.toList
  | parse files path text, s => (Session.parse files path text s).1.toList
  | validate m, s => [(Session.validate m s).1.2]

section

variable {w v : Arenas} {s t : Session} {ms ns : List Module}

theorem Holds.extends (h : Holds w s ms) (h' : Holds v t ns) (hwv : w ≤ v) : s.Extends t := by
  refine ⟨?_, ?_⟩
  · rw [h.1.types, h'.1.types]
    exact hwv.1
  · rw [h.1.vars, h'.1.vars]
    exact hwv.2.1

theorem Holds.extends_run (h : Holds w s ms) (call : Call) : s.Extends (call.run s) := by
  cases call with
  | compile files path text =>
    obtain ⟨v, hwv, hv⟩ := h.load (sound_lawful.compile files) path text
    exact h.extends hv hwv
  | parse files path text =>
    obtain ⟨v, hwv, hv⟩ := h.load (sound_lawful.parse files) path text
    exact h.extends hv hwv
  | validate m => exact extends_validate m s

/-- A call keeps ids meaningful. -/
theorem Holds.call (h : Holds w s ms) (call : Call) (hown : ∀ m, call = .validate m → m ∈ ms) :
    ∃ v, Holds v (call.run s) (call.modules s ++ ms) := by
  cases call with
  | compile files path text =>
    obtain ⟨v, -, hv⟩ := h.load (sound_lawful.compile files) path text
    exact ⟨v, hv⟩
  | parse files path text =>
    obtain ⟨v, -, hv⟩ := h.load (sound_lawful.parse files) path text
    exact ⟨v, hv⟩
  | validate m => exact h.validate (hown m rfl)

theorem Holds.extend (h : Holds w s ms) (hst : s.Extends t) (hgrounded : t.types.Grounded)
    (hdeclared : ∀ v ∈ t.vars.vars, t.types.Holds v.type) : Holds ⟨t.types, t.vars⟩ t ms := by
  obtain ⟨hs, hms⟩ := h
  refine ⟨⟨⟨hgrounded, fun hv => hdeclared _ hv⟩, rfl, rfl, rfl⟩, fun m hm => ?_⟩
  refine Module.Agree.mono (fun x y hxy => ⟨hxy.1, ?_⟩) (fun x y hxy => ⟨hxy.1, ?_⟩) (hms m hm)
  · have hx : w.types.Holds x := hxy.2
    rw [← hs.types] at hx
    exact hst.types.holds hx
  · have hx : x.index < w.vars.size := hxy.2
    rw [← hs.vars] at hx
    exact Nat.lt_of_lt_of_le hx hst.vars.length_le

theorem Holds.denotesIn_type (h : Holds w s ms) {id : TypeId} (hid : w.types.Holds id) :
    (AnyId.ofType id).DenotesIn s := by
  rw [← h.1.types] at hid
  exact hid.get?

/-- The ids in a module denote. -/
theorem Holds.denotesIn (h : Holds w s ms) {m : Module} (hm : m ∈ ms) :
    ∀ x ∈ m.ids, x.DenotesIn s := by
  refine Module.Agree.forall_ids (fun id _ hid => h.denotesIn_type hid.2) (fun id _ hid => ?_)
    (h.2 m hm)
  have hlt : id.index < s.vars.vars.length := by
    rw [h.1.vars]
    exact hid.2
  exact ⟨_, List.getElem?_eq_getElem hlt⟩

end

/-! ## Histories -/

/-- The session after a history of calls, which gave the modules back; what is checked is one of
these.  Between calls the switches may be changed, and types and variables may be added by other
means, if the types that they refer to exist. -/
inductive History : Session → List Module → Prop
  | fresh (config : Config) (output : Option String) : History { config, output } []
  | extend {s t : Session} {ms : List Module} : History s ms → s.Extends t → t.types.Grounded →
      (∀ v ∈ t.vars.vars, t.types.Holds v.type) → History t ms
  | call {s : Session} {ms : List Module} (call : Call) : History s ms →
      (∀ m, call = .validate m → m ∈ ms) → History (call.run s) (call.modules s ++ ms)

/-- So they do along a history. -/
theorem History.holds {s : Session} {ms : List Module} (h : History s ms) : ∃ w, Holds w s ms := by
  induction h with
  | fresh config output => exact (Reached.fresh config output).holds
  | extend _ hst hgrounded hdeclared ih =>
    obtain ⟨w, h⟩ := ih
    exact ⟨_, h.extend hst hgrounded hdeclared⟩
  | call call _ hown ih =>
    obtain ⟨w, h⟩ := ih
    exact h.call call hown

/-- **Ids stay meaningful for the whole session.**  Every call extends the session, so that an id
goes on denoting the same type or variable.  The types that variables and types refer to exist, and
every id in a module that a call gave back denotes: its variables have their declared types and
names, and no extern is left out of its symbols or of those of a module inside it. -/
theorem ids_stay_meaningful {s : Session} {ms : List Module} (h : History s ms) :
    (∀ call : Call, s.Extends (call.run s) ∧
      (∀ id shape, s.types.get? id = some shape → (call.run s).types.get? id = some shape) ∧
      ∀ id v, s.vars.get? id = some v → (call.run s).vars.get? id = some v) ∧
    (∀ v ∈ s.vars.vars, (AnyId.ofType v.type).DenotesIn s) ∧
    (∀ id shape, s.types.get? id = some shape →
      ∀ part ∈ shape.parts, (AnyId.ofType part).DenotesIn s) ∧
    ∀ m ∈ ms, (∀ x ∈ m.ids, x.DenotesIn s) ∧
      (∀ id, .ofVariable id ∈ m.ids → ∃ v, s.vars.get? id = some v ∧
        s.vars.typeOf id = v.type ∧ s.vars.nameOf id = v.name) ∧
      ∀ n : Module, n.ids ⊆ m.ids →
        (n.externs s.vars).map (fun symbol => (symbol.id, symbol.span)) = n.externPlaces := by
  obtain ⟨w, hw⟩ := h.holds
  refine ⟨fun call => ?_, fun v hv => ?_, fun id shape hid part hpart => ?_, fun m hm => ?_⟩
  · have hcall := hw.extends_run call
    exact ⟨hcall, fun id shape hid => hcall.types.get? hid,
      fun id v hid => VariableArena.get?_of_prefix hcall.vars hid⟩
  · rw [hw.1.vars] at hv
    exact hw.denotesIn_type (hw.1.declared hv)
  · rw [hw.1.types] at hid
    exact hw.denotesIn_type (hw.1.grounded.holds_part hid hpart)
  · have hids := hw.denotesIn hm
    refine ⟨hids, fun id hid => ?_, fun n hn => ?_⟩
    · obtain ⟨v, hv⟩ := hids _ hid
      exact ⟨v, hv, VariableArena.typeOf_of_get? hv, VariableArena.nameOf_of_get? hv⟩
    · exact Module.externs_places fun id hid => hids _ (hn hid)

set_option maxRecDepth 4000 in
/-- A module imports an array of instances of an interface from a module that declares an extern,
and declares another one in a block. -/
theorem ids_stay_meaningful_import :
    let files : FileTree := ⟨"/", [(["lib.lua"], .text "interface Box<T> \x7b value: T \x7d
export type Numbers = Box<number>
export local xs: Numbers[] = \x7b \x7d
extern log(text: string, ...: any): void")]⟩
    let text := "import \x7b xs, Numbers \x7d from \"./lib\"
do
  extern make: (number) => Numbers
  local n, t = xs[1].value, \x7b a = make(1) \x7d
end"
    ∃ m s, parse files ⟨"main.lua"⟩ text {} = (some m, s) ∧ .ofVariable ⟨3⟩ ∈ m.ids ∧
      m.externPlaces.map Prod.fst = [⟨4⟩] ∧ (∀ x ∈ m.ids, x.DenotesIn s) ∧
      (m.externs s.vars).map (fun symbol => (symbol.id, symbol.span)) = m.externPlaces := by
  intro files text
  have hhistory (files : FileTree) (path : Path) (text : String) :
      History (parse files path text {}).2 ((parse files path text {}).1.toList ++ []) :=
    .call (.parse files path text) (.fresh {} (some "")) fun _ h => by cases h
  replace hhistory := hhistory files ⟨"main.lua"⟩ text
  obtain ⟨m, s, hparse, hlog, hmake⟩ : ∃ m s, parse files ⟨"main.lua"⟩ text {} = (some m, s) ∧
      .ofVariable ⟨3⟩ ∈ m.ids ∧ m.externPlaces.map Prod.fst = [⟨4⟩] :=
    exists_of_found (by rw [parse_ofList]; decide +kernel)
  rw [hparse] at hhistory
  obtain ⟨-, -, -, hmodules⟩ := ids_stay_meaningful hhistory
  obtain ⟨hids, -, hexterns⟩ := hmodules m List.mem_cons_self
  exact ⟨m, s, hparse, hlog, hmake, hids, hexterns m (List.Subset.refl _)⟩

end Session

end TypedLua
