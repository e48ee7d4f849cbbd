import TypedLua.Proofs.Grammar.WrittenType

/-!
# Grammar.WrittenTypeReading

Reading annotations.  Where it is known what the next tokens say, and they are the words of a proper
annotation, the readers of types give the type of its structure; the only thing that can go wrong is
that there is no room for it.

Main statement: `readsTypes_typeWithin`.
-/

namespace TypedLua

open Text TypedLua.Parser
open Token (Kind)

/-! ## States that know names -/

/-- The arena is grounded, names stand for what they should, and functions may come without a return
type if they should. -/
structure ParserState.Knows (Γ : WrittenType.Context) (s : ParserState) : Prop where
  grounded : s.session.types.Grounded
  /-- A name is bound to a type of the structure that it stands for. -/
  named : ∀ name tree, Γ.names name = some tree → ∃ id, s.scopes.resolveType name = some id ∧
    s.session.types.Holds id ∧ s.session.types.unfold id = tree
  /-- Whether functions may come without a return type. -/
  untyped : s.session.config.typelessFunctions = Γ.untyped

/-- Reading while names stand for what they should, and types are added. -/
def Course.naming (Γ : WrittenType.Context) : Course where
  Leads s t := s.Knows Γ ∧ t.Knows Γ ∧ s.session.types.Extends t.session.types
  trans h h' := ⟨h.1, h'.2.1, h.2.2.trans h'.2.2⟩
  right h := ⟨h.2.1, h.2.1, .refl _⟩
  next h _ _ := ⟨h.1, ⟨h.1.grounded, h.1.named, h.1.untyped⟩, .refl _⟩
  deepened _ h := ⟨h.1, ⟨h.1.grounded, h.1.named, h.1.untyped⟩, .refl _⟩
  declared _ h := ⟨h.1, ⟨h.1.grounded, h.1.named, h.1.untyped⟩, .refl _⟩

theorem ParserState.Knows.leads {Γ : WrittenType.Context} {s : ParserState} (h : s.Knows Γ) :
    (Course.naming Γ).Leads s s := ⟨h, h, .refl _⟩

namespace Grammar

open Course.Takes WrittenType

variable {Γ : Context} {env : ParserEnv} {s : ParserState} {F : Fault → Prop} {w : Word}
  {ws : List Word}

/-- The type is one of the session and has the structure. -/
def Denotes (tree : TypeTree) (id : TypeId) (s : ParserState) : Prop :=
  s.session.types.Holds id ∧ s.session.types.unfold id = tree

theorem Denotes.leads {tree : TypeTree} {id : TypeId} {t u : ParserState} (h : Denotes tree id t)
    (htu : (Course.naming Γ).Leads t u) : Denotes tree id u := by
  obtain ⟨ht, -, hext⟩ := htu
  refine ⟨hext.holds h.1, ?_⟩
  rw [ht.grounded.unfold_extends hext h.1]
  exact h.2

theorem denotes_primitive (hs : s.session.types.Grounded) (p : Primitive) :
    Denotes (.ofPrimitive p) p.typeId s :=
  ⟨hs.holds_primitive p, hs.unfold_eq (hs.primitive p)⟩

/-- The types are those of the session that have the structures. -/
def DenoteAll (trees : List TypeTree) (ids : List TypeId) (s : ParserState) : Prop :=
  List.Forall₂ (fun tree id => Denotes tree id s) trees ids

namespace DenoteAll

variable {ts : List TypeTree} {ids : List TypeId}

theorem leads {t u : ParserState} (h : DenoteAll ts ids t) (htu : (Course.naming Γ).Leads t u) :
    DenoteAll ts ids u :=
  List.Forall₂.imp (fun _ _ hid => hid.leads htu) h

theorem unfold_eq (h : DenoteAll ts ids s) : ids.map s.session.types.unfold = ts :=
  ((map_eq_map_of_forall₂ h fun _ _ hid => hid.2.symm).symm).trans (List.map_id ts)

theorem holds (h : DenoteAll ts ids s) : ∀ x ∈ ids, s.session.types.Holds x :=
  forall_right h fun _ _ hid => hid.1

theorem hasMisplacedVararg_eq (h : DenoteAll ts ids s) (hs : s.session.types.Grounded)
    (hlast : ∀ t ∈ ts.dropLast, t.isVararg = false) :
    s.session.types.hasMisplacedVararg ids = false := by
  refine List.any_eq_false.2 fun x hx => ?_
  have hmem : s.session.types.unfold x ∈ ts.dropLast := by
    rw [← h.unfold_eq, ← List.map_dropLast]
    exact List.mem_map_of_mem hx
  rw [← hs.isVararg_unfold (h.holds x (List.dropLast_subset ids hx)), hlast _ hmem]
  exact Bool.false_ne_true

theorem stripVoid (h : DenoteAll ts ids s) (hs : s.session.types.Grounded) :
    DenoteAll (TypeTree.stripped ts) (stripVoid ids) s := by
  have hvoid : ∀ {t : TypeTree} {id : TypeId}, Denotes t id s →
      (t.isVoid = true ↔ id = Primitive.void.typeId) := by
    intro t id hid
    constructor
    · intro hisVoid
      obtain ⟨shape, hshape⟩ := hid.1.get?
      rw [← hid.2, hs.unfold_eq hshape] at hisVoid
      cases shape with
      | primitive p =>
        cases p with
        | void => exact hs.eq_of_get? hshape (hs.primitive .void)
        | _ => cases hisVoid
      | _ => cases hisVoid
    · intro heq
      rw [← hid.2, heq, hs.unfold_eq (hs.primitive .void)]
      rfl
  unfold Grammar.stripVoid
  match h with
  | .nil => exact .nil
  | .cons (a := t) (b := id) hid .nil =>
    show DenoteAll (if t.isVoid = true then [] else [t])
      (if [id] = [Primitive.void.typeId] then [] else [id]) s
    by_cases hisVoid : t.isVoid = true
    · rw [if_pos hisVoid, (hvoid hid).1 hisVoid, if_pos rfl]
      exact .nil
    · have hne : [id] ≠ [Primitive.void.typeId] := fun heq =>
        hisVoid ((hvoid hid).2 (List.singleton_inj.1 heq))
      rw [if_neg hisVoid, if_neg hne]
      exact .cons hid .nil
  | .cons hid (.cons hid' hids) =>
    rw [if_neg (by simp)]
    exact .cons hid (.cons hid' hids)

end DenoteAll

/-- A shape is interned as what it denotes. -/
theorem takes_internType {shape : Shape} {tree : TypeTree}
    (hws : s.stream.Ahead ws) (hparts : ∀ x ∈ shape.parts, s.session.types.Holds x)
    (htree : TypeTree.ofShape s.session.types.unfold shape = tree) :
    (Course.naming Γ).Takes F env s (internType shape) ws (Denotes tree) := by
  rintro ⟨hs, -, -⟩
  refine Runs.internType hs.grounded hparts fun id types hintern hgrounded hext => ?_
  have hknows : (s.withTypes types).Knows Γ := by
    refine ⟨hgrounded, fun name tree hname => ?_, hs.untyped⟩
    obtain ⟨x, hx, hholds, hunfold⟩ := hs.named name tree hname
    refine ⟨x, hx, hext.holds hholds, ?_⟩
    show types.unfold x = tree
    rw [hs.grounded.unfold_extends hext hholds]
    exact hunfold
  exact ⟨⟨hs, hknows, hext⟩, hws, TypeArena.holds_of_get? (TypeArena.get?_of_intern hintern),
    (hs.grounded.unfold_intern hparts hintern).trans htree⟩

theorem takes_layer (layer : TypeId → Shape) {id : TypeId} {tree : TypeTree}
    (hws : s.stream.Ahead ws) (hid : Denotes tree id s)
    (hlayer : layer = .array ∨ layer = .vararg) :
    (Course.naming Γ).Takes F env s (internType (layer id)) ws
      (Denotes (.node (layer default) [tree])) := by
  have hparts : (layer id).parts = [id] := by
    rcases hlayer with rfl | rfl <;> rfl
  refine takes_internType hws ?_ ?_
  · intro x hx
    rw [hparts] at hx
    rw [List.mem_singleton.1 hx]
    exact hid.1
  · rw [← hid.2]
    rcases hlayer with rfl | rfl <;> rfl

theorem takes_function {ids rids : List TypeId} {arguments returns : List TypeTree}
    (hws : s.stream.Ahead ws) (hids : DenoteAll arguments ids s)
    (hrids : DenoteAll (TypeTree.stripped returns) rids s) :
    (Course.naming Γ).Takes F env s (internType (.function ids rids)) ws
      (Denotes (functionTree arguments returns)) := by
  refine takes_internType hws ?_ ?_
  · intro x hx
    exact (List.mem_append.1 hx).elim (hids.holds x) (hrids.holds x)
  · show TypeTree.node (.function (ids.map fun _ => default) (rids.map fun _ => default))
      ((ids ++ rids).map s.session.types.unfold) = _
    rw [functionTree, List.map_append, hids.unfold_eq, hrids.unfold_eq,
      map_eq_map_of_forall₂ hids fun _ _ _ => rfl, map_eq_map_of_forall₂ hrids fun _ _ _ => rfl]

/-! ## Lists and functions -/

/-- Constructs are nested too deep in a type. -/
def TooDeep (f : Fault) : Prop := f.cause = .tooDeep nestingLimit "type"

/-- What may follow a type without its array suffixes: no token that would be taken as a part of
it. -/
structure Admits (e : WrittenType) (k : Kind) : Prop where
  less : k ≠ .less
  arrow : k ≠ .arrow
  starts : e.isOpen = true → startsType k = false
  /-- No array suffix follows that would belong to a part. -/
  bracket : e.isBare = true → k ≠ .leftBracket

/-- What may follow any type. -/
def Closes (k : Kind) : Prop :=
  k ≠ .less ∧ k ≠ .arrow ∧ startsType k = false ∧ k ≠ .leftBracket

instance (k : Kind) : Decidable (Closes k) :=
  inferInstanceAs (Decidable (k ≠ .less ∧ k ≠ .arrow ∧ startsType k = false ∧ k ≠ .leftBracket))

theorem Closes.admits {k : Kind} (h : Closes k) (e : WrittenType) :
    Admits e k ∧ k ≠ .leftBracket :=
  ⟨⟨h.1, h.2.1, fun _ => h.2.2.1, fun _ => h.2.2.2⟩, h.2.2.2⟩

/-- The reader takes the words of proper annotations, and gives what they stand for. -/
def ReadsTypes {α : Type} (Γ : Context) (F : Fault → Prop) (env : ParserEnv) (type : Parser α)
    (result : TypeId → α) : Prop :=
  ∀ e : WrittenType, Proper Γ e → ∀ (s : ParserState) w ws, Admits e w.1 →
    w.1 ≠ .leftBracket → s.stream.Ahead (e.spelling ++ w :: ws) →
    (Course.naming Γ).Takes F env s type (w :: ws) fun a t =>
      ∃ id, a = result id ∧ Denotes (e.tree Γ) id t

section

variable {type : Parser TypeId} {es : List WrittenType} (htype : ReadsTypes Γ F env type id)

include htype

theorem ReadsTypes.takes {e : WrittenType} (he : Proper Γ e) (hw : Admits e w.1)
    (hne : w.1 ≠ .leftBracket) (h : s.stream.Ahead (e.spelling ++ w :: ws)) :
    (Course.naming Γ).Takes F env s type (w :: ws) (Denotes (e.tree Γ)) := by
  refine (htype e he s w ws hw hne h).imp fun x t _ hx => ?_
  obtain ⟨id, rfl, hid⟩ := hx
  exact hid

theorem ReadsTypes.spells (hes : ∀ e ∈ es, Proper Γ e) :
    (Course.naming Γ).Spells F env type spelling es Closes fun e => Denotes (e.tree Γ) := by
  intro e he s w ws hw h
  exact htype.takes (hes e he) (hw.admits e).1 (hw.admits e).2 h

theorem takes_typeListOf (hes : ∀ e ∈ es, Proper Γ e) (hlast : VarargLast Γ es) (hnil : es ≠ [])
    (hw : Closes w.1) (hne : w.1 ≠ .comma)
    (h : s.stream.Ahead (commas (es.map spelling) ++ w :: ws)) :
    (Course.naming Γ).Takes F env s (typeListOf type) (w :: ws) fun ids t =>
      DenoteAll (es.map (tree Γ)) ids t := by
  unfold typeListOf
  refine currentSpan_bind ?_
  have hlist := commaList (htype.spells hes) (fun _ _ _ _ htu h => h.leads htu) (by decide) hnil
    hw hne h
  refine Course.Takes.bind hlist fun ids t hst ht hids => ?_
  have hall : DenoteAll (es.map (tree Γ)) ids t := List.forall₂_map_left_iff.2 hids
  refine spanFrom_bind fun span => ?_
  have hcheck : (Course.naming Γ).Takes F env t (checkVarargs ids span) (w :: ws)
      fun _ u => u = t := by
    refine gets_bind ?_
    unfold varargLast
    rw [hall.hasMisplacedVararg_eq hst.2.1.grounded hlast]
    exact Course.Takes.pure ht rfl
  refine Course.Takes.bind hcheck fun _ u htu hu heq => ?_
  obtain rfl := heq
  exact .pure hu hall

theorem takes_groupOf (hes : ∀ e ∈ es, Proper Γ e) (hlast : VarargLast Γ es)
    (hws : ws ≠ []) (h : s.stream.Ahead (groupWords (es.map spelling) ++ ws)) :
    (Course.naming Γ).Takes F env s (groupOf type) ws fun ids t =>
      DenoteAll (es.map (tree Γ)) ids t := by
  have hclose : ∀ ids (t : ParserState), t.stream.Ahead (Kind.rightParen.word :: ws) →
      DenoteAll (es.map (tree Γ)) ids t →
      (Course.naming Γ).Takes F env t (Parser.expect .rightParen >>= fun _ => Pure.pure ids) ws
        fun ids u => DenoteAll (es.map (tree Γ)) ids u := by
    intro ids t hahead hids
    refine (expect hahead rfl hws rfl).bind fun _ u htu hu _ => ?_
    exact .pure hu (hids.leads htu)
  rw [groupWords, List.cons_append, List.append_assoc] at h
  unfold groupOf
  refine (expect h rfl (by simp) rfl).bind fun _ t hst ht _ => ?_
  cases es with
  | nil => exact check_bind ht rfl (hclose [] t ht .nil)
  | cons e es =>
    -- the first type does not start with the closing parenthesis
    obtain ⟨v, vs, hspelling, hstarts, -⟩ := exists_spelling e
    have hv : v.1 ≠ .rightParen := by
      intro hparen
      rw [hparen] at hstarts
      cases hstarts
    have hhead := ht
    rw [List.map_cons, hspelling] at hhead
    refine check_ne_bind hhead hv ?_
    have hlist := takes_typeListOf htype hes hlast (List.cons_ne_nil e es) (by decide)
      (by decide) ht
    exact Course.Takes.bind hlist fun ids u htu hu hids => hclose ids u hu hids

/-- A function is read as it is written. -/
theorem takes_functionFrom (k : Nat) (start : Span) {arguments : List WrittenType}
    {returns : Returns WrittenType} {ids : List TypeId}
    (hproper : Proper Γ (.function arguments returns))
    (hids : DenoteAll (arguments.map (tree Γ)) ids s)
    (hw : Admits (.function arguments returns) w.1) (hk : (returnSpelling returns).length < k)
    (h : s.stream.Ahead (returnSpelling returns ++ w :: ws)) :
    (Course.naming Γ).Takes F env s (functionFrom type k start ids) (w :: ws)
      (Denotes ((WrittenType.function arguments returns).tree Γ)) := by
  induction k generalizing s start arguments returns ids with
  | zero => cases hk
  | succ k ih =>
    obtain ⟨hreturns, hlast, hclear⟩ : (∀ e ∈ returns.types, Proper Γ e) ∧
        VarargLast Γ returns.types ∧ returns.Clear Γ := by
      cases hproper with
      | function _ _ hreturns hlast hclear => exact ⟨hreturns, hlast, hclear⟩
    have hfinish : ∀ {t : ParserState} {rids : List TypeId}, (Course.naming Γ).Leads s t →
        t.stream.Ahead (w :: ws) → DenoteAll (TypeTree.stripped (returnTrees Γ returns)) rids t →
        (Course.naming Γ).Takes F env t (internType (.function ids rids)) (w :: ws)
          (Denotes ((WrittenType.function arguments returns).tree Γ)) := by
      intro t rids hst ht hrids
      rw [tree, trees_eq_map]
      exact takes_function ht (hids.leads hst) hrids
    have trans := @(Course.naming Γ).trans
    unfold functionFrom
    cases returns with
    | untyped =>
      refine within fun hs => (eat_ne h hw.arrow).bind fun found t hst ht hfound => ?_
      obtain ⟨rfl, rfl⟩ := hfound
      refine spanFrom_bind fun span => ?_
      have hany : (Course.naming Γ).Takes F env t (typelessReturns span) (w :: ws)
          fun rids u => rids = [.any] ∧ u = t := by
        have hallowed : t.session.config.typelessFunctions = true := hs.1.untyped.trans hclear
        refine gets_bind ?_
        rw [if_pos hallowed]
        exact Course.Takes.pure ht ⟨rfl, rfl⟩
      refine hany.bind fun rids u htu hu hrids => ?_
      obtain ⟨rfl, rfl⟩ := hrids
      exact hfinish htu hu (.cons (denotes_primitive hs.1.grounded .any) .nil)
    | group es =>
      have hgroup : s.stream.Ahead
          (Kind.arrow.word :: (groupWords (es.map spelling) ++ w :: ws)) := by
        rw [returnSpelling, spellings_eq_map] at h
        exact h
      refine (eat hgroup rfl (by simp) rfl).bind fun found t hst ht hfound => ?_
      obtain rfl := hfound
      refine check_bind ht rfl ?_
      refine currentSpan_bind ?_
      refine Course.Takes.bind (takes_groupOf htype hreturns hlast (by simp) ht) ?_
      intro rids u htu hu hrids
      refine check_ne_bind hu hw.arrow ?_
      refine hfinish (trans hst htu) hu ?_
      rw [returnTrees, trees_eq_map]
      exact hrids.stripVoid htu.2.1.grounded
    | type e =>
      have he : Proper Γ e := hreturns e List.mem_cons_self
      have hnext : s.stream.Ahead (Kind.arrow.word :: (e.spelling ++ w :: ws)) := h
      refine (eat hnext rfl (by simp) rfl).bind fun found t hst ht hfound => ?_
      obtain rfl := hfound
      obtain ⟨v, vs, hspelling, -, hparen⟩ := exists_spelling e
      have hhead := ht
      rw [hspelling] at hhead
      cases hstarts : e.startsGroup with
      | false =>
        have hv : v.1 ≠ .leftParen := by
          intro heq
          rw [heq, hstarts] at hparen
          cases hparen
        refine check_ne_bind hhead hv ?_
        -- an array suffix would be one of the type that is returned
        have hbare : (WrittenType.function arguments (.type e)).isBare = true := by
          rw [isBare]
          cases e with
          | function => cases hstarts
          | _ => rfl
        have hadmits : Admits e w.1 := ⟨hw.less, hw.arrow, hw.starts, fun _ => hw.bracket hbare⟩
        refine Course.Takes.bind (htype.takes he hadmits (hw.bracket hbare) ht) ?_
        intro id u htu hu hid
        refine hfinish (trans hst htu) hu ?_
        exact DenoteAll.stripVoid (.cons hid .nil) htu.2.1.grounded
      | true =>
        have hfunction : e.isFunction = true := hclear hstarts
        cases e with
        | function arguments' returns' =>
          obtain ⟨hes, hesLast⟩ : (∀ e ∈ arguments', Proper Γ e) ∧ VarargLast Γ arguments' := by
            cases he with
            | function hes hesLast => exact ⟨hes, hesLast⟩
          obtain ⟨vs', hvs'⟩ : ∃ vs', returnSpelling returns' = Kind.arrow.word :: vs' := by
            cases returns' with
            | untyped => cases hfunction
            | type e | group es => exact ⟨_, rfl⟩
          rw [spelling_function, List.append_assoc] at ht
          refine check_bind ht rfl ?_
          refine currentSpan_bind ?_
          refine Course.Takes.bind (takes_groupOf htype hes hesLast (by simp) ht) ?_
          intro ids' u htu hu hids'
          have harrow := hu
          rw [hvs'] at harrow
          refine check_bind harrow rfl ?_
          have hadmits : Admits (.function arguments' returns') w.1 := by
            refine ⟨hw.less, hw.arrow, hw.starts, fun hbare => hw.bracket ?_⟩
            rw [isBare, hbare]
            exact Bool.or_true _
          have hlength : (returnSpelling returns').length < k := by
            rw [returnSpelling, spelling_function, groupWords] at hk
            simp only [List.length_cons, List.length_append] at hk
            omega
          refine Course.Takes.bind (ih _ he hids' hadmits hlength hu) ?_
          intro returned v huv hv hreturned
          exact hfinish (trans (trans hst htu) huv) hv (.cons hreturned .nil)
        | _ => cases hfunction

/-! ## Names and tables -/

omit htype in
theorem takes_namedTypeOf {name : String} {tree : TypeTree} (hname : Γ.names name = some tree)
    (hw : w.1 ≠ .less) (h : s.stream.Ahead ((.identifier, name) :: w :: ws)) :
    (Course.naming Γ).Takes F env s (namedTypeOf type) (w :: ws) (Denotes tree) := by
  unfold namedTypeOf
  refine currentSpan_bind ?_
  refine (identifier h (by simp)).bind fun x t hst ht hx => ?_
  refine gets_bind ?_
  obtain ⟨id, hid, hdenotes⟩ := hst.2.1.named name tree hname
  rw [hx, hid]
  refine Course.Takes.bind (eat_ne ht hw) fun found u htu hu hfound => ?_
  obtain ⟨rfl, rfl⟩ := hfound
  exact .pure hu hdenotes

/-- A property that is read is the one that is written. -/
def DenotesMember (Γ : Context) (f : Member WrittenType) (p : Property) (s : ParserState) : Prop :=
  p.name = f.name ∧ p.optional = f.optional ∧ Denotes (f.type.tree Γ) p.type s

theorem spells_propertyOf {members : List (Member WrittenType)}
    (hmembers : ∀ f ∈ members, Proper Γ f.type) :
    (Course.naming Γ).Spells F env (propertyOf type) memberSpelling members Closes
      (DenotesMember Γ) := by
  intro f hf s w ws hw h
  unfold propertyOf
  refine (identifier h (by simp)).bind fun x t hst ht hx => ?_
  have hoptional : (Course.naming Γ).Takes F env t (Parser.eat .question)
      (Kind.colon.word :: (f.type.spelling ++ w :: ws)) fun found _ => found = f.optional := by
    cases hmark : f.optional with
    | false =>
      rw [hmark] at ht
      exact (eat_ne ht (by decide)).imp fun _ _ _ hfound => hfound.1
    | true =>
      rw [hmark] at ht
      exact eat ht rfl (by simp) rfl
  refine hoptional.bind fun optional u htu hu hfound => ?_
  refine (expect hu rfl (by simp) rfl).bind fun _ v huv hv _ => ?_
  obtain ⟨hadmits, hne⟩ := hw.admits f.type
  refine (htype.takes (hmembers f hf) hadmits hne hv).bind fun id y hvy hy hid => ?_
  exact .pure hy ⟨hx, hfound, hid⟩

/-- So is a table. -/
theorem takes_tableTypeOf {members : List (Member WrittenType)} {closed : Bool}
    (hmembers : ∀ f ∈ members, Proper Γ f.type)
    (h : s.stream.Ahead ((WrittenType.table members closed).spelling ++ w :: ws)) :
    (Course.naming Γ).Takes F env s (tableTypeOf type) (w :: ws)
      (Denotes ((WrittenType.table members closed).tree Γ)) := by
  rw [spelling_table, List.cons_append, List.append_assoc] at h
  have hleads : ∀ f p t u, (Course.naming Γ).Leads t u → DenotesMember Γ f p t →
      DenotesMember Γ f p u := fun _ _ _ _ htu hp => ⟨hp.1, hp.2.1, hp.2.2.leads htu⟩
  have hfollows : ∀ k : Kind, k.Separates ∨ k = .rightBrace → Closes k := by
    rintro k ((rfl | rfl) | rfl) <;> decide
  unfold tableTypeOf
  refine (expect h rfl (by simp) rfl).bind fun _ t hst ht _ => ?_
  refine (braceTail (spells_propertyOf htype hmembers) hleads Member.separates hfollows
    (fun f _ => ⟨_, _, rfl, Kind.noConfusion⟩) (by simp) ht).bind ?_
  intro ps u htu hu hps
  refine takes_internType hu ?_ ?_
  · intro x hx
    obtain ⟨p, hp, rfl⟩ := List.mem_map.1 hx
    exact forall_right hps (fun _ _ hp => hp.2.2.1) p hp
  · have hnames : members.map (fun f => (⟨f.name, default, f.optional⟩ : Property)) =
        ps.map fun p => { p with type := default } :=
      map_eq_map_of_forall₂ hps fun f p hp => by rw [← hp.1, ← hp.2.1]
    have htypes : members.map (fun f => f.type.tree Γ) =
        ps.map fun p => u.session.types.unfold p.type :=
      map_eq_map_of_forall₂ hps fun f p hp => hp.2.2.2.symm
    rw [WrittenType.tree, memberTrees_eq_map, hnames, htypes]
    show TypeTree.node _ ((ps.map (·.type)).map u.session.types.unfold) = _
    rw [List.map_map]
    rfl

end

/-! ## Types with a given room -/

section

variable {type? : Parser (Option TypeId)} (htype : ReadsTypes Γ F env type? some)

include htype

theorem readsTypes_required : ReadsTypes Γ F env (required type?) id := by
  intro e he s w ws hw hne h
  refine (htype e he s w ws hw hne h).bind fun found t hst ht hfound => ?_
  obtain ⟨id, rfl, hid⟩ := hfound
  exact .pure ht ⟨id, rfl, hid⟩

theorem takes_baseTypeOf (hnone : ∀ (s : ParserState) w ws, s.stream.Ahead (w :: ws) →
      startsType w.1 = false →
      (Course.naming Γ).Takes F env s type? (w :: ws) fun found _ => found = none)
    {e : WrittenType} (he : Proper Γ e) (harray : e.isArray = false)
    (hw : Admits e w.1) (h : s.stream.Ahead (e.spelling ++ w :: ws)) :
    (Course.naming Γ).Takes F env s (baseTypeOf type?) (w :: ws) (Denotes (e.tree Γ)) := by
  have hrequired := readsTypes_required htype
  unfold baseTypeOf
  cases he with
  | @named name tree hname =>
    refine currentKind_bind h ?_
    rw [WrittenType.tree, hname]
    exact takes_namedTypeOf hname hw.less h
  | nil =>
    refine currentKind_bind h ?_
    refine Course.Takes.bind (advance h (by simp) rfl) fun _ t hst ht _ => ?_
    exact .pure ht (denotes_primitive hst.2.1.grounded .nil)
  | array => cases harray
  | @vararg element helement =>
    refine currentKind_bind h ?_
    refine Course.Takes.bind (advance h (by simp) rfl) fun _ t hst ht _ => ?_
    have hne : w.1 ≠ .leftBracket := hw.bracket rfl
    have hadmits : Admits element w.1 := ⟨hw.less, hw.arrow, hw.starts, fun _ => hne⟩
    refine (htype element helement t w ws hadmits hne ht).bind ?_
    intro found u htu hu hfound
    obtain ⟨id, rfl, hid⟩ := hfound
    exact takes_layer .vararg hu hid (.inr rfl)
  | ellipsis =>
    refine currentKind_bind h ?_
    refine Course.Takes.bind (advance h (by simp) rfl) fun _ t hst ht _ => ?_
    refine (hnone t w ws ht (hw.starts rfl)).bind fun found u htu hu hfound => ?_
    obtain rfl := hfound
    exact takes_layer .vararg hu (denotes_primitive htu.2.1.grounded .any)
      (.inr rfl)
  | table hmembers =>
    refine currentKind_bind h ?_
    exact takes_tableTypeOf hrequired hmembers h
  | @function arguments returns harguments hlast hreturns hlast' hclear =>
    have hproper := Proper.function harguments hlast hreturns hlast' hclear
    rw [spelling_function, List.append_assoc] at h
    refine currentKind_bind h ?_
    unfold functionTypeOf
    refine currentSpan_bind ?_
    refine Course.Takes.bind (takes_groupOf hrequired harguments hlast (by simp) h) ?_
    intro ids t hst ht hids
    refine gets_bind ?_
    refine takes_functionFrom hrequired _ _ hproper hids hw ?_ ht
    have hahead := ht.length_le
    simp only [List.length_cons, List.length_append] at hahead ⊢
    omega

end

theorem takes_atArraySuffix (k : Nat) (hw : w.1 ≠ .leftBracket)
    (h : s.stream.Ahead (suffixes k ++ w :: ws)) :
    (Course.naming Γ).Takes F env s atArraySuffix (suffixes k ++ w :: ws) fun found t =>
      found = (k != 0) ∧ t = s := by
  unfold atArraySuffix
  cases k with
  | zero => exact check_ne_bind h hw (.pure h ⟨rfl, rfl⟩)
  | succ k =>
    refine check_bind h rfl ?_
    refine Course.Takes.bind (peekKind h (by decide)) fun kind t hst ht hkind => ?_
    obtain ⟨rfl, rfl⟩ := hkind
    exact .pure ht ⟨rfl, rfl⟩

/-- All suffixes of an array are read. -/
theorem takes_arraySuffixes (room k : Nat) {id : TypeId} {tree : TypeTree}
    (hid : Denotes tree id s) (hw : w.1 ≠ .leftBracket)
    (h : s.stream.Ahead (suffixes k ++ w :: ws)) :
    (Course.naming Γ).Takes TooDeep env s (arraySuffixes room id) (w :: ws)
      (Denotes (arrayTree k tree)) := by
  induction room generalizing s k id tree with
  | zero =>
    unfold arraySuffixes
    refine (takes_atArraySuffix k hw h).bind fun found t hst ht hfound => ?_
    obtain ⟨rfl, rfl⟩ := hfound
    cases k with
    | zero => exact .pure ht hid
    | succ k => exact tooDeep _ fun _ => rfl
  | succ room ih =>
    unfold arraySuffixes
    refine (takes_atArraySuffix k hw h).bind fun found t hst ht hfound => ?_
    obtain ⟨rfl, rfl⟩ := hfound
    cases k with
    | zero => exact .pure ht hid
    | succ k =>
      refine (deepen _ (fun _ => rfl) ht).bind fun _ u htu hu _ => ?_
      refine (advance hu (by simp) rfl).bind fun _ v huv hv _ => ?_
      refine (advance hv (by simp) rfl).bind fun _ x hvx hx _ => ?_
      have hkept := ((hid.leads htu).leads huv).leads hvx
      refine (takes_layer .array hx hkept (.inl rfl)).bind ?_
      exact fun id' y hxy hy hid' => ih k hid' hy

/-- By induction on how deep types may still be nested. -/
theorem readsTypes_tryTypeWithin (room : Nat) :
    ReadsTypes Γ TooDeep env (tryTypeWithin room) some := by
  induction room with
  | zero =>
    intro e he s w ws hw hne h
    obtain ⟨v, vs, hspelling, hstarts, -⟩ := exists_spelling e
    rw [hspelling] at h
    unfold tryTypeWithin
    refine currentKind_bind h ?_
    rw [if_pos hstarts]
    exact tooDeep _ fun _ => rfl
  | succ room ih =>
    intro e he s w ws hw hne h
    obtain ⟨v, vs, hspelling, hstarts, -⟩ := exists_spelling e
    have hhead := h
    rw [hspelling] at hhead
    unfold tryTypeWithin
    refine currentKind_bind hhead ?_
    rw [if_pos hstarts]
    refine nested _ (fun _ => rfl) hhead (fun _ _ _ h => h) ?_
    obtain ⟨k, base, rfl, harray⟩ := exists_arrays e
    obtain ⟨hbase, hsuffix⟩ := he.of_arrays k
    rw [spelling_arrays, List.append_assoc] at h
    -- what follows the base is an array suffix, or what follows the type
    obtain ⟨w', ws', hrest, hw'⟩ : ∃ w' ws', suffixes k ++ w :: ws = w' :: ws' ∧
        Admits base w'.1 := by
      cases k with
      | zero => exact ⟨w, ws, rfl, hw⟩
      | succ k =>
        refine ⟨_, _, rfl, by decide, by decide, fun _ => rfl, fun hbare => ?_⟩
        rw [hsuffix (Nat.succ_ne_zero k)] at hbare
        cases hbare
    have hnone : ∀ (s : ParserState) w ws, s.stream.Ahead (w :: ws) →
        startsType w.1 = false →
        (Course.naming Γ).Takes TooDeep env s (tryTypeWithin room) (w :: ws)
          fun found _ => found = none := by
      intro s w ws h hw
      cases room <;>
      · unfold tryTypeWithin
        refine currentKind_bind h ?_
        rw [if_neg (by rw [hw]; exact Bool.false_ne_true)]
        exact .pure h rfl
    rw [hrest] at h
    refine (takes_baseTypeOf (s := { s with depth := s.depth + 1 }) ih hnone hbase harray hw'
      h).bind fun id t _ ht hid => ?_
    rw [← hrest] at ht
    refine (chain (fun _ _ _ h => h)
      (takes_arraySuffixes room k hid hne ht)).bind fun id' u htu hu hid' => ?_
    rw [tree_arrays]
    exact .pure hu ⟨id', rfl, hid'⟩

/-- **A type is read as what is written denotes**, or it is too deep. -/
theorem readsTypes_typeWithin (room : Nat) : ReadsTypes Γ TooDeep env (typeWithin room) id :=
  readsTypes_required (readsTypes_tryTypeWithin room)

end Grammar

end TypedLua
