import TypedLua.Proofs.Grammar.Consumes
import TypedLua.Proofs.Grammar.Spanning

/-!
# Grammar.Derivation

What is read takes tokens that go with it.  The tokens of a type can be derived from the rules, and
expressions, statements and blocks occupy the tokens that are taken for them, each at the place from
its first token to its last one; the readers do so by induction on the room that is left.

Main statement: `Consumes.module`, a module occupies the tokens of its text.
-/

namespace TypedLua

open Text TypedLua.Parser
open Token (Kind Stream)
open Rules (Form Derives accepted)
open Rules.Form (Writes)

namespace Consumes

variable {source : String} {env : ParserEnv} {s t : ParserState}

/-! ## Types -/

section

variable {type : Parser TypeId} (h : ∀ s, Obeys source env s type (.rule .type))

include h

theorem typeListOf : Obeys source env s (Grammar.typeListOf type) (.rule .typeList) := by
  refine skip fun start t _ => ?_
  exact (rule (listOf h)).andThen

theorem groupOf : Obeys source env s (Grammar.groupOf type)
    (.all [.word .leftParen, .opt (.rule .typeList), .word .rightParen]) := by
  refine seq (word rfl) fun _ t _ => skip fun closing u _ => ?_
  cases closing with
  | true =>
    have hnone : (Form.opt (.rule .typeList)).Writes [] := .absent
    exact (word rfl).andThen.imp fun _ _ hts => hnone.seq hts
  | false =>
    refine seq ((typeListOf h).imp fun _ _ hts => .present hts) fun _ _ _ => ?_
    exact (word rfl).andThen

theorem propertyOf : Obeys source env s (Grammar.propertyOf type) (.rule .property) := by
  refine rule (seq name fun _ t _ => ?_)
  refine seq (eat rfl) fun _ u _ => ?_
  exact seq (word rfl) fun _ v _ => (h v).andThen

theorem namedTypeOf : Obeys source env s (Grammar.namedTypeOf type) (.rule .base) := by
  refine rule (oneOf 0 rfl ?_)
  refine skip fun start t _ => ?_
  refine seq name fun x u _ => ?_
  refine skip fun scopes v _ => ?_
  split
  · exact fail _ _
  · refine eat_opt rfl (fun w _ => ?_) .pure
    refine seq (typeListOf h) fun arguments _ _ => ?_
    refine thenQuiet (word rfl) fun _ => ?_
    refine .andThen fun span => .andThen fun types => ?_
    rcases types.get? _ with _ | ⟨_ | _ | _ | _ | _ | _ | ⟨_, _ | _, _⟩⟩ <;> infer_instance

theorem functionFrom (n : Nat) (start : Span) (arguments : List TypeId) :
    Obeys source env s (Grammar.functionFrom type n start arguments) (.opt (.rule .returns)) := by
  induction n generalizing s start arguments with
  | zero => exact quiet_opt .seq
  | succ n ih =>
    refine imp ?_ fun _ _ => Derives.opt_imp fun _ => Derives.rule
    refine eat_opt rfl (fun t _ => ?_) .seq
    refine skip fun opening u _ => ?_
    cases opening with
    | false => exact ((h u).andThen).imp fun _ _ hks => .left hks
    | true =>
      -- a group is a function type of its own, with the arrow after it if there is one
      refine imp ?_ fun _ _ hks => .left (Derives.type_of_group hks)
      refine skip fun groupStart v _ => ?_
      refine seq (groupOf h) fun ids w _ => skip fun arrow x _ => ?_
      cases arrow with
      | true => exact (ih groupStart ids).andThen
      | false => exact quiet_opt .seq

theorem functionTypeOf : Obeys source env s (Grammar.functionTypeOf type) (.rule .base) := by
  refine imp ?_ fun _ _ => Derives.base_of_group
  refine skip fun start t _ => seq (groupOf h) fun ids u _ => ?_
  exact skip fun n v _ => functionFrom h n start ids

end

section

variable {type? : Parser (Option TypeId)}
  (h : ∀ s, Consumes source env s type? fun found =>
    (if found.isSome then Form.rule .type else .empty).Writes)

include h

theorem required : Obeys source env s (Grammar.required type?) (.rule .type) := by
  refine bind (h s) fun found t ts _ _ hts => ?_
  cases found with
  | none => exact unexpected _
  | some id =>
    refine pure ?_
    rwa [List.append_nil]

theorem baseTypeOf : Obeys source env s (Grammar.baseTypeOf type?) (.rule .base) := by
  -- the numbers are those of the forms in the rule
  have htype : ∀ s, Obeys source env s (Grammar.required type?) (.rule .type) := fun _ => required h
  refine currentKind_bind ?_
  split
  · exact namedTypeOf htype
  · next hkind => exact rule (oneOf 1 rfl ((current hkind rfl).andThen))
  · refine rule (oneOf 2 rfl (seq (word rfl) fun _ t _ => ?_))
    exact (braces fun _ => propertyOf htype).andThen
  · exact functionTypeOf htype
  · next hkind =>
    refine rule (oneOf 4 rfl (seq (current hkind rfl) fun _ t _ => ?_))
    refine andThen ((h t).imp fun found ks hks => ?_)
    cases found with
    | some id => exact .present hks
    | none => exact .opt_of_alt (.right hks)
  · exact unexpected _

end

theorem arraySuffixes (room : Nat) (id : TypeId) :
    Obeys source env s (Grammar.arraySuffixes room id)
    (.many (.seq (.word .leftBracket) (.word .rightBracket))) := by
  induction room generalizing s id with
  | zero =>
    refine skip fun found t _ => ?_
    cases found with
    | true => exact tooDeep _
    | false => exact pure .nil
  | succ room ih =>
    refine bind (quietly inferInstance) fun found t ts hrun _ hts => ?_
    subst hts
    obtain ⟨rfl, hfound⟩ := ((Course.Spanned.atArraySuffix (C := .free) .intro).ok hrun).2
    cases found with
    | false => exact pure .nil
    | true =>
      obtain ⟨hopen, hclose⟩ := hfound rfl
      refine imp ?_ fun _ _ hks => Derives.many_of_opt (.present hks)
      refine skip fun _ u hu => ?_
      refine seq (current (hu ▸ hopen) rfl) fun _ v hv => ?_
      -- the second token was looked at before the first one was taken
      have hstream : v.stream = t.next.stream := by
        obtain rfl : u.next = v := congrArg Prod.snd hv
        show u.stream.next.2 = t.stream.next.2
        rw [hu]
      refine seq (current (hstream ▸ hclose) rfl) fun _ w _ => ?_
      exact skip fun id' x _ => ih id'

theorem tryTypeWithin (room : Nat) : Consumes source env s (Grammar.tryTypeWithin room) fun found =>
    (if found.isSome then Form.rule .type else .empty).Writes := by
  induction room generalizing s with
  | zero =>
    refine currentKind_bind ?_
    split
    · exact tooDeep _
    · exact pure .empty
  | succ room ih =>
    refine currentKind_bind ?_
    split
    · refine nested _ fun t => ?_
      refine bind (baseTypeOf fun _ => ih) fun base u ts _ _ hts => ?_
      refine bind (chain (arraySuffixes room base)) fun id v us _ _ hus => pure ?_
      rw [List.append_nil]
      exact .rule (hts.seq hus)
    · exact pure .empty

/-- What is read as a type is one. -/
theorem typeWithin (room : Nat) : Obeys source env s (Grammar.typeWithin room) (.rule .type) :=
  required fun _ => tryTypeWithin room

/-! ## Expressions -/

/-- The expression occupies the tokens, each part at the place from its first token to its last
one. -/
theorem resolve (name : String) (span : Span) : Consumes source env s (Grammar.resolve name span)
    fun e ts => ts = [] ∧ e.word? = some .identifier ∧ e.isPrimary = true ∧ e.span = span := by
  refine skip fun scopes t _ => ?_
  split
  · exact skip fun _ _ _ => pure ⟨rfl, rfl, rfl, rfl⟩
  · split
    · exact pure ⟨rfl, rfl, rfl, rfl⟩
    · exact fail _ _

section

variable {expr : Parser Expr} (h : ∀ s, Consumes source env s expr (Expr.Occupies source))

include h

/-- An operand occupies its tokens. -/
theorem operandOf : Consumes source env s (Grammar.operandOf expr) fun e ts =>
    e.Occupies source ts ∧ e.isPrimary = true := by
  refine within fun hs => currentKind_bind ?_
  split
  · next hkind =>
    refine currentSpan_bind (bind (advance hkind rfl) ?_)
    rintro _ t _ - hst rfl
    refine bind (h t) fun inner u us _ htu hinner => bind (expect rfl) ?_
    rintro _ v _ - huv ⟨rfl, rfl, hclose⟩
    refine spanFrom_bind (pure ⟨?_, rfl⟩)
    exact .mk ((hst.trans (htu.trans huv)).spans hs) (.group hkind hinner hclose)
  · refine bind identifier ?_
    rintro _ t _ - hst ⟨rfl, rfl, hkind⟩
    refine (resolve _ _).imp ?_
    rintro e _ ⟨rfl, hword, hprimary, hspan⟩
    exact ⟨.mk (hspan ▸ hs.covers) (.word (hword.trans (congrArg some hkind.symm))), hprimary⟩
  · exact unexpected _

theorem argumentsOf : Consumes source env s (Grammar.argumentsOf expr) fun es ts =>
    ∃ us token, ts = us ++ [token] ∧ token.kind = .rightParen ∧
      (es = [] ∧ us = [] ∨ Listed [.comma] false (Expr.Occupies source) es us) := by
  refine skip fun closing t _ => ?_
  cases closing with
  | true =>
    refine bind (pure (K := fun es ts => es = [] ∧ ts = []) ⟨rfl, rfl⟩) ?_
    rintro _ u _ - - ⟨rfl, rfl⟩
    refine bind (expect rfl) ?_
    rintro _ u _ - - ⟨rfl, rfl, hkind⟩
    exact pure ⟨[], _, rfl, hkind, .inl ⟨rfl, rfl⟩⟩
  | false =>
    refine bind (commaList h) fun es u us _ _ hes => bind (expect rfl) ?_
    rintro _ v _ - - ⟨rfl, rfl, hkind⟩
    exact pure ⟨us, _, rfl, hkind, .inr hes⟩

/-- A suffix follows the tokens of what it is a suffix of. -/
theorem suffixOf {start : ParserState} {e : Expr} {ts : List Token}
    (hstart : start.stream.Of source) (hpasses : start.Passes ts s) (he : e.Occupies source ts)
    (hprimary : e.isPrimary = true) :
    Consumes source env s (Grammar.suffixOf expr e start.stream.current.span) fun e' us =>
      e'.Occupies source (ts ++ us) ∧ e'.isPrimary = true := by
  have hcovers : ∀ {t us}, s.Passes us t →
      (Span.mk start.stream.current.span.start t.lastEnd).Covers source (ts ++ us) :=
    fun hst => (hpasses.trans hst).covers hstart (List.append_ne_nil_of_left_ne_nil he.place.ne_nil _)
  refine currentKind_bind ?_
  split
  · next hkind =>
    refine bind (advance hkind rfl) ?_
    rintro _ t _ - hst rfl
    refine bind (argumentsOf h) ?_
    rintro es u _ - htu ⟨us, token, rfl, hclose, hes⟩
    refine spanFrom_bind (pure ⟨?_, rfl⟩)
    have hspan := hcovers (hst.trans htu)
    rw [List.append_nil]
    rcases hes with ⟨rfl, rfl⟩ | hes
    · exact .mk hspan (.callEmpty hprimary he hkind hclose)
    · exact .mk hspan (.call hprimary he hkind hes hclose)
  · next hkind =>
    refine within fun hs => bind (take hkind rfl) ?_
    rintro _ t _ - hst ⟨rfl, rfl⟩
    refine spanFrom_bind (pure ⟨?_, rfl⟩)
    have hstring : (Expr.string s.stream.current.text ⟨_, Primitive.string.typeId⟩).Occupies
        source [s.stream.current] := .mk hs.covers (.word (congrArg some hkind.symm))
    exact .mk (hcovers hst) (.callString hprimary he hkind hstring)
  · next hkind =>
    refine bind (advance hkind rfl) ?_
    rintro _ t _ - hst rfl
    refine bind identifier ?_
    rintro _ u _ - htu ⟨rfl, rfl, hname⟩
    refine spanFrom_bind (pure ⟨?_, rfl⟩)
    exact .mk (hcovers (hst.trans htu)) (.member hprimary he hkind hname)
  · next hkind =>
    refine bind (advance hkind rfl) ?_
    rintro _ t _ - hst rfl
    refine bind (h t) fun key u us _ htu hkey => bind (expect rfl) ?_
    rintro _ v _ - huv ⟨rfl, rfl, hclose⟩
    refine spanFrom_bind (pure ⟨?_, rfl⟩)
    have hspan := hcovers (hst.trans (htu.trans huv))
    exact .mk hspan (.index hprimary he hkind hkey hclose)
  · refine pure ⟨?_, hprimary⟩
    rwa [List.append_nil]

theorem entryOf : Consumes source env s (Grammar.entryOf expr) (Expr.IsEntry source) := by
  refine skip fun found t _ => ?_
  cases found with
  | false => exact (h t).imp fun _ _ he => .plain he
  | true =>
    refine within fun ht => currentSpan_bind (bind identifier ?_)
    rintro _ u _ - htu ⟨rfl, rfl, hname⟩
    refine bind (expect rfl) ?_
    rintro _ v _ - huv ⟨rfl, rfl, hequals⟩
    refine bind (h v) fun value w us _ hvw hvalue => quiet_bind fun id x hwx => ?_
    refine spanFrom_bind (pure ?_)
    rw [List.append_nil]
    exact .named hname hequals hvalue ((htu.trans (huv.trans (hvw.still hwx))).spans ht)

theorem constructorOf :
    Consumes source env s (Grammar.constructorOf expr) (Expr.Occupies source) := by
  refine within fun hs => currentSpan_bind (bind (expect rfl) ?_)
  rintro _ t _ - hst ⟨rfl, rfl, hopen⟩
  refine bind (braceTail fun _ => entryOf h) ?_
  rintro es u _ - htu ⟨us, token, rfl, hes, hclose⟩
  refine spanFrom_bind (pure ?_)
  rw [List.append_nil]
  exact .mk ((hst.trans htu).spans hs) (.constructor hopen hes hclose)

theorem formOf {primary : Parser Expr}
    (hprimary : ∀ s, Consumes source env s primary (Expr.Occupies source)) :
    Consumes source env s (Grammar.formOf expr primary) (Expr.Occupies source) := by
  -- a literal is one token
  have hliteral : ∀ {k} {e : Expr}, s.stream.current.kind = k → (k == .eof) = false →
      e.word? = some k → e.span = s.stream.current.span →
      Consumes source env s (Parser.advance >>= fun _ => Pure.pure e) (Expr.Occupies source) := by
    intro k e hkind hk hword hspan
    refine within fun hs => bind (advance hkind hk) ?_
    rintro _ t _ - hst rfl
    exact pure (.mk (hspan ▸ hs.covers) (.word (hword.trans (congrArg some hkind.symm))))
  refine currentSpan_bind (currentKind_bind ?_)
  split
  · next hkind =>
    refine gets_bind ?_
    unfold Grammar.numberOf
    cases Number.ofText? s.stream.current.text with
    | none => exact fun _ _ _ hrun => by cases hrun
    | some value => exact hliteral hkind rfl rfl rfl
  · next hkind =>
    refine within fun hs => bind (take hkind rfl) ?_
    rintro _ t _ - hst ⟨rfl, rfl⟩
    exact pure (.mk hs.covers (.word (congrArg some hkind.symm)))
  · next hkind => exact hliteral hkind rfl rfl rfl
  · next hkind => exact hliteral hkind rfl rfl rfl
  · next hkind => exact hliteral hkind rfl rfl rfl
  · exact constructorOf h
  · exact hprimary s
  · exact hprimary s
  · exact unexpected _

end

/-- The readers of suffixes go on from the tokens of what they are suffixes of. -/
def Suffixes (source : String) (env : ParserEnv) (suffixes : Expr → Span → Parser Expr) : Prop :=
  ∀ {start s : ParserState} {e : Expr} {ts : List Token}, start.stream.Of source →
    start.Passes ts s → e.Occupies source ts → e.isPrimary = true →
    Consumes source env s (suffixes e start.stream.current.span) fun e' us =>
      e'.Occupies source (ts ++ us) ∧ e'.isPrimary = true

theorem primaryOf {expr : Parser Expr} {suffixes : Expr → Span → Parser Expr}
    (h : ∀ s, Consumes source env s expr (Expr.Occupies source))
    (hsuffixes : Suffixes source env suffixes) :
    Consumes source env s (Grammar.primaryOf expr suffixes) (Expr.Occupies source) := by
  refine within fun hs => currentSpan_bind (bind (operandOf h) fun e t ts _ hst he => ?_)
  exact (chain (hsuffixes hs hst he.1 he.2)).imp fun _ _ he' => he'.1

/-- By induction on how deep expressions may still be nested. -/
theorem expressionWithin_suffixesWithin (room : Nat) :
    (∀ s, Consumes source env s (Grammar.expressionWithin room) (Expr.Occupies source)) ∧
      Suffixes source env (Grammar.suffixesWithin room) := by
  induction room with
  | zero =>
    refine ⟨fun _ => tooDeep _, fun {start s e ts} hstart hpasses he hprimary => ?_⟩
    unfold Grammar.suffixesWithin
    refine currentKind_bind ?_
    split
    · exact tooDeep _
    · refine pure ⟨?_, hprimary⟩
      rwa [List.append_nil]
  | succ room ih =>
    obtain ⟨hexpr, hsuffixes⟩ := ih
    refine ⟨fun s => nested _ fun _ => formOf hexpr fun _ => primaryOf hexpr hsuffixes,
      fun {start s e ts} hstart hpasses he hprimary => ?_⟩
    unfold Grammar.suffixesWithin
    refine currentKind_bind ?_
    split
    · refine quiet_bind fun _ t hst => ?_
      refine bind (suffixOf hexpr hstart (hpasses.still hst) he hprimary) ?_
      intro e' u us _ htu he'
      have hsuffix := hsuffixes hstart ((hpasses.still hst).trans htu) he'.1 he'.2
      refine hsuffix.imp fun _ vs he'' => ?_
      rwa [List.append_assoc] at he''
    · refine pure ⟨?_, hprimary⟩
      rwa [List.append_nil]

/-- An expression occupies its tokens. -/
theorem expressionWithin (room : Nat) :
    Consumes source env s (Grammar.expressionWithin room) (Expr.Occupies source) :=
  (expressionWithin_suffixesWithin room).1 s

theorem callOf (room : Nat) : Consumes source env s
    (Grammar.callOf (Grammar.primaryWithin room)) (Stmt.Occupies source) := by
  obtain ⟨hexpr, hsuffixes⟩ := @expressionWithin_suffixesWithin source env room
  refine bind (primaryOf hexpr hsuffixes) fun e t ts _ _ he => ?_
  split
  · next hcall =>
    refine pure ?_
    rw [List.append_nil]
    exact .mk he.place (.call hcall he)
  · exact fail _ _

/-! ## Statements -/

theorem parametersFrom {n : Nat} (scope : Scope) (hn : s.stream.upcoming.length < n) :
    Obeys source env s (Grammar.parametersFrom n scope) (.listOf (.word .identifier)) := by
  induction n generalizing s scope with
  | zero => exact absurd hn (Nat.not_lt_zero _)
  | succ n ih =>
    intro hs
    suffices hreads : Obeys source env s (Grammar.parametersFrom (n + 1) scope) _ from hreads hs
    refine seq name ?_
    rintro ⟨name, span⟩ t hrun
    obtain ⟨hkind, -, rfl⟩ := identifier_eq_ok hrun
    -- a name is not the end of the text, so taking it leaves fewer tokens
    have hlength := List.length_pos_iff.2 (hs.upcoming_ne_nil (by rw [hkind]; decide))
    dsimp only
    split
    · exact fail _ _
    · refine skip fun id u hu => ?_
      refine imp ?_ fun _ _ => Derives.many_of_opt
      refine eat_opt rfl (fun v hv => ?_) .pure
      obtain rfl : v = u.next := eat_eq_ok hv
      refine (ih _ ?_).andThen
      show u.stream.next.2.upcoming.length < n
      rw [hu]
      show s.stream.next.2.next.2.upcoming.length < n
      rw [Stream.upcoming_next, Stream.upcoming_next, List.length_tail, List.length_tail]
      omega

theorem parameters : Obeys source env s Grammar.parameters
    (.opt (.all [.word .less, .listOf (.word .identifier), .word .greater])) := by
  refine eat_opt rfl (fun t _ => fuel_bind ?_) .pure
  refine seq (parametersFrom _ (Nat.lt_succ_self _)) fun _ u _ => ?_
  exact (word rfl).andThen

/-- The definition of a type stands from its first token to its last one. -/
def Defines (source : String) (e : Expr) (ts : List Token) : Prop :=
  ∃ name tag, e = .typeAlias name tag ∧ tag.span.Covers source ts ∧ Form.definition.Writes ts

section

variable {type : Parser TypeId} (h : ∀ s, Obeys source env s type (.rule .type))

include h

theorem typeAliasOf : Consumes source env s (Grammar.typeAliasOf type) (Defines source) := by
  refine within fun hs => currentSpan_bind (bind (expect rfl) ?_)
  rintro _ t _ - hst ⟨rfl, rfl, hkind⟩
  refine bind name fun x u us _ htu hus => bind (word rfl) fun _ v vs _ huv hvs => ?_
  refine bind (h v) fun id w ws _ hvw hws => quiet_bind fun _ y hwy => spanFrom_bind (pure ?_)
  rw [List.append_nil]
  have hall := hst.trans (htu.trans (huv.trans (hvw.still hwy)))
  exact ⟨_, _, rfl, hall.spans hs, .left ((Writes.word hkind).seq
    (.rule (hus.seq (hvs.seq hws))))⟩

theorem interfaceOf : Consumes source env s (Grammar.interfaceOf type) (Defines source) := by
  refine within fun hs => currentSpan_bind (bind (expect rfl) ?_)
  rintro _ t _ - hst ⟨rfl, rfl, hkind⟩
  refine bind name fun x u us _ htu hus => bind parameters fun y v vs _ huv hvs => ?_
  refine bind (word rfl) fun _ w ws _ hvw hws => ?_
  refine bind (withScope fun _ => braces fun _ => propertyOf h) fun z x xs _ hwx hxs => ?_
  refine quiet_bind fun id x' hx => quiet_bind fun _ x'' hx' => spanFrom_bind (pure ?_)
  rw [List.append_nil]
  have hall := hst.trans (htu.trans (huv.trans (hvw.trans ((hwx.still hx).still hx'))))
  exact ⟨_, _, rfl, hall.spans hs, .right ((Writes.word hkind).seq
    (.rule (hus.seq (hvs.seq (hws.seq hxs)))))⟩

theorem declaredTypeOf : Obeys source env s (Grammar.declaredTypeOf type)
    (.opt (.seq (.word .colon) (.rule .type))) :=
  eat_opt rfl (fun t _ => h t) .pure

theorem variableOf : Obeys source env s (Grammar.variableOf type) (.rule .declaration) :=
  rule (seq name fun _ _ _ => (declaredTypeOf h).andThen)

/-- So do the parts of a declaration. -/
theorem localsOf {expr : Parser Expr}
    (hexpr : ∀ s, Consumes source env s expr (Expr.Occupies source)) :
    Consumes source env s (Grammar.localsOf type expr) fun x ts =>
      Expr.AreValues source x.2.1 ts ∧ x.2.2.Covers source ts := by
  refine within fun hs => currentSpan_bind (bind (expect rfl) ?_)
  rintro _ t _ - hst ⟨rfl, rfl, hkind⟩
  refine bind (listOf fun _ => variableOf h) fun declared u us _ htu hus => ?_
  have hdeclared := (Writes.word hkind).seq hus
  refine eat_bind rfl (fun equals v huv hequals _ => ?_) ?_
  · refine bind (commaList hexpr) fun values w vs _ hvw hvalues => quiet_bind fun ids x hwx => ?_
    refine spanFrom_bind (pure ?_)
    rw [List.append_nil]
    refine ⟨.some hdeclared hequals hvalues, ?_⟩
    exact (hst.trans (htu.trans (huv.trans (hvw.still hwx)))).spans hs
  · refine bind (pure (K := fun values us => values = [] ∧ us = []) ⟨rfl, rfl⟩) ?_
    rintro _ v _ - huv ⟨rfl, rfl⟩
    refine quiet_bind fun ids x hvx => spanFrom_bind (pure ?_)
    simp only [List.append_nil]
    exact ⟨.none hdeclared, (hst.trans ((htu.still huv).still hvx)).spans hs⟩

theorem parameterOf (list : Grammar.ParameterList) :
    Obeys source env s (Grammar.parameterOf type list) (.rule .parameter) := by
  refine check_bind (rule ?_)
  split
  · next hkind =>
    refine imp ?_ fun _ _ hks => .right hks
    refine skip fun span t ht => ?_
    refine seq (current (ht ▸ beq_iff_eq.1 hkind) rfl) fun _ u _ => ?_
    exact (declaredTypeOf h).andThen
  · refine imp ?_ fun _ _ hks => .left hks
    exact (variableOf h).andThen

theorem parametersOf (n : Nat) (list : Grammar.ParameterList) :
    Obeys source env s (Grammar.parametersOf type n list)
      (.entries (.word .comma) (.rule .parameter)) := by
  induction n generalizing s list with
  | zero => exact pure .absent
  | succ n ih =>
    refine skip fun closing t _ => ?_
    cases closing with
    | true => exact pure .absent
    | false =>
      show Obeys source env t (if list.vararg.isSome = true then _ else _) _
      split
      · exact skip fun _ _ _ => fail _ _
      · refine imp ?_ fun _ _ => Derives.entries_of_opt
        refine seq (parameterOf h list) fun list' u _ => ?_
        exact eat_opt rfl (fun _ _ => ih list') .pure

theorem prototypeOf : Consumes source env s (Grammar.prototypeOf type) fun head ts =>
    head.tag.span.Covers source ts ∧
      (Form.seq (.word .identifier) (.rule .prototypeRest)).Writes ts := by
  refine within fun hs => currentSpan_bind (bind identifier ?_)
  rintro _ t _ - hst ⟨rfl, rfl, hkind⟩
  refine bind (word rfl) fun _ u us _ htu hus => quiet_bind fun n v huv => ?_
  refine bind (parametersOf h n {}) fun list w ws _ hvw hws => ?_
  refine bind (word rfl) fun _ x xs _ hwx hxs => ?_
  refine quiet_bind fun span x' hx => quiet_bind fun _ x'' hx' => ?_
  have hparameters := hst.trans ((htu.still huv).trans (hvw.trans ((hwx.still hx).still hx')))
  -- the function is declared alike whether or not its returns are written
  have hdeclare : ∀ (returns : List TypeId) {y ys}, x''.Passes ys y →
      (Form.opt (.seq (.word .colon) (.rule .typeList))).Writes ys →
      Consumes source env y (do
        let id ← internType (.function list.types returns)
        let function ← allocVariable
          { name := s.stream.current.text, type := id, span := s.stream.current.span }
        declareVariable s.stream.current.text function s.stream.current.span
        return Prototype.mk s.stream.current.text function list.parameters returns list.vararg
          ⟨← spanFrom s.stream.current.span, id⟩) fun head zs =>
            head.tag.span.Covers source (s.stream.current :: (us ++ (ws ++ (xs ++ (ys ++ zs))))) ∧
              (Form.seq (.word .identifier) (.rule .prototypeRest)).Writes
                (s.stream.current :: (us ++ (ws ++ (xs ++ (ys ++ zs))))) := by
    intro returns y ys hys hreturns
    refine quiet_bind fun id z hyz => quiet_bind fun function z' hz => ?_
    refine quiet_bind fun _ z'' hz' => spanFrom_bind (pure ?_)
    rw [List.append_nil]
    have hall := hparameters.trans (((hys.still hyz).still hz).still hz')
    simp only [List.append_assoc] at hall
    exact ⟨hall.spans hs, (Writes.word hkind).seq (.rule (hus.seq (hws.seq
      (hxs.seq hreturns))))⟩
  refine eat_bind rfl (fun colon y hxy hcolon _ => ?_) ?_
  · have hreturns : Obeys source env y (Grammar.returnListOf type) (.rule .typeList) :=
      (typeListOf h).andThen
    refine bind hreturns fun returns z zs _ hyz hzs => ?_
    exact hdeclare returns (hxy.trans hyz) (.present ((Writes.word hcolon).seq hzs))
  · refine quiet_bind fun _ y hxy => quiet_bind fun returns z hyz => ?_
    exact hdeclare returns (hxy.still hyz) .absent

theorem externOf : Consumes source env s (Grammar.externOf type) (Stmt.Occupies source) := by
  refine within fun hs => currentSpan_bind (bind (expect rfl) ?_)
  rintro _ t _ - hst ⟨rfl, rfl, hkind⟩
  have hfunction : Obeys source env t Grammar.atFunction (.opt (.word .kwFunction)) :=
    (eat rfl).andThen
  refine bind hfunction fun found u us _ htu hus => ?_
  cases found with
  | true =>
    refine bind (prototypeOf h) fun head v vs _ huv hhead => spanFrom_bind (pure ?_)
    rw [List.append_nil]
    show Stmt.Occupies _ _ (s.stream.current :: (us ++ vs))
    have hspan := (hst.trans (htu.trans huv)).spans hs
    exact .mk hspan (.externFunction hkind hus hhead.2 hhead.1)
  | false =>
    refine bind name fun x v vs _ huv hvs => bind (word rfl) fun _ w ws _ hvw hws => ?_
    refine bind (h w) fun id x xs _ hwx hxs => quiet_bind fun target y hxy => ?_
    refine quiet_bind fun _ z hyz => spanFrom_bind (pure ?_)
    rw [List.append_nil]
    have hall := hst.trans (htu.trans (huv.trans (hvw.trans ((hwx.still hxy).still hyz))))
    have hwritten : (Form.rule .external).Writes (us ++ (vs ++ (ws ++ xs))) :=
      .rule (hus.seq (hvs.seq (.right (hws.seq hxs))))
    exact .mk (hall.spans hs) (.externVariable ((Writes.word hkind).seq hwritten))

/-- An export occupies the tokens of what it exports, and its word. -/
theorem exportOf {expr : Parser Expr}
    (hexpr : ∀ s, Consumes source env s expr (Expr.Occupies source)) :
    Consumes source env s (Grammar.exportOf type expr) (Stmt.Occupies source) := by
  refine within fun hs => currentSpan_bind (bind (expect rfl) ?_)
  rintro _ t _ - hst ⟨rfl, rfl, hkind⟩
  -- a definition is exported alike in both forms
  have hdefinition : ∀ {p : Parser Expr}, (∀ s, Consumes source env s p (Defines source)) →
      Consumes source env t (do
        let definition ← p
        Grammar.exportAlias definition
        return Stmt.exportExpr definition (← spanFrom s.stream.current.span)) fun m us =>
          m.Occupies source (s.stream.current :: us) := by
    intro p hp
    refine bind (hp t) ?_
    rintro _ u us - htu ⟨name, tag, rfl, htag, hus⟩
    refine quiet_bind fun _ v huv => spanFrom_bind (pure ?_)
    rw [List.append_nil]
    exact .mk ((hst.trans (htu.still huv)).spans hs) (.exportExpr hkind hus htag)
  refine gets_bind ?_
  split
  · refine currentKind_bind ?_
    split
    · exact hdefinition fun _ => typeAliasOf h
    · exact hdefinition fun _ => interfaceOf h
    · refine bind (localsOf h hexpr) fun x u us _ htu hx => quiet_bind fun _ v huv => ?_
      refine spanFrom_bind (pure ?_)
      rw [List.append_nil]
      exact .mk ((hst.trans (htu.still huv)).spans hs) (.exportStmt hkind hx.1 hx.2)
    · exact unexpected _
  · exact fail _ _

end

/-! ## Imports, blocks and modules -/

/-- The name stands at its token. -/
def Named (source : String) (x : String × Span) (ts : List Token) : Prop :=
  ∃ token, ts = [token] ∧ token.kind = .identifier ∧ x.2 = token.span ∧
    token.span.Covers source ts

theorem bindImport {m : Module} {name : String} {span : Span} :
    Consumes source env s (Grammar.bindImport m name span) fun e ts =>
      ts = [] ∧ e.word? = some .identifier ∧ e.span = span := by
  unfold Grammar.bindImport
  dsimp only
  split
  · exact skip fun _ _ _ => skip fun _ _ _ => pure ⟨rfl, rfl, rfl⟩
  · exact skip fun _ _ _ => pure ⟨rfl, rfl, rfl⟩
  · exact fail _ _

theorem mapM_bindImport {m : Module} {names : List (String × Span)} {ts : List Token}
    (h : Listed [.comma] false (Named source) names ts) (s : ParserState) :
    Consumes source env s (names.mapM fun x => Grammar.bindImport m x.1 x.2) fun es us =>
      us = [] ∧ Listed [.comma] false
        (fun e ts => e.Occupies source ts ∧ (Form.word .identifier).Writes ts) es ts := by
  have hname : ∀ {e : Expr} {x : String × Span} {ts : List Token}, Named source x ts →
      e.word? = some .identifier → e.span = x.2 →
      e.Occupies source ts ∧ (Form.word .identifier).Writes ts := by
    rintro e x _ ⟨token, rfl, hkind, hx, hcovers⟩ hword hspan
    rw [← hx, ← hspan] at hcovers
    exact ⟨.mk hcovers (.word (hword.trans (congrArg some hkind.symm))), .word hkind⟩
  induction h generalizing s with
  | nil hopen => cases hopen
  | one hx =>
    rw [List.mapM_cons]
    refine bind bindImport ?_
    rintro e t _ - - ⟨rfl, hword, hspan⟩
    exact pure ⟨rfl, .one (hname hx hword hspan)⟩
  | cons hx ht _ ih =>
    rw [List.mapM_cons]
    refine bind bindImport ?_
    rintro e t _ - - ⟨rfl, hword, hspan⟩
    refine bind (ih t) ?_
    rintro es u _ - - ⟨rfl, hes⟩
    exact pure ⟨rfl, .cons (hname hx hword hspan) ht hes⟩

/-- An import occupies the tokens of its names and of its source. -/
theorem importNames : Consumes source env s Grammar.importNames (Stmt.Occupies source) := by
  have hname : ∀ s, Consumes source env s Parser.identifier (Named source) := by
    intro s
    refine within fun hs => identifier.imp ?_
    rintro _ _ ⟨rfl, rfl, hkind⟩
    exact ⟨_, rfl, hkind, rfl, hs.covers⟩
  refine within fun hs => currentSpan_bind (bind (expect rfl) ?_)
  rintro _ t _ - hst ⟨rfl, rfl, hkind⟩
  refine bind (expect rfl) ?_
  rintro _ u _ - htu ⟨rfl, rfl, hopen⟩
  refine bind (commaList hname) fun names v vs _ huv hnames => bind (expect rfl) ?_
  rintro _ w _ - hvw ⟨rfl, rfl, hclose⟩
  refine bind (expect rfl) ?_
  rintro _ x _ - hwx ⟨rfl, rfl, hfrom⟩
  refine bind (expect rfl) ?_
  rintro _ y _ - hxy ⟨rfl, rfl, hpath⟩
  refine quiet_bind fun file y' hy => ?_
  split
  · exact fail _ _
  · refine quiet_bind fun m y'' hy' => bind (mapM_bindImport hnames y'') ?_
    rintro es z _ - hz ⟨rfl, hes⟩
    refine spanFrom_bind (pure ?_)
    have hend := ((hxy.still hy).still hy').still hz
    have hall := hst.trans (htu.trans (huv.trans (hvw.trans (hwx.trans hend))))
    exact .mk (hall.spans hs) (.imports hkind hopen hes hclose hfrom hpath)

theorem statementsOf {statement : Parser Stmt}
    (h : ∀ s, Consumes source env s statement (Stmt.Occupies source))
    (close : Kind) (n : Nat) : Consumes source env s (Grammar.statementsOf statement close n)
      (Spread (· = .semicolon) (Stmt.Occupies source)) := by
  induction n generalizing s with
  | zero => exact pure .nil
  | succ n ih =>
    refine skip fun closing t _ => ?_
    cases closing with
    | true => exact pure .nil
    | false =>
      refine skip fun ending u _ => ?_
      cases ending with
      | true => exact skip fun _ _ _ => fail _ _
      | false =>
        refine eat_bind rfl (fun token v _ hkind _ => ?_) ?_
        · exact ih.imp fun _ _ hms => .skip hkind hms
        · refine bind (h u) fun m v us _ _ hm => bind ih fun ms w vs _ _ hms => pure ?_
          rw [List.append_nil]
          exact .cons hm hms

/-- A block stands from its first token to its last one, or at the current token if it has no
statements. -/
theorem blockOf {statement : Parser Stmt}
    (h : ∀ s, Consumes source env s statement (Stmt.Occupies source))
    (scope : Scope) (close : Kind) :
    Consumes source env s (Grammar.blockOf scope statement close) fun b ts =>
      Spread (· = .semicolon) (Stmt.Occupies source) b.body ts ∧
        if b.body.isEmpty then b.span = s.stream.current.span else b.span.Covers source ts := by
  refine within fun hs => currentSpan_bind ?_
  refine bind (withScope fun u => skip fun n v _ => statementsOf h close n) ?_
  rintro ⟨body, scope'⟩ t ts - hst hbody
  cases body with
  | nil =>
    refine pure ⟨?_, rfl⟩
    rwa [List.append_nil]
  | cons m ms =>
    refine spanFrom_bind (pure ?_)
    rw [List.append_nil]
    exact ⟨hbody, hst.covers hs (hbody.ne_nil fun hm => hm.place.ne_nil)⟩

/-- A statement occupies its tokens. -/
theorem statementOf (room : Nat) {block : Parser Block}
    (h : ∀ s, Consumes source env s block fun b ts =>
      Spread (· = .semicolon) (Stmt.Occupies source) b.body ts) :
    Consumes source env s (Grammar.statementOf room block) (Stmt.Occupies source) := by
  have htype : ∀ s, Obeys source env s (Grammar.typeWithin room) (.rule .type) :=
    fun _ => typeWithin room
  have hexpr : ∀ s, Consumes source env s (Grammar.expressionWithin room) (Expr.Occupies source) :=
    fun _ => expressionWithin room
  refine within fun hs => currentSpan_bind ?_
  have hdefinition : ∀ {p : Parser Expr}, (∀ s, Consumes source env s p (Defines source)) →
      Consumes source env s (do
        let definition ← p
        return Stmt.expression definition (← spanFrom s.stream.current.span))
          (Stmt.Occupies source) := by
    intro p hp
    refine bind (hp s) ?_
    rintro _ t ts - hst ⟨name, tag, rfl, htag, hts⟩
    refine spanFrom_bind (pure ?_)
    rw [List.append_nil]
    exact .mk (hst.covers hs htag.ne_nil) (.definition hts htag)
  refine currentKind_bind ?_
  split
  · exact hdefinition fun _ => typeAliasOf htype
  · exact hdefinition fun _ => interfaceOf htype
  · refine bind (localsOf htype hexpr) fun x t ts _ _ hx => pure ?_
    rw [List.append_nil]
    exact .mk hx.2 (.locals hx.1)
  · exact importNames
  · exact exportOf htype hexpr
  · exact externOf htype
  · refine currentSpan_bind (bind (expect rfl) ?_)
    rintro _ t _ - hst ⟨rfl, rfl, hdo⟩
    refine bind (h t) fun b u us _ htu hb => bind (expect rfl) ?_
    rintro _ v _ - huv ⟨rfl, rfl, hend⟩
    refine spanFrom_bind (pure ?_)
    exact .mk ((hst.trans (htu.trans huv)).spans hs) (.block hdo hb hend)
  · exact callOf room
  · exact callOf room
  · exact unexpected _

/-- By induction on how deep statements may still be nested. -/
theorem statementWithin_blockWithin (room : Nat) :
    (∀ s, Consumes source env s (Grammar.statementWithin room) (Stmt.Occupies source)) ∧
      ∀ s close, Consumes source env s (Grammar.blockWithin room close) fun b ts =>
        Spread (· = .semicolon) (Stmt.Occupies source) b.body ts := by
  induction room with
  | zero => exact ⟨fun _ => tooDeep _, fun _ _ => tooDeep _⟩
  | succ room ih =>
    obtain ⟨hstatement, hblock⟩ := ih
    refine ⟨fun s => nested _ fun _ => statementOf room fun t => hblock t _, fun s close => ?_⟩
    exact nested _ fun _ => (blockOf hstatement {} close).imp fun _ _ hb => hb.1

/-- A module that is read occupies the tokens of its text. -/
theorem module (hs : s.stream.Of source) {m : Module} (hrun : Grammar.module env s = (.ok m, t)) :
    ∃ ts q, s.stream.remaining = (ts ++ [Token.eof q]).map .ok ∧
      m.block.Occupies source ts (.eof q) := by
  obtain ⟨room, s₁, hroom, hrun⟩ := bind_eq_ok.1 hrun
  cases hroom
  obtain ⟨body, s₂, hblock, hrun⟩ := bind_eq_ok.1 hrun
  obtain ⟨token, s₃, hend, hrun⟩ := bind_eq_ok.1 hrun
  cases hrun
  obtain ⟨ts, hts, hbody, hspan⟩ :=
    blockOf (statementWithin_blockWithin _).1 Grammar.rootScope .eof hs body s₂ hblock
  -- the end of the text is looked at, and what remains is that alone
  obtain ⟨q, hq⟩ := (hs.of_passes hts.1).remaining_eq (expect_eq_ok hend).1
  have hremaining : s.stream.remaining = (ts ++ [Token.eof q]).map .ok := by
    rw [hts.1, hq, List.map_append]
    rfl
  refine ⟨ts, q, hremaining, hbody, ?_⟩
  dsimp only
  split at hspan
  · next hnone =>
    rw [if_pos hnone, hspan]
    cases hall : ts ++ [Token.eof q] with
    | nil => cases (List.append_eq_nil_iff.1 hall).2
    | cons first rest =>
      rw [hall] at hremaining
      have hfirst : s.stream.current = first := Except.ok.inj (List.cons.inj hremaining).1
      rw [← hfirst]
      exact hs.covers
  · next hsome =>
    rw [if_neg hsome]
    exact hspan

end Consumes

end TypedLua
