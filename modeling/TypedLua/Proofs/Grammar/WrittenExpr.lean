import TypedLua.Grammar.Expression
import TypedLua.Proofs.Grammar.Ahead
import TypedLua.Proofs.Grammar.Frames

/-!
# Grammar.WrittenExpr

Expressions as they are written, and what is read where they stand.  An expression is spelled as a
list of words; all ways to write one are there, with either separator between the entries of a
constructor and with the short form of a call of one string.  Where it is known what the next tokens
say, and they are the words of an expression whose names mean variables, the reader of expressions
gives that expression back; the only thing that can go wrong is that there is no room for it.

Main statement: `Grammar.expression_reads_spelling`.
-/

namespace TypedLua

open Text Number TypedLua.Parser
open Token (Kind)

/-! ## Written expressions -/

namespace WrittenExpr

/-- An entry of a constructor as it is written. -/
structure Entry (α : Type) where
  name? : Option String
  value : α
  separator : { k : Kind // k.Separates }

/-- What may be written after a name or a group. -/
inductive Suffix (α : Type) where
  /-- Arguments in parentheses. -/
  | call (arguments : List α)
  /-- A string as the only argument. -/
  | string (text : String)
  /-- A dot and a name. -/
  | member (name : String)
  /-- A key in brackets. -/
  | index (key : α)

/-- The expressions inside a suffix. -/
def Suffix.parts {α : Type} : Suffix α → List α
  | call arguments => arguments
  | index key => [key]
  | _ => []

end WrittenExpr

/-- An expression as it is written. -/
inductive WrittenExpr where
  /-- A numeral. -/
  | number (text : String)
  /-- A string. -/
  | string (text : String)
  /-- The word `true` or `false`. -/
  | boolean (value : Bool)
  /-- The word `nil`. -/
  | nil
  /-- The name of a variable. -/
  | reference (name : String)
  /-- An expression in parentheses. -/
  | group (inner : WrittenExpr)
  /-- An expression with a suffix. -/
  | suffixed (operand : WrittenExpr) (suffix : WrittenExpr.Suffix WrittenExpr)
  /-- Entries in braces, the last perhaps with a separator after it. -/
  | constructor (entries : List (WrittenExpr.Entry WrittenExpr)) (closed : Bool)

namespace WrittenExpr

/-- An entry, given the words of its value. -/
def entryWords (name? : Option String) (ws : List Word) : List Word :=
  match name? with
  | some name => (.identifier, name) :: Kind.equals.word :: ws
  | none => ws

mutual

/-- The words of an expression. -/
def spelling : WrittenExpr → List Word
  | number text => [(.number, text)]
  | string text => [(.string, text)]
  | boolean value => [if value then Kind.kwTrue.word else Kind.kwFalse.word]
  | nil => [Kind.kwNil.word]
  | reference name => [(.identifier, name)]
  | group inner => Kind.leftParen.word :: (inner.spelling ++ [Kind.rightParen.word])
  | suffixed operand suffix => operand.spelling ++ suffixSpelling suffix
  | constructor entries closed =>
    Kind.leftBrace.word :: (separated closed (entrySpellings entries) ++ [Kind.rightBrace.word])

/-- The words of a suffix. -/
def suffixSpelling : Suffix WrittenExpr → List Word
  | .call arguments =>
    Kind.leftParen.word :: (commas (spellings arguments) ++ [Kind.rightParen.word])
  | .string text => [(.string, text)]
  | .member name => [Kind.dot.word, (.identifier, name)]
  | .index key => Kind.leftBracket.word :: (key.spelling ++ [Kind.rightBracket.word])

/-- The words of expressions. -/
def spellings : List WrittenExpr → List (List Word)
  | [] => []
  | e :: es => e.spelling :: spellings es

/-- The words of entries, and what separates them. -/
def entrySpellings : List (Entry WrittenExpr) → List (List Word × Kind)
  | [] => []
  | f :: entries => (entryWords f.name? f.value.spelling, f.separator) :: entrySpellings entries

end

/-- The words of an entry. -/
def entrySpelling (f : Entry WrittenExpr) : List Word := entryWords f.name? f.value.spelling

theorem spellings_eq_map (es : List WrittenExpr) : spellings es = es.map spelling := by
  induction es with
  | nil => rfl
  | cons e es ih => exact congrArg (e.spelling :: ·) ih

theorem entrySpellings_eq_map (fs : List (Entry WrittenExpr)) :
    entrySpellings fs = fs.map fun f => (entrySpelling f, f.separator.1) := by
  induction fs with
  | nil => rfl
  | cons f fs ih => exact congrArg ((entrySpelling f, f.separator.1) :: ·) ih

/-- Whether suffixes may be written after the expression. -/
def isOperand : WrittenExpr → Bool
  | reference _ | group _ | suffixed _ _ => true
  | _ => false

/-- Whether the expression ends with a suffix. -/
def isSuffixed : WrittenExpr → Bool
  | suffixed _ _ => true
  | _ => false

/-- The expression can be read in the scopes: numerals denote numbers, names mean variables, and
suffixes are written after names, groups and other suffixes. -/
inductive Proper (scopes : ScopeStack) : WrittenExpr → Prop
  /-- A numeral that denotes a number. -/
  | number {text : String} {value : Binary64} : ofText? text = some value →
    Proper scopes (.number text)
  /-- A string. -/
  | string {text : String} : Proper scopes (.string text)
  /-- The word `true` or `false`. -/
  | boolean {value : Bool} : Proper scopes (.boolean value)
  /-- The word `nil`. -/
  | nil : Proper scopes .nil
  /-- A name that means a variable. -/
  | reference {name : String} {id : VariableId} : scopes.resolveVariable name = some id →
    Proper scopes (.reference name)
  /-- An expression in parentheses. -/
  | group {inner : WrittenExpr} : Proper scopes inner → Proper scopes (.group inner)
  /-- An expression with a suffix. -/
  | suffixed {operand : WrittenExpr} {suffix : Suffix WrittenExpr} : Proper scopes operand →
    operand.isOperand = true → (∀ e ∈ suffix.parts, Proper scopes e) →
    Proper scopes (.suffixed operand suffix)
  /-- A constructor. -/
  | constructor {entries : List (Entry WrittenExpr)} {closed : Bool} :
    (∀ f ∈ entries, Proper scopes f.value) → Proper scopes (.constructor entries closed)

mutual

/-- The expression is the one that is written, whatever its tags are.  Names mean what they mean in
the scopes; the variable of a named entry is any that has this name. -/
inductive Denotes (scopes : ScopeStack) (vars : VariableArena) : WrittenExpr → Expr → Prop
  | number {text : String} {value : Binary64} {tag : Tag} : ofText? text = some value →
    Denotes scopes vars (.number text) (.number value tag)
  | string {text : String} {tag : Tag} : Denotes scopes vars (.string text) (.string text tag)
  | boolean {value : Bool} {tag : Tag} :
    Denotes scopes vars (.boolean value) (.boolean value tag)
  | nil {tag : Tag} : Denotes scopes vars .nil (.nil tag)
  | reference {name : String} {id : VariableId} {tag : Tag} :
    scopes.resolveVariable name = some id →
    Denotes scopes vars (.reference name) (.reference id tag)
  | group {e : WrittenExpr} {x : Expr} {tag : Tag} : Denotes scopes vars e x →
    Denotes scopes vars (.group e) (.group x tag)
  | call {e : WrittenExpr} {x : Expr} {es : List WrittenExpr} {xs : List Expr} {tag : Tag} :
    Denotes scopes vars e x → List.Forall₂ (Denotes scopes vars) es xs →
    Denotes scopes vars (.suffixed e (.call es)) (.call x xs tag)
  | callString {e : WrittenExpr} {x : Expr} {text : String} {tag tag' : Tag} :
    Denotes scopes vars e x →
    Denotes scopes vars (.suffixed e (.string text)) (.call x [.string text tag'] tag)
  | member {e : WrittenExpr} {x : Expr} {name : String} {tag : Tag} : Denotes scopes vars e x →
    Denotes scopes vars (.suffixed e (.member name)) (.member x name tag)
  | index {e key : WrittenExpr} {x y : Expr} {tag : Tag} : Denotes scopes vars e x →
    Denotes scopes vars key y → Denotes scopes vars (.suffixed e (.index key)) (.index x y tag)
  | constructor {entries : List (Entry WrittenExpr)} {closed : Bool} {xs : List Expr} {tag : Tag} :
    List.Forall₂ (DenotesEntry scopes vars) entries xs →
    Denotes scopes vars (.constructor entries closed) (.constructor xs tag)

/-- The expression is the entry that is written. -/
inductive DenotesEntry (scopes : ScopeStack) (vars : VariableArena) :
    Entry WrittenExpr → Expr → Prop
  | bare {e : WrittenExpr} {x : Expr} {separator : { k : Kind // k.Separates }} :
    Denotes scopes vars e x → DenotesEntry scopes vars ⟨none, e, separator⟩ x
  | named {name : String} {id : VariableId} {e : WrittenExpr} {x : Expr} {tag : Tag}
      {separator : { k : Kind // k.Separates }} : vars.Named name id → Denotes scopes vars e x →
    DenotesEntry scopes vars ⟨some name, e, separator⟩ (.entry id x tag)

end

variable {scopes : ScopeStack} {vars vars' : VariableArena}

mutual

/-- More variables change nothing. -/
theorem Denotes.mono (h : vars.vars <+: vars'.vars) {e : WrittenExpr} {x : Expr} :
    Denotes scopes vars e x → Denotes scopes vars' e x
  | .number hvalue => .number hvalue
  | .string => .string
  | .boolean => .boolean
  | .nil => .nil
  | .reference hid => .reference hid
  | .group he => .group (he.mono h)
  | .call he hes => .call (he.mono h) (Denotes.monoAll h hes)
  | .callString he => .callString (he.mono h)
  | .member he => .member (he.mono h)
  | .index he hkey => .index (he.mono h) (hkey.mono h)
  | .constructor hentries => .constructor (DenotesEntry.monoAll h hentries)

theorem Denotes.monoAll (h : vars.vars <+: vars'.vars) {es : List WrittenExpr} {xs : List Expr} :
    List.Forall₂ (Denotes scopes vars) es xs → List.Forall₂ (Denotes scopes vars') es xs
  | .nil => .nil
  | .cons he hes => .cons (he.mono h) (Denotes.monoAll h hes)

theorem DenotesEntry.mono (h : vars.vars <+: vars'.vars) {f : Entry WrittenExpr} {x : Expr} :
    DenotesEntry scopes vars f x → DenotesEntry scopes vars' f x
  | .bare he => .bare (he.mono h)
  | .named hname he => .named (hname.mono h) (he.mono h)

theorem DenotesEntry.monoAll (h : vars.vars <+: vars'.vars) {fs : List (Entry WrittenExpr)}
    {xs : List Expr} :
    List.Forall₂ (DenotesEntry scopes vars) fs xs → List.Forall₂ (DenotesEntry scopes vars') fs xs
  | .nil => .nil
  | .cons hf hfs => .cons (hf.mono h) (DenotesEntry.monoAll h hfs)

end

/-! ## Suffixes -/

/-- An expression with suffixes, one after the other. -/
def chained (operand : WrittenExpr) (suffixes : List (Suffix WrittenExpr)) : WrittenExpr :=
  suffixes.foldl suffixed operand

theorem spelling_chained (operand : WrittenExpr) (suffixes : List (Suffix WrittenExpr)) :
    (chained operand suffixes).spelling = operand.spelling ++ suffixes.flatMap suffixSpelling := by
  induction suffixes generalizing operand with
  | nil => exact (List.append_nil _).symm
  | cons suffix suffixes ih =>
    show (chained (operand.suffixed suffix) suffixes).spelling = _
    rw [ih, spelling, List.flatMap_cons, List.append_assoc]

/-- Every expression is an operand with suffixes. -/
theorem exists_chained : ∀ e : WrittenExpr, ∃ operand suffixes, e = chained operand suffixes ∧
    operand.isSuffixed = false
  | suffixed e suffix => by
    obtain ⟨operand, suffixes, rfl, hoperand⟩ := exists_chained e
    refine ⟨operand, suffixes ++ [suffix], ?_, hoperand⟩
    unfold chained
    rw [List.foldl_append, List.foldl_cons, List.foldl_nil]
  | number _ | string _ | boolean _ | nil | reference _ | group _ | constructor _ _ =>
    ⟨_, [], rfl, rfl⟩

theorem Proper.of_chained {operand : WrittenExpr} {suffixes : List (Suffix WrittenExpr)}
    (h : Proper scopes (chained operand suffixes)) : Proper scopes operand ∧
      (∀ suffix ∈ suffixes, ∀ e ∈ suffix.parts, Proper scopes e) ∧
      (suffixes ≠ [] → operand.isOperand = true) := by
  induction suffixes generalizing operand with
  | nil => exact ⟨h, nofun, fun hne => absurd rfl hne⟩
  | cons suffix suffixes ih =>
    obtain ⟨hfirst, hrest, -⟩ := ih h
    cases hfirst with
    | suffixed hproper hoperand hparts =>
      exact ⟨hproper, List.forall_mem_cons.2 ⟨hparts, hrest⟩, fun _ => hoperand⟩

theorem exists_suffixSpelling (suffix : Suffix WrittenExpr) : ∃ w ws,
    suffixSpelling suffix = w :: ws ∧ Grammar.startsSuffix w.1 = true := by
  cases suffix <;> exact ⟨_, _, rfl, rfl⟩

theorem exists_spelling : ∀ e : WrittenExpr, ∃ w ws, e.spelling = w :: ws ∧
    w.1 ≠ .rightParen ∧ w.1 ≠ .rightBrace ∧
    (w.1 = .identifier → ∀ v ∈ ws.head?, Grammar.startsSuffix v.1 = true)
  | number _ | string _ | boolean true | boolean false | nil => ⟨_, _, rfl, nofun, nofun, nofun⟩
  | reference _ => ⟨_, _, rfl, nofun, nofun, fun _ => nofun⟩
  | group _ | constructor _ _ => ⟨_, _, rfl, nofun, nofun, nofun⟩
  | suffixed operand suffix => by
    obtain ⟨w, ws, hoperand, hparen, hbrace, hname⟩ := exists_spelling operand
    obtain ⟨v, vs, hsuffix, hstarts⟩ := exists_suffixSpelling suffix
    refine ⟨w, ws ++ v :: vs, ?_, hparen, hbrace, fun hw u hu => ?_⟩
    · rw [spelling, hoperand, hsuffix, List.cons_append]
    · cases ws with
      | nil =>
        obtain rfl : v = u := Option.some.inj hu
        exact hstarts
      | cons u' us => exact hname hw u hu

end WrittenExpr

/-! ## Operands and suffixes -/

/-- Reading while the scopes stay as they are, and variables are declared. -/
def Course.resolving (scopes : ScopeStack) : Course where
  Leads s t := s.scopes = scopes ∧ t.scopes = scopes ∧ s.session.vars.vars <+: t.session.vars.vars
  trans h h' := ⟨h.1, h'.2.1, h.2.2.trans h'.2.2⟩
  right h := ⟨h.2.1, h.2.1, List.prefix_rfl⟩
  next h _ _ := ⟨h.1, h.1, List.prefix_rfl⟩
  deepened _ h := ⟨h.1, h.1, List.prefix_rfl⟩
  declared _ h := ⟨h.1, h.1, List.prefix_append _ _⟩

variable {e : WrittenExpr}

namespace Grammar

open Course.Takes WrittenExpr

variable {scopes : ScopeStack} {env : ParserEnv} {s : ParserState} {F : Fault → Prop} {w : Word}
  {ws : List Word}

/-- Constructs are nested too deep in an expression. -/
def TooDeepExpression (f : Fault) : Prop := f.cause = .tooDeep nestingLimit "expression"

/-- What is read is the expression that is written. -/
def Spelled (scopes : ScopeStack) (e : WrittenExpr) (x : Expr) (s : ParserState) : Prop :=
  WrittenExpr.Denotes scopes s.session.vars e x

theorem Spelled.leads {x : Expr} {t u : ParserState} (h : Spelled scopes e x t)
    (htu : (Course.resolving scopes).Leads t u) : Spelled scopes e x u :=
  WrittenExpr.Denotes.mono htu.2.2 h

/-- The reader takes the words of proper expressions, if no suffix follows, and gives what they
stand for. -/
def ReadsExprs (scopes : ScopeStack) (F : Fault → Prop) (env : ParserEnv) (expr : Parser Expr) :
    Prop :=
  ∀ es : List WrittenExpr, (∀ e ∈ es, Proper scopes e) →
    (Course.resolving scopes).Spells F env expr spelling es (startsSuffix · = false)
      (Spelled scopes)

section

variable {expr : Parser Expr} (hexpr : ReadsExprs scopes F env expr)

include hexpr

theorem ReadsExprs.takes (he : Proper scopes e)
    (hw : startsSuffix w.1 = false) (h : s.stream.Ahead (e.spelling ++ w :: ws)) :
    (Course.resolving scopes).Takes F env s expr (w :: ws) (Spelled scopes e) :=
  hexpr [e] (by simpa using he) e List.mem_cons_self s w ws hw h

theorem takes_operandOf (he : Proper scopes e) (hoperand : e.isOperand = true)
    (hsuffixed : e.isSuffixed = false) (hws : ws ≠ [])
    (h : s.stream.Ahead (e.spelling ++ ws)) :
    (Course.resolving scopes).Takes F env s (operandOf expr) ws (Spelled scopes e) := by
  unfold operandOf
  cases he with
  | @reference name id hid =>
    refine currentKind_bind h ?_
    refine Course.Takes.bind (identifier h hws) fun found t hst ht hname => ?_
    unfold resolve
    refine gets_bind ?_
    rw [hst.2.1, hname, hid]
    refine gets_bind ?_
    exact Course.Takes.pure ht (.reference hid)
  | @group inner hinner =>
    rw [spelling, List.cons_append, List.append_assoc] at h
    refine currentKind_bind h ?_
    refine currentSpan_bind ?_
    refine Course.Takes.bind (advance h (by simp) rfl) fun _ t hst ht _ => ?_
    refine (hexpr.takes hinner rfl ht).bind fun x u htu hu hx => ?_
    refine (expect hu rfl hws rfl).bind fun _ v huv hv _ => ?_
    refine spanFrom_bind fun span => ?_
    exact Course.Takes.pure hv (.group (hx.leads huv))
  | suffixed => cases hsuffixed
  | _ => cases hoperand

theorem takes_argumentsOf {es : List WrittenExpr} (hes : ∀ e ∈ es, Proper scopes e)
    (hws : ws ≠ [])
    (h : s.stream.Ahead (commas (es.map spelling) ++ Kind.rightParen.word :: ws)) :
    (Course.resolving scopes).Takes F env s (argumentsOf expr) ws fun xs t =>
      List.Forall₂ (fun e x => Spelled scopes e x t) es xs := by
  have hclose : ∀ xs (t : ParserState),
      t.stream.Ahead (Kind.rightParen.word :: ws) →
      List.Forall₂ (fun e x => Spelled scopes e x t) es xs →
      (Course.resolving scopes).Takes F env t
        (Parser.expect .rightParen >>= fun _ => Pure.pure xs) ws fun xs u =>
          List.Forall₂ (fun e x => Spelled scopes e x u) es xs := by
    intro xs t hahead hxs
    refine (expect hahead rfl hws rfl).bind fun _ u htu hu _ => ?_
    exact .pure hu (hxs.imp fun _ _ hx => hx.leads htu)
  unfold argumentsOf
  cases es with
  | nil => exact check_bind h rfl (hclose [] s h .nil)
  | cons e es =>
    -- the first argument does not start with the closing parenthesis
    obtain ⟨v, vs, hspelling, hv, -⟩ := exists_spelling e
    have hhead := h
    rw [List.map_cons, hspelling] at hhead
    refine check_ne_bind hhead hv ?_
    have hlist := commaList (hexpr (e :: es) hes) (fun _ _ _ _ htu hx => hx.leads htu) rfl
      (List.cons_ne_nil e es) rfl (by decide) h
    exact Course.Takes.bind hlist fun xs t hst ht hxs => hclose xs t ht hxs

/-- One suffix is read. -/
theorem takes_suffixOf {x : Expr} {suffix : Suffix WrittenExpr} (hx : Spelled scopes e x s)
    (hparts : ∀ e ∈ suffix.parts, Proper scopes e) (start : Span)
    (hws : ws ≠ [])
    (h : s.stream.Ahead (suffixSpelling suffix ++ ws)) :
    (Course.resolving scopes).Takes F env s (suffixOf expr x start) ws
      (Spelled scopes (e.suffixed suffix)) := by
  unfold suffixOf
  cases suffix with
  | call es =>
    rw [suffixSpelling, spellings_eq_map, List.cons_append, List.append_assoc] at h
    refine currentKind_bind h ?_
    refine Course.Takes.bind (advance h (by simp) rfl) fun _ t hst ht _ => ?_
    refine (takes_argumentsOf hexpr hparts hws ht).bind ?_
    intro xs u htu hu hxs
    refine spanFrom_bind fun span => ?_
    exact Course.Takes.pure hu (.call ((hx.leads hst).leads htu) hxs)
  | string text =>
    refine currentKind_bind h ?_
    refine Course.Takes.bind (take h hws rfl) fun token t hst ht htoken => ?_
    refine spanFrom_bind fun span => ?_
    refine Course.Takes.pure ht ?_
    rw [htoken, show s.stream.current.text = text from h.text]
    exact .callString (hx.leads hst)
  | member name =>
    refine currentKind_bind h ?_
    refine Course.Takes.bind (advance h (by simp) rfl) fun _ t hst ht _ => ?_
    refine (identifier ht hws).bind fun found u htu hu hname => ?_
    refine spanFrom_bind fun span => ?_
    refine Course.Takes.pure hu ?_
    rw [hname]
    exact .member ((hx.leads hst).leads htu)
  | index key =>
    rw [suffixSpelling, List.cons_append, List.append_assoc] at h
    refine currentKind_bind h ?_
    refine Course.Takes.bind (advance h (by simp) rfl) fun _ t hst ht _ => ?_
    refine (hexpr.takes (hparts key List.mem_cons_self) rfl ht).bind ?_
    intro y u htu hu hy
    refine (expect hu rfl hws rfl).bind fun _ v huv hv _ => ?_
    refine spanFrom_bind fun span => ?_
    exact Course.Takes.pure hv
      (.index (((hx.leads hst).leads htu).leads huv) (hy.leads huv))

/-! ## Constructors -/

omit hexpr in
theorem takes_atNamedEntry {f : Entry WrittenExpr}
    (hw : w.1.Separates ∨ w.1 = .rightBrace) (h : s.stream.Ahead (entrySpelling f ++ w :: ws)) :
    (Course.resolving scopes).Takes F env s atNamedEntry (entrySpelling f ++ w :: ws)
      fun found t => found = f.name?.isSome ∧ t = s := by
  unfold atNamedEntry
  obtain ⟨name?, e, separator⟩ := f
  cases name? with
  | some name =>
    refine check_bind h rfl ?_
    refine Course.Takes.bind (peekKind h nofun) fun k t hst ht hk => ?_
    obtain ⟨rfl, rfl⟩ := hk
    exact .pure ht ⟨rfl, rfl⟩
  | none =>
    obtain ⟨v, vs, hspelling, -, -, hname⟩ := exists_spelling e
    have hwords : entrySpelling ⟨none, e, separator⟩ = v :: vs := hspelling
    rw [hwords] at h ⊢
    by_cases hv : v.1 = .identifier
    · -- the next word starts a suffix, or comes after the entry
      obtain ⟨u, us, hnext, hu⟩ : ∃ u us, vs ++ w :: ws = u :: us ∧ u.1 ≠ .equals := by
        cases vs with
        | nil =>
          refine ⟨w, ws, rfl, fun heq => ?_⟩
          rw [heq] at hw
          rcases hw with (hw | hw) | hw <;> cases hw
        | cons u us =>
          refine ⟨u, us ++ w :: ws, rfl, fun heq => ?_⟩
          have hstarts := hname hv u rfl
          rw [heq] at hstarts
          cases hstarts
      rw [List.cons_append, hnext] at h ⊢
      refine check_bind h hv ?_
      refine Course.Takes.bind (peekKind h (by rw [hv]; nofun)) fun k t hst ht hk => ?_
      obtain ⟨rfl, rfl⟩ := hk
      exact .pure ht ⟨beq_false_of_ne hu, rfl⟩
    · exact check_ne_bind h hv (.pure h ⟨rfl, rfl⟩)

omit hexpr in
theorem takes_allocVariable (v : Variable)
    (h : s.stream.Ahead ws) : (Course.resolving scopes).Takes F env s (allocVariable v) ws
      fun id t => t.session.vars.get? id = some v :=
  fun hs => Runs.of_ok rfl ⟨(Course.resolving scopes).declared v hs, h,
    VariableArena.get?_alloc s.session.vars v⟩

theorem spells_entryOf {entries : List (Entry WrittenExpr)}
    (hentries : ∀ f ∈ entries, Proper scopes f.value) :
    (Course.resolving scopes).Spells F env (entryOf expr) entrySpelling entries
      (fun k => k.Separates ∨ k = .rightBrace)
      fun f x t => DenotesEntry scopes t.session.vars f x := by
  intro f hf s w ws hw h
  have hplain : startsSuffix w.1 = false := by
    rcases hw with (hw | hw) | hw <;> rw [hw] <;> rfl
  unfold entryOf
  refine (takes_atNamedEntry hw h).bind fun found t hst ht hfound => ?_
  obtain ⟨rfl, rfl⟩ := hfound
  have hvalue := hentries f hf
  obtain ⟨name?, e, separator⟩ := f
  cases name? with
  | none => exact (hexpr.takes hvalue hplain ht).imp fun x u _ hx => .bare hx
  | some name =>
    refine currentSpan_bind ?_
    refine (identifier ht (by simp)).bind fun x u htu hu hx => ?_
    refine (expect hu rfl (by simp) rfl).bind fun _ v huv hv _ => ?_
    refine (hexpr.takes hvalue hplain hv).bind fun y z hvz hz hy => ?_
    refine (takes_allocVariable _ hz).bind fun id z' hzz' hz' hid => ?_
    refine spanFrom_bind fun span => ?_
    exact Course.Takes.pure hz' (.named ⟨_, hid, hx⟩ (hy.leads hzz'))

/-- The entries of a constructor are read one by one. -/
theorem takes_constructorOf {entries : List (Entry WrittenExpr)} {closed : Bool}
    (hentries : ∀ f ∈ entries, Proper scopes f.value)
    (hws : ws ≠ [])
    (h : s.stream.Ahead ((WrittenExpr.constructor entries closed).spelling ++ ws)) :
    (Course.resolving scopes).Takes F env s (constructorOf expr) ws
      (Spelled scopes (.constructor entries closed)) := by
  rw [spelling, entrySpellings_eq_map, List.cons_append, List.append_assoc] at h
  have hfirst : ∀ f ∈ entries, ∃ v vs, entrySpelling f = v :: vs ∧ v.1 ≠ .rightBrace := by
    intro f _
    obtain ⟨name?, e, separator⟩ := f
    cases name? with
    | some name => exact ⟨_, _, rfl, nofun⟩
    | none =>
      obtain ⟨v, vs, hspelling, -, hv, -⟩ := exists_spelling e
      exact ⟨v, vs, hspelling, hv⟩
  unfold constructorOf
  refine currentSpan_bind ?_
  refine (expect h rfl (by simp) rfl).bind fun _ t hst ht _ => ?_
  refine (braceTail (spells_entryOf hexpr hentries) (fun _ _ _ _ htu hf => hf.mono htu.2.2)
    (fun f => f.separator.2) (fun _ hk => hk) hfirst hws ht).bind ?_
  intro xs u htu hu hxs
  refine spanFrom_bind fun span => ?_
  exact Course.Takes.pure hu (.constructor hxs)

/-! ## Expressions with a given room -/

/-- The reader takes suffixes, if none follows them, and applies them one after the other. -/
def ReadsSuffixes (scopes : ScopeStack) (F : Fault → Prop) (env : ParserEnv)
    (suffixes : Expr → Span → Parser Expr) : Prop :=
  ∀ (s : ParserState) (e : WrittenExpr) (x : Expr) (start : Span)
    (given : List (Suffix WrittenExpr)) (w : Word) (ws : List Word),
    Spelled scopes e x s →
    (∀ suffix ∈ given, ∀ e ∈ suffix.parts, Proper scopes e) → startsSuffix w.1 = false →
    s.stream.Ahead (given.flatMap suffixSpelling ++ w :: ws) →
    (Course.resolving scopes).Takes F env s (suffixes x start) (w :: ws)
      (Spelled scopes (chained e given))

theorem takes_formOf {suffixes : Expr → Span → Parser Expr}
    (hsuffixes : ReadsSuffixes scopes F env suffixes) (he : Proper scopes e)
    (hw : startsSuffix w.1 = false)
    (h : s.stream.Ahead (e.spelling ++ w :: ws)) :
    (Course.resolving scopes).Takes F env s (formOf expr (primaryOf expr suffixes)) (w :: ws)
      (Spelled scopes e) := by
  obtain ⟨operand, given, rfl, hsuffixed⟩ := exists_chained e
  obtain ⟨hproper, hparts, hchained⟩ := he.of_chained
  unfold formOf
  refine currentSpan_bind ?_
  cases hoperand : operand.isOperand with
  | true =>
    rw [spelling_chained, List.append_assoc] at h
    have hprimary : (Course.resolving scopes).Takes F env s (primaryOf expr suffixes) (w :: ws)
        (Spelled scopes (chained operand given)) := by
      unfold primaryOf
      refine currentSpan_bind ?_
      refine Course.Takes.bind
        (takes_operandOf hexpr hproper hoperand hsuffixed (by simp) h) fun x t hst ht hx => ?_
      refine chain (fun _ _ _ hx => hx) ?_
      exact hsuffixes t operand x _ given w ws hx hparts hw ht
    cases operand with
    | reference name | group inner => exact currentKind_bind h hprimary
    | suffixed => cases hsuffixed
    | _ => cases hoperand
  | false =>
    -- no suffix is written after a literal or a constructor
    obtain rfl : given = [] := by
      by_contra hne
      rw [hchained hne] at hoperand
      cases hoperand
    have hne : w :: ws ≠ [] := List.cons_ne_nil w ws
    cases hproper with
    | @number text value hvalue =>
      refine currentKind_bind h ?_
      unfold numberLiteral numberOf
      refine gets_bind ?_
      rw [show s.stream.current.text = text from h.text, hvalue]
      refine Course.Takes.bind (advance h hne rfl) fun _ t hst ht _ => ?_
      exact .pure ht (.number hvalue)
    | @string text =>
      refine currentKind_bind h ?_
      refine Course.Takes.bind (take h hne rfl) fun token t hst ht htoken => ?_
      refine .pure ht ?_
      rw [htoken, show s.stream.current.text = text from h.text]
      exact .string
    | @boolean value =>
      cases value <;>
      · refine currentKind_bind h ?_
        refine Course.Takes.bind (advance h hne rfl) fun _ t hst ht _ => ?_
        exact .pure ht .boolean
    | nil =>
      refine currentKind_bind h ?_
      refine Course.Takes.bind (advance h hne rfl) fun _ t hst ht _ => ?_
      exact .pure ht .nil
    | constructor hentries =>
      refine currentKind_bind h ?_
      exact takes_constructorOf hexpr hentries hne h
    | _ => cases hoperand

end

/-- By induction on how deep expressions may still be nested. -/
theorem readsExprs_expressionWithin (room : Nat) :
    ReadsExprs scopes TooDeepExpression env (expressionWithin room) ∧
      ReadsSuffixes scopes TooDeepExpression env (suffixesWithin room) := by
  induction room with
  | zero =>
    refine ⟨fun es hes e he s w ws hw h => ?_, ?_⟩
    · exact tooDeep _ fun _ => rfl
    · intro s e x start given w ws hx hgiven hw h
      unfold suffixesWithin
      cases given with
      | nil =>
        refine currentKind_bind h ?_
        rw [hw]
        exact .pure h hx
      | cons suffix given =>
        obtain ⟨v, vs, hspelling, hstarts⟩ := exists_suffixSpelling suffix
        rw [List.flatMap_cons, hspelling] at h
        refine currentKind_bind h ?_
        rw [hstarts]
        exact tooDeep _ fun _ => rfl
  | succ room ih =>
    obtain ⟨hexpr, hsuffixes⟩ := ih
    refine ⟨fun es hes e he s w ws hw h => ?_, ?_⟩
    · exact nested _ (fun _ => rfl) h (fun _ _ _ hx => hx)
        (takes_formOf hexpr hsuffixes (hes e he) hw h)
    · intro s e x start given w ws hx hgiven hw h
      unfold suffixesWithin
      cases given with
      | nil =>
        refine currentKind_bind h ?_
        rw [hw]
        exact .pure h hx
      | cons suffix given =>
        obtain ⟨hparts, hrest⟩ := List.forall_mem_cons.1 hgiven
        obtain ⟨v, vs, hspelling, hstarts⟩ := exists_suffixSpelling suffix
        rw [List.flatMap_cons, List.append_assoc] at h
        have hhead := h
        rw [hspelling] at hhead
        refine currentKind_bind hhead ?_
        rw [hstarts]
        refine Course.Takes.bind (deepen _ (fun _ => rfl) h) fun _ t hst ht _ => ?_
        refine (takes_suffixOf hexpr (hx.leads hst) hparts start (by simp)
          ht).bind fun y u htu hu hy => ?_
        exact hsuffixes u _ y start given w ws hy hrest hw hu

/-- **Reading an expression undoes writing it.**  Where the words of an expression come next whose
names mean variables, and after them a word that starts no suffix, that expression is read and the
word after it is left; or constructs are nested too deep. -/
theorem expression_reads_spelling (env : ParserEnv) (s : ParserState) (e : WrittenExpr) (w : Word)
    (ws : List Word) (he : Proper s.scopes e) (hw : startsSuffix w.1 = false)
    (h : s.stream.Ahead (e.spelling ++ w :: ws)) :
    (∃ x t, expression env s = (.ok x, t) ∧ WrittenExpr.Denotes s.scopes t.session.vars e x ∧
      t.stream.Ahead (w :: ws)) ∨
    ∃ f t, expression env s = (.error f, t) ∧ f.cause = .tooDeep nestingLimit "expression" := by
  have hreads : ReadsExprs s.scopes TooDeepExpression env
      (expressionWithin (nestingLimit - s.depth)) := (readsExprs_expressionWithin _).1
  have htakes := hreads.takes he hw h ⟨rfl, rfl, List.prefix_rfl⟩
  cases hrun : expression env s with
  | mk r t =>
    cases r with
    | ok x =>
      obtain ⟨-, hahead, hx⟩ := htakes.ok hrun
      exact .inl ⟨x, t, rfl, hx, hahead⟩
    | error f => exact .inr ⟨f, t, rfl, htakes.error hrun⟩

set_option maxRecDepth 4000 in
/-- A chain of suffixes after a name, with a constructor among the arguments whose bare entry starts
with the name that its named entry has. -/
theorem expression_reads_spelling_chain :
    let env : ParserEnv := ⟨⟨"/", []⟩, .ofPath ⟨"main.lua"⟩ "", fun _ _ => Pure.pure none⟩
    let scopes : ScopeStack := ⟨[{ vars := ⟨[("f", ⟨4⟩), ("g", ⟨7⟩)]⟩ }]⟩
    let entries : List (Entry WrittenExpr) :=
      [⟨some "g", .group (.reference "g"), ⟨.semicolon, .inr rfl⟩⟩,
        ⟨none, .suffixed (.reference "g") (.index .nil), ⟨.comma, .inl rfl⟩⟩]
    let e : WrittenExpr := .suffixed (.suffixed (.suffixed (.reference "f")
      (.call [.number "0x10", .constructor entries true])) (.string "s")) (.member "f")
    let s : ParserState :=
      { stream := .ofWords (.identifier, "f") (e.spelling.tail ++ [Kind.equals.word]), scopes,
        session := {} }
    Proper scopes e ∧ ∃ x t, expression env s = (.ok x, t) ∧
      WrittenExpr.Denotes scopes t.session.vars e x ∧ t.stream.Ahead [Kind.equals.word] := by
  intro env scopes entries e s
  have hproper : Proper scopes e := by
    have hf : scopes.resolveVariable "f" = some ⟨4⟩ := by decide
    have hg : scopes.resolveVariable "g" = some ⟨7⟩ := by decide
    have hnumber : ofText? "0x10" = some (.ofNat 16) := by decide
    have hentries : Proper scopes (.constructor entries true) := by
      refine .constructor (List.forall_mem_cons.2 ⟨?_, List.forall_mem_cons.2 ⟨?_, nofun⟩⟩)
      · exact .group (.reference hg)
      · exact .suffixed (.reference hg) rfl (List.forall_mem_cons.2 ⟨.nil, nofun⟩)
    refine .suffixed (.suffixed (.suffixed (.reference hf) rfl ?_) rfl nofun) rfl nofun
    exact List.forall_mem_cons.2 ⟨.number hnumber, List.forall_mem_cons.2 ⟨hentries, nofun⟩⟩
  refine ⟨hproper, ?_⟩
  rcases expression_reads_spelling env s e Kind.equals.word [] hproper rfl
    (Token.Stream.Ahead.ofWords _ _) with hread | ⟨f, t, hfault, -⟩
  · exact hread
  · have hok : (expression env s).1.isOk = true := by decide +kernel
    rw [hfault] at hok
    cases hok

end Grammar

end TypedLua
