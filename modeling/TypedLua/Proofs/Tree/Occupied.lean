import TypedLua.Proofs.Grammar.Rules
import TypedLua.Proofs.Token.Layout
import TypedLua.Proofs.Tree.Layout

/-!
# Tree.Occupied

The tokens that trees occupy.  A node occupies words of its own and the tokens that its parts
occupy, in the order in which it is written, and it stands from the first of all these tokens to the
last one.  So its tokens can be derived from the rules, and the tree is laid out over the text.

Main statements: `Stmt.IsWritten.derives` and `Block.Occupies.laid`.
-/

namespace TypedLua

open Text
open Token (Kind)
open Rules (Form Derives accepted)

/-- The tokens can be derived from the form. -/
abbrev Rules.Form.Writes (f : Form) (ts : List Token) : Prop :=
  Derives accepted f (ts.map Token.kind)

/-! ## Lists -/

/-- The values occupy the tokens one after the other, with separators between them.  If a list may be
left open, the last value may have one too, and there may be no value. -/
inductive Listed {α : Type} (separators : List Kind) (isOpen : Bool)
    (P : α → List Token → Prop) : List α → List Token → Prop
  | nil : isOpen = true → Listed separators isOpen P [] []
  | one {x : α} {ts : List Token} : P x ts → Listed separators isOpen P [x] ts
  | cons {x : α} {xs : List α} {ts us : List Token} {t : Token} : P x ts → t.kind ∈ separators →
    Listed separators isOpen P xs us → Listed separators isOpen P (x :: xs) (ts ++ t :: us)

/-- The values occupy tokens one after the other, and the words around them are in the gaps. -/
inductive Spread {α : Type} (gap : Kind → Prop) (P : α → List Token → Prop) :
    List α → List Token → Prop
  | nil : Spread gap P [] []
  | skip {xs : List α} {ts : List Token} {t : Token} : gap t.kind → Spread gap P xs ts →
    Spread gap P xs (t :: ts)
  | cons {x : α} {xs : List α} {ts us : List Token} : P x ts → Spread gap P xs us →
    Spread gap P (x :: xs) (ts ++ us)

section

variable {α : Type} {P Q : α → List Token → Prop} {separators : List Kind} {isOpen : Bool}
  {xs : List α} {ts : List Token}

theorem Listed.imp (h : Listed separators isOpen P xs ts)
    (hPQ : ∀ x ∈ xs, ∀ us, P x us → Q x us) : Listed separators isOpen Q xs ts := by
  induction h with
  | nil hopen => exact .nil hopen
  | one hx => exact .one (hPQ _ List.mem_cons_self _ hx)
  | cons hx ht _ ih =>
    obtain ⟨hfirst, hrest⟩ := List.forall_mem_cons.1 hPQ
    exact .cons (hfirst _ hx) ht (ih hrest)

theorem Spread.imp {gap : Kind → Prop} (h : Spread gap P xs ts)
    (hPQ : ∀ x ∈ xs, ∀ us, P x us → Q x us) : Spread gap Q xs ts := by
  induction h with
  | nil => exact .nil
  | skip ht _ ih => exact .skip ht (ih hPQ)
  | cons hx _ ih =>
    obtain ⟨hfirst, hrest⟩ := List.forall_mem_cons.1 hPQ
    exact .cons (hfirst _ hx) (ih hrest)

theorem Spread.ne_nil {gap : Kind → Prop} {x : α} (h : Spread gap P (x :: xs) ts)
    (hP : ∀ {x us}, P x us → us ≠ []) : ts ≠ [] := by
  cases h with
  | skip => exact List.cons_ne_nil _ _
  | cons hx => exact List.append_ne_nil_of_left_ne_nil (hP hx) _

theorem Spread.one {gap : Kind → Prop} {x : α} (hx : P x ts) : Spread gap P [x] ts := by
  rw [← List.append_nil ts]
  exact .cons hx .nil

theorem Spread.gaps (ts : List Token) : Spread (fun _ => True) P [] ts := by
  induction ts with
  | nil => exact .nil
  | cons t ts ih => exact .skip .intro ih

theorem Spread.after (us : List Token)
    (h : Spread (fun _ => True) P xs ts) : Spread (fun _ => True) P xs (us ++ ts) := by
  induction us with
  | nil => exact h
  | cons u us ih => exact .skip .intro ih

theorem Spread.widen {gap : Kind → Prop} (h : Spread gap P xs ts) (us : List Token) :
    Spread (fun _ => True) P xs (ts ++ us) := by
  induction h with
  | nil => exact .gaps us
  | skip _ _ ih => exact .skip .intro ih
  | cons hx _ ih =>
    rw [List.append_assoc]
    exact .cons hx ih

/-- The members of a list are spread over its tokens. -/
theorem Listed.spread (h : Listed separators isOpen P xs ts) :
    Spread (fun _ => True) P xs ts := by
  induction h with
  | nil => exact .nil
  | one hx => exact .one hx
  | cons hx _ _ ih => exact .cons hx (.skip .intro ih)

end

/-! ## Expressions -/

namespace Expr

/-- The kind of word that a literal or a name is. -/
def word? : Expr → Option Kind
  | number .. => some .number
  | string .. => some .string
  | boolean true _ => some .kwTrue
  | boolean false _ => some .kwFalse
  | nil _ => some .kwNil
  | reference .. | typeName .. => some .identifier
  | _ => none

/-- Whether suffixes may follow the expression. -/
def isPrimary : Expr → Bool
  | reference .. | typeName .. | call .. | member .. | index .. | group .. => true
  | _ => false

mutual

/-- The expression occupies the tokens, from the first to the last of which it stands. -/
inductive Occupies (source : String) : Expr → List Token → Prop
  | mk {e : Expr} {ts : List Token} : e.span.Covers source ts → IsWritten source e ts →
    Occupies source e ts

/-- The expression is written with the tokens, some of which its parts occupy. -/
inductive IsWritten (source : String) : Expr → List Token → Prop
  /-- A literal or a name is a word. -/
  | word {e : Expr} {t : Token} : e.word? = some t.kind → IsWritten source e [t]
  /-- A group is an expression in parentheses. -/
  | group {e : Expr} {tag : Tag} {ts : List Token} {t u : Token} : t.kind = .leftParen →
    Occupies source e ts → u.kind = .rightParen →
    IsWritten source (.group e tag) (t :: (ts ++ [u]))
  /-- A property is an object, a dot and a name. -/
  | member {e : Expr} {tag : Tag} {ts : List Token} {t u : Token} : e.isPrimary = true →
    Occupies source e ts → t.kind = .dot → u.kind = .identifier →
    IsWritten source (.member e u.text tag) (ts ++ [t, u])
  /-- An element is an object and a key in brackets. -/
  | index {e key : Expr} {tag : Tag} {ts us : List Token} {t u : Token} : e.isPrimary = true →
    Occupies source e ts → t.kind = .leftBracket → Occupies source key us →
    u.kind = .rightBracket → IsWritten source (.index e key tag) (ts ++ t :: (us ++ [u]))
  /-- A call is a callee and arguments in parentheses. -/
  | call {e : Expr} {es : List Expr} {tag : Tag} {ts us : List Token} {t u : Token} :
    e.isPrimary = true → Occupies source e ts → t.kind = .leftParen →
    Listed [.comma] false (Occupies source) es us → u.kind = .rightParen →
    IsWritten source (.call e es tag) (ts ++ t :: (us ++ [u]))
  /-- There may be no arguments. -/
  | callEmpty {e : Expr} {tag : Tag} {ts : List Token} {t u : Token} : e.isPrimary = true →
    Occupies source e ts → t.kind = .leftParen → u.kind = .rightParen →
    IsWritten source (.call e [] tag) (ts ++ [t, u])
  /-- A string may be the argument, without parentheses. -/
  | callString {e d : Expr} {tag : Tag} {ts : List Token} {t : Token} : e.isPrimary = true →
    Occupies source e ts → t.kind = .string → Occupies source d [t] →
    IsWritten source (.call e [d] tag) (ts ++ [t])
  /-- A constructor is a list of entries in braces. -/
  | constructor {es : List Expr} {tag : Tag} {ts : List Token} {t u : Token} :
    t.kind = .leftBrace → Listed [.comma, .semicolon] true (IsEntry source) es ts →
    u.kind = .rightBrace → IsWritten source (.constructor es tag) (t :: (ts ++ [u]))

/-- The entry of a constructor occupies the tokens. -/
inductive IsEntry (source : String) : Expr → List Token → Prop
  /-- An entry is an expression. -/
  | plain {e : Expr} {ts : List Token} : Occupies source e ts → IsEntry source e ts
  /-- Or it is a name and an expression. -/
  | named {id : VariableId} {e : Expr} {tag : Tag} {ts : List Token} {t u : Token} :
    t.kind = .identifier → u.kind = .equals → Occupies source e ts →
    tag.span.Covers source (t :: u :: ts) → IsEntry source (.entry id e tag) (t :: u :: ts)

end

/-- Values of local variables are written with the tokens, after the variables. -/
inductive AreValues (source : String) : List Expr → List Token → Prop
  /-- There may be no values. -/
  | none {ts : List Token} :
    (Form.seq (.word .kwLocal) (.listOf (.rule .declaration))).Writes ts → AreValues source [] ts
  /-- Values stand after a sign. -/
  | some {es : List Expr} {ts us : List Token} {t : Token} :
    (Form.seq (.word .kwLocal) (.listOf (.rule .declaration))).Writes ts → t.kind = .equals →
    Listed [.comma] false (Occupies source) es us → AreValues source es (ts ++ t :: us)

end Expr

/-! ## Statements -/

/-- How a type is defined. -/
def Rules.Form.definition : Form :=
  .alt (.seq (.word .kwType) (.rule .typeAlias)) (.seq (.word .kwInterface) (.rule .interface))

namespace Stmt

mutual

/-- The statement occupies the tokens, from the first to the last of which it stands. -/
inductive Occupies (source : String) : Stmt → List Token → Prop
  | mk {m : Stmt} {ts : List Token} : m.span.Covers source ts → IsWritten source m ts →
    Occupies source m ts

/-- The statement is written with the tokens, some of which its parts occupy. -/
inductive IsWritten (source : String) : Stmt → List Token → Prop
  /-- A definition of a type. -/
  | definition {name : String} {tag : Tag} {span : Span} {ts : List Token} :
    Form.definition.Writes ts → tag.span.Covers source ts →
    IsWritten source (.expression (.typeAlias name tag) span) ts
  /-- A call. -/
  | call {e : Expr} {span : Span} {ts : List Token} : e.isCall = true → e.Occupies source ts →
    IsWritten source (.expression e span) ts
  /-- Local variables. -/
  | locals {ids : List VariableId} {es : List Expr} {span : Span} {ts : List Token} :
    Expr.AreValues source es ts → IsWritten source (.locals ids es span) ts
  /-- An exported definition of a type. -/
  | exportExpr {name : String} {tag : Tag} {span : Span} {ts : List Token} {t : Token} :
    t.kind = .kwExport → Form.definition.Writes ts → tag.span.Covers source ts →
    IsWritten source (.exportExpr (.typeAlias name tag) span) (t :: ts)
  /-- Exported variables. -/
  | exportStmt {ids : List VariableId} {es : List Expr} {item span : Span} {ts : List Token}
    {t : Token} : t.kind = .kwExport → Expr.AreValues source es ts → item.Covers source ts →
    IsWritten source (.exportStmt (.locals ids es item) span) (t :: ts)
  /-- A variable that is defined elsewhere. -/
  | externVariable {id : VariableId} {span : Span} {ts : List Token} :
    (Form.seq (.word .kwExtern) (.rule .external)).Writes ts →
    IsWritten source (.externVariable id span) ts
  /-- A function that is defined elsewhere, perhaps after the word `function`. -/
  | externFunction {head : Prototype} {span : Span} {ts us : List Token} {t : Token} :
    t.kind = .kwExtern → (Form.opt (.word .kwFunction)).Writes ts →
    (Form.seq (.word .identifier) (.rule .prototypeRest)).Writes us →
    head.tag.span.Covers source us →
    IsWritten source (.externFunction head span) (t :: (ts ++ us))
  /-- Names in braces, and where they are taken from. -/
  | imports {es : List Expr} {m : Module} {span : Span} {ts : List Token} {t u v w x : Token} :
    t.kind = .kwImport → u.kind = .leftBrace → Listed [.comma] false
      (fun e ts => e.Occupies source ts ∧ (Form.word .identifier).Writes ts) es ts →
    v.kind = .rightBrace → w.kind = .kwFrom → x.kind = .string →
    IsWritten source (.imports es m span) (t :: u :: (ts ++ [v, w, x]))
  /-- Statements between two words. -/
  | block {body : List Stmt} {scope : Scope} {span : Span} {ts : List Token} {t u : Token} :
    t.kind = .kwDo → Spread (· = .semicolon) (Occupies source) body ts → u.kind = .kwEnd →
    IsWritten source (.block ⟨body, scope, span⟩) (t :: (ts ++ [u]))

end

end Stmt

/-- The outermost block of a text occupies its tokens, less the last one.  A block without statements
stands at the first of all tokens. -/
def Block.Occupies (source : String) (b : Block) (ts : List Token) (last : Token) : Prop :=
  Spread (· = .semicolon) (Stmt.Occupies source) b.body ts ∧
    b.span.Covers source (if b.body.isEmpty then (ts ++ [last]).take 1 else ts)

/-! ## What is derived from the rules -/

namespace Rules

variable {f g : Form} {ks ls : List Kind}

/-- Repetitions in a row are a repetition. -/
theorem Derives.many_append (h : Derives accepted (.many f) ks)
    (h' : Derives accepted (.many f) ls) : Derives accepted (.many f) (ks ++ ls) := by
  generalize hg : Form.many f = g at h
  induction h with
  | nil =>
    cases hg
    exact h'
  | cons hf _ _ ih =>
    cases hg
    rw [List.append_assoc]
    exact .cons hf (ih rfl)
  | _ => cases hg

namespace Form.Writes

variable {ts us : List Token} {t : Token} {k : Kind}

theorem word (h : t.kind = k) : (Form.word k).Writes [t] :=
  h ▸ Derives.word t.kind

theorem seq (hf : f.Writes ts) (hg : g.Writes us) : (Form.seq f g).Writes (ts ++ us) := by
  show Derives accepted _ _
  rw [List.map_append]
  exact .seq hf hg

theorem seq_nil (hf : f.Writes ts) (hg : g.Writes []) : (Form.seq f g).Writes ts := by
  have h := hf.seq hg
  rwa [List.append_nil] at h

/-- A suffix may follow a name or group with its suffixes. -/
theorem suffixed (h : (Form.rule .primary).Writes ts) (hsuffix : (Form.rule .suffix).Writes us) :
    (Form.rule .primary).Writes (ts ++ us) := by
  cases h with
  | rule h =>
    obtain ⟨xs, ys, hts, hoperand, hmany⟩ := Derives.seq_iff.1 h
    refine .rule (Derives.seq_iff.2 ⟨xs, ys ++ us.map Token.kind, ?_, hoperand, ?_⟩)
    · rw [List.map_append, hts, List.append_assoc]
    · rw [← List.append_nil (us.map Token.kind)]
      exact hmany.many_append (.cons hsuffix .nil)

/-- If the suffix makes a call, that is a call. -/
theorem called (h : (Form.rule .primary).Writes ts)
    (hsuffix : (Form.rule .callSuffix).Writes us) : (Form.rule .call).Writes (ts ++ us) := by
  cases h with
  | rule h =>
    obtain ⟨xs, ys, hts, hoperand, hmany⟩ := Derives.seq_iff.1 h
    refine .rule (Derives.seq_iff.2 ⟨xs, ys ++ us.map Token.kind, ?_, hoperand, .seq hmany hsuffix⟩)
    rw [List.map_append, hts, List.append_assoc]

/-- An extern may be the head of a function, perhaps after the word `function`. -/
theorem externFunction (hhead : (Form.seq (.word .identifier) (.rule .prototypeRest)).Writes us)
    (ht : t.kind = .kwExtern) (hfunction : (Form.opt (.word .kwFunction)).Writes ts) :
    (Form.seq (.word .kwExtern) (.rule .external)).Writes (t :: (ts ++ us)) := by
  have hexternal : (Form.rule .external).Writes (ts ++ us) :=
    .rule (hfunction.seq (hhead.seq_imp fun _ => .left))
  exact (word ht).seq hexternal

end Form.Writes

end Rules

section

variable {α : Type} {f : Form} {xs : List α} {ts : List Token}

/-- A list with commas is written as the rules say. -/
theorem Listed.listOf (h : Listed [.comma] false (fun _ ts => f.Writes ts) xs ts) :
    (Form.listOf f).Writes ts := by
  induction h with
  | nil hopen => cases hopen
  | one hx => exact hx.seq_nil .nil
  | @cons _ _ ts us t hx ht _ ih =>
    have hcomma := Rules.Form.Writes.word (List.mem_singleton.1 ht)
    have hrest : (Form.seq (.word .comma) _).Writes (t :: us) := hcomma.seq ih
    exact hx.seq (.many_of_opt (.present hrest))

/-- So is a list of entries, whatever separates them. -/
theorem Listed.entries
    (h : Listed [.comma, .semicolon] true (fun _ ts => f.Writes ts) xs ts) :
    (Form.entries .separator f).Writes ts := by
  have hsep : ∀ t : Token, t.kind ∈ [Kind.comma, .semicolon] → Form.separator.Writes [t] := by
    intro t ht
    rcases List.mem_cons.1 ht with ht | ht
    · exact .left (Rules.Form.Writes.word ht)
    · exact .right (Rules.Form.Writes.word (List.mem_singleton.1 ht))
  induction h with
  | nil => exact .absent
  | one hx => exact .entries_of_opt (hx.seq_nil .absent)
  | @cons _ _ ts us t hx ht _ ih =>
    have hrest : (Form.seq .separator _).Writes (t :: us) := (hsep t ht).seq ih
    exact .entries_of_opt (hx.seq (.present hrest))

end

variable {source : String} {ts : List Token}

namespace Expr

open Rules.Form (Writes)

/-- The span of an expression covers its tokens. -/
theorem Occupies.place {e : Expr} : e.Occupies source ts → e.span.Covers source ts
  | .mk hspan _ => hspan

/-- The tokens of an expression are what it is written with. -/
theorem Occupies.written {e : Expr} : e.Occupies source ts → e.IsWritten source ts
  | .mk _ h => h

/-- The tokens of an expression can be derived from the rules. -/
theorem IsWritten.forms {e : Expr} {ts : List Token} (h : e.IsWritten source ts) :
    (e.isCall = true → (Form.rule .call).Writes ts) ∧
      (e.isPrimary = true → (Form.rule .primary).Writes ts) ∧ (Form.rule .expr).Writes ts := by
  -- a name or group with suffixes is an expression, and with a suffix that makes a call it is one
  have hexpr : ∀ {ts}, (Form.rule .primary).Writes ts → (Form.rule .expr).Writes ts :=
    fun h => .rule (.any 6 rfl h)
  have hprimary : ∀ {ts}, (Form.rule .operand).Writes ts → (Form.rule .primary).Writes ts :=
    fun h => .rule (h.seq_nil .nil)
  have hsuffixed : ∀ {ts us}, (Form.rule .primary).Writes ts → (Form.rule .suffix).Writes us →
      (Form.rule .primary).Writes (ts ++ us) ∧ (Form.rule .expr).Writes (ts ++ us) :=
    fun h hsuffix => ⟨h.suffixed hsuffix, hexpr (h.suffixed hsuffix)⟩
  have hcalled : ∀ {ts us}, (Form.rule .primary).Writes ts → (Form.rule .callSuffix).Writes us →
      (Form.rule .call).Writes (ts ++ us) ∧ (Form.rule .primary).Writes (ts ++ us) ∧
        (Form.rule .expr).Writes (ts ++ us) :=
    fun h hsuffix => ⟨h.called hsuffix, hsuffixed h (.rule (.left hsuffix))⟩
  cases h with
  | @word e t hword =>
    cases e with
    | number => exact ⟨nofun, nofun, .rule (.any 0 rfl (Writes.word (Option.some.inj hword).symm))⟩
    | string => exact ⟨nofun, nofun, .rule (.any 1 rfl (Writes.word (Option.some.inj hword).symm))⟩
    | boolean value =>
      cases value with
      | true => exact ⟨nofun, nofun, .rule (.any 2 rfl (Writes.word (Option.some.inj hword).symm))⟩
      | false => exact ⟨nofun, nofun, .rule (.any 3 rfl (Writes.word (Option.some.inj hword).symm))⟩
    | nil => exact ⟨nofun, nofun, .rule (.any 4 rfl (Writes.word (Option.some.inj hword).symm))⟩
    | reference | typeName =>
      have hname : (Form.rule .operand).Writes [t] :=
        .rule (.left (Writes.word (Option.some.inj hword).symm))
      exact ⟨nofun, fun _ => hprimary hname, hexpr (hprimary hname)⟩
    | _ => cases hword
  | group ht he hu =>
    have hgroup : (Form.rule .operand).Writes _ :=
      .rule (.right ((Writes.word ht).seq (he.written.forms.2.2.seq (.word hu))))
    exact ⟨nofun, fun _ => hprimary hgroup, hexpr (hprimary hgroup)⟩
  | member hprimary he ht hu =>
    have hdot := (Writes.word ht).seq (.word hu)
    have h := hsuffixed (he.written.forms.2.1 hprimary) (.rule (.any 1 rfl hdot))
    exact ⟨nofun, fun _ => h.1, h.2⟩
  | index hprimary he ht hkey hu =>
    have hbrackets := (Writes.word ht).seq (hkey.written.forms.2.2.seq (.word hu))
    have h := hsuffixed (he.written.forms.2.1 hprimary) (.rule (.any 2 rfl hbrackets))
    exact ⟨nofun, fun _ => h.1, h.2⟩
  | call hprimary he ht hes hu =>
    have hlist := (hes.imp fun d _ us hd => hd.written.forms.2.2).listOf
    have hparens := (Writes.word ht).seq (Writes.seq (.present hlist) (.word hu))
    have h := hcalled (he.written.forms.2.1 hprimary) (.rule (.left hparens))
    exact ⟨fun _ => h.1, fun _ => h.2.1, h.2.2⟩
  | callEmpty hprimary he ht hu =>
    have hnone : (Form.opt (.listOf (.rule .expr))).Writes [] := .absent
    have hparens := (Writes.word ht).seq (hnone.seq (.word hu))
    have h := hcalled (he.written.forms.2.1 hprimary) (.rule (.left hparens))
    exact ⟨fun _ => h.1, fun _ => h.2.1, h.2.2⟩
  | callString hprimary he ht _ =>
    have h := hcalled (he.written.forms.2.1 hprimary) (.rule (.right (Writes.word ht)))
    exact ⟨fun _ => h.1, fun _ => h.2.1, h.2.2⟩
  | constructor ht hes hu =>
    have hentries : Listed _ true (fun _ ts => (Form.rule .entry).Writes ts) _ _ :=
      hes.imp fun d hmem us hd => by
        have hlt := List.sizeOf_lt_of_mem hmem
        cases hd with
        | plain hd => exact .rule (.right hd.written.forms.2.2)
        | @named id value tag _ _ _ ht hu hd _ =>
          have hsize := entry.sizeOf_spec id value tag ▸ hlt
          exact .rule (.left ((Writes.word ht).seq ((Writes.word hu).seq hd.written.forms.2.2)))
    have hbraces := (Writes.word ht).seq (hentries.entries.seq (.word hu))
    exact ⟨nofun, nofun, .rule (.any 5 rfl (.rule hbraces))⟩
termination_by e

end Expr

section

open Rules.Form (Writes)

/-- Statements with semicolons between them are a block. -/
theorem Spread.block {α : Type} {xs : List α}
    (h : Spread (· = .semicolon) (fun _ ts => (Form.rule .statement).Writes ts) xs ts) :
    (Form.rule .block).Writes ts := by
  refine .rule ?_
  induction h with
  | nil => exact .nil
  | skip ht _ ih => exact .cons (.right (Writes.word ht)) ih
  | cons hx _ ih =>
    rw [List.map_append]
    exact .cons (.left hx) ih

/-- Tokens that hold the values of a declaration are a declaration. -/
theorem Expr.AreValues.derives {es : List Expr} (h : Expr.AreValues source es ts) :
    (Form.seq (.word .kwLocal) (.rule .locals)).Writes ts := by
  -- the list of values belongs to what follows the word
  have hlocals : ∀ {ts us}, (Form.seq (.word .kwLocal) (.listOf (.rule .declaration))).Writes ts →
      (Form.opt (.seq (.word .equals) (.listOf (.rule .expr)))).Writes us →
      (Form.seq (.word .kwLocal) (.rule .locals)).Writes (ts ++ us) := by
    intro ts us hts hus
    obtain ⟨xs, ys, hmap, hword, hlist⟩ := Derives.seq_iff.1 hts
    refine Derives.seq_iff.2 ⟨xs, ys ++ us.map Token.kind, ?_, hword, .rule (.seq hlist hus)⟩
    rw [List.map_append, hmap, List.append_assoc]
  cases h with
  | none hts =>
    rw [← List.append_nil ts]
    exact hlocals hts .absent
  | some hts ht hes =>
    have hvalues := (hes.imp fun _ _ _ he => he.written.forms.2.2).listOf
    exact hlocals hts (.present ((Writes.word ht).seq hvalues))

/-- The span of a statement covers its tokens. -/
theorem Stmt.Occupies.place {m : Stmt} : m.Occupies source ts → m.span.Covers source ts
  | .mk hspan _ => hspan

theorem Stmt.Occupies.written {m : Stmt} : m.Occupies source ts → m.IsWritten source ts
  | .mk _ h => h

/-- The tokens of a statement can be derived from the rules. -/
theorem Stmt.IsWritten.derives {m : Stmt} {ts : List Token} (h : m.IsWritten source ts) :
    (Form.rule .statement).Writes ts := by
  cases h with
  | definition h _ =>
    cases h with
    | left h => exact .rule (.any 0 rfl h)
    | right h => exact .rule (.any 1 rfl h)
  | call hcall he => exact .rule (.any 7 rfl (he.written.forms.1 hcall))
  | locals h => exact .rule (.any 2 rfl h.derives)
  | @exportExpr _ _ _ ts t ht h _ =>
    have hexports : (Form.rule .exports).Writes ts := by
      cases h with
      | left h => exact .rule (.any 0 rfl h)
      | right h => exact .rule (.any 1 rfl h)
    exact .rule (.any 4 rfl ((Writes.word ht).seq hexports))
  | exportStmt ht h _ =>
    have hexports : (Form.rule .exports).Writes _ := .rule (.any 2 rfl h.derives)
    exact .rule (.any 4 rfl ((Writes.word ht).seq hexports))
  | externVariable h => exact .rule (.any 5 rfl h)
  | externFunction ht hfunction hhead _ => exact .rule (.any 5 rfl (hhead.externFunction ht hfunction))
  | imports ht hu hes hv hw hx =>
    have hnames := (hes.imp fun _ _ _ he => he.2).listOf
    have hend := (Writes.word hv).seq ((Writes.word hw).seq (.word hx))
    have hrest := (Writes.word hu).seq (hnames.seq hend)
    have himports : (Form.rule .imports).Writes _ := .rule hrest
    exact .rule (.any 3 rfl ((Writes.word ht).seq himports))
  | block ht hbody hu =>
    have hblock := (hbody.imp fun m _ us hm => hm.written.derives).block
    exact .rule (.any 6 rfl ((Writes.word ht).seq (hblock.seq (.word hu))))
termination_by m

end

/-! ## Where trees stand -/

/-- What is spread over the tokens of a span stands inside of it, in order. -/
theorem Text.Span.Covers.row {α : Type} {place : α → Span} {L : α → Prop}
    {R : Nat → List α → Nat → Prop} {gap : Kind → Prop} {span : Span} {xs : List α}
    {ts : List Token} (hspan : span.Covers source ts)
    (h : Spread gap (fun x us => L x ∧ (place x).Covers source us) xs ts)
    (hnil : ∀ {first last}, first ≤ last → R first [] last)
    (hcons : ∀ {first last x xs}, L x → first ≤ (place x).start.offset →
      R (place x).stop.offset xs last → R first (x :: xs) last) :
    R span.start.offset xs span.stop.offset := by
  suffices hrow : ∀ {first last : Nat},
      (ts.Pairwise fun t u => t.span.stop.offset ≤ u.span.start.offset) →
      (∀ t ∈ ts, first ≤ t.span.start.offset) → (∀ t ∈ ts, t.span.stop.offset ≤ last) →
      first ≤ last → R first xs last from
    hrow hspan.tokens.pairwise (fun _ ht => (hspan.bounds ht).1)
      (fun _ ht => (hspan.bounds ht).2) hspan.isIn.le
  clear hspan
  induction h with
  | nil => exact fun _ _ _ hle => hnil hle
  | skip _ _ ih =>
    intro first last hts hfirst hlast hle
    exact ih (List.pairwise_cons.1 hts).2 (List.forall_mem_cons.1 hfirst).2
      (List.forall_mem_cons.1 hlast).2 hle
  | cons hx _ ih =>
    intro first last hts hfirst hlast _
    obtain ⟨-, hus, hbefore⟩ := List.pairwise_append.1 hts
    obtain ⟨hlast, hrest⟩ := List.forall_mem_append.1 hlast
    refine hcons hx.1 (hx.2.le_start (List.forall_mem_append.1 hfirst).1) (ih hus ?_ hrest ?_)
    · exact fun u hu => hx.2.stop_le fun t ht => hbefore t ht u hu
    · exact hx.2.stop_le hlast

/-- Expressions that are spread over tokens are in order inside their span. -/
theorem Text.Span.Covers.laidAll {span : Span} {es : List Expr} {ts : List Token}
    (hspan : span.Covers source ts) (h : Spread (fun _ => True)
      (fun e us => e.Laid (Span.IsIn source) ∧ e.span.Covers source us) es ts) :
    Expr.LaidAll (Span.IsIn source) span.start.offset es span.stop.offset :=
  hspan.row h id fun hlaid hle hrest => ⟨hlaid, hle, hrest⟩

/-- The parts of an expression are spread over its tokens. -/
theorem Expr.IsWritten.parts {e : Expr} (h : e.IsWritten source ts) :
    Spread (fun _ => True) (IsEntry source) e.parts ts := by
  cases h with
  | @word e t hword =>
    have hnone : e.parts = [] := by
      cases e with
      | call | index | member | group | entry | constructor => cases hword
      | _ => rfl
    rw [hnone]
    exact .gaps [t]
  | group _ he => exact .skip .intro (.cons (.plain he) (.gaps _))
  | member _ he | callEmpty _ he => exact .cons (.plain he) (.gaps _)
  | index _ he _ hkey => exact .cons (.plain he) (.skip .intro (.cons (.plain hkey) (.gaps _)))
  | call _ he _ hes =>
    have hspread := (hes.imp fun d _ us hd => IsEntry.plain hd).spread
    exact .cons (.plain he) (.skip .intro (hspread.widen _))
  | callString _ he _ hd => exact .cons (.plain he) (.one (.plain hd))
  | constructor _ hes => exact .skip .intro (hes.spread.widen _)

theorem Expr.IsEntry.parts {e : Expr} (h : e.IsEntry source ts) :
    e.span.Covers source ts ∧ Spread (fun _ => True) (IsEntry source) e.parts ts := by
  cases h with
  | plain he => exact ⟨he.place, he.written.parts⟩
  | named _ _ he hspan => exact ⟨hspan, .skip .intro (.skip .intro (.one (.plain he)))⟩

/-- What is written with tokens of the text is laid out in the text. -/
theorem Expr.IsEntry.laid {e : Expr} {ts : List Token} (h : e.IsEntry source ts) :
    e.Laid (Span.IsIn source) := by
  obtain ⟨hspan, hparts⟩ := h.parts
  refine .of_parts hspan.isIn (hspan.laidAll (hparts.imp fun d hmem us hd => ?_))
  have hlt := e.sizeOf_lt_of_mem_parts hmem
  exact ⟨hd.laid, hd.parts.1⟩
termination_by e

theorem Expr.Occupies.stands {e : Expr} (h : e.Occupies source ts) :
    e.Laid (Span.IsIn source) ∧ e.span.Covers source ts := ⟨(IsEntry.plain h).laid, h.place⟩

theorem Expr.AreValues.laidAll {es : List Expr} {span : Span} {ts : List Token}
    (h : Expr.AreValues source es ts) (hspan : span.Covers source ts) :
    Expr.LaidAll (Span.IsIn source) span.start.offset es span.stop.offset := by
  refine hspan.laidAll ?_
  cases h with
  | none => exact .gaps ts
  | some _ _ hes =>
    have hspread := (hes.imp fun _ _ _ hd => hd.stands).spread
    exact .after _ (.skip .intro hspread)

/-- So is a statement. -/
theorem Stmt.IsWritten.laid {m : Stmt} {ts : List Token} (h : m.IsWritten source ts)
    (hspan : m.span.Covers source ts) : m.Laid (Span.IsIn source) := by
  -- a part that occupies the last of the tokens stands inside
  have hpart : ∀ {e : Expr} {us vs : List Token}, us ++ vs = ts → e.Laid (Span.IsIn source) →
      e.span.Covers source vs →
      Expr.LaidAll (Span.IsIn source) m.span.start.offset [e] m.span.stop.offset := by
    rintro e us vs rfl hlaid hcovers
    exact hspan.laidAll (.after us (.one ⟨hlaid, hcovers⟩))
  cases h with
  | definition _ htag => exact ⟨hspan.isIn, hpart (List.nil_append _) htag.isIn htag⟩
  | call _ he => exact ⟨hspan.isIn, hpart (List.nil_append _) he.stands.1 he.place⟩
  | locals hes => exact ⟨hspan.isIn, hes.laidAll hspan⟩
  | exportExpr _ _ htag => exact ⟨hspan.isIn, hpart (List.singleton_append ..) htag.isIn htag⟩
  | exportStmt _ hes hitem =>
    have hin := hspan.inside hitem (by simp)
    exact ⟨hspan.isIn, ⟨hitem.isIn, hes.laidAll hitem⟩, hin.1, hin.2⟩
  | externVariable => exact hspan.isIn
  | externFunction _ _ _ htag => exact ⟨hspan.isIn, hpart (List.cons_append ..) htag.isIn htag⟩
  | imports _ _ hes =>
    have hspread := (hes.imp fun _ _ _ hd => hd.1.stands).spread
    exact ⟨hspan.isIn, hspan.laidAll (.skip .intro (.skip .intro (hspread.widen _)))⟩
  | block ht hbody hu =>
    have hspread := hbody.imp fun m _ us hm => And.intro (hm.written.laid hm.place) hm.place
    have hrow := hspan.row (R := Stmt.LaidAll (Span.IsIn source))
      (.skip .intro (hspread.widen [_])) id fun hlaid hle hrest => ⟨hlaid, hle, hrest⟩
    exact ⟨hspan.isIn, hrow⟩
termination_by m

/-- A block that occupies the tokens of a text is laid out over it. -/
theorem Block.Occupies.laid {b : Block} {ts : List Token} {last : Token}
    (h : b.Occupies source ts last) : b.Laid (Span.IsIn source) := by
  obtain ⟨body, scope, span⟩ := b
  obtain ⟨hbody, hspan⟩ := h
  cases body with
  | nil => exact ⟨hspan.isIn, hspan.isIn.le⟩
  | cons m ms =>
    have hspan : span.Covers source ts := hspan
    have hspread := hbody.imp fun m _ us hm => And.intro (hm.written.laid hm.place) hm.place
    exact ⟨hspan.isIn, hspan.row hspread id fun hlaid hle hrest => ⟨hlaid, hle, hrest⟩⟩

end TypedLua
