import Mathlib.Data.List.Chain
import TypedLua.Token.Kind

/-!
# Grammar.Rules

The rules of the language, and what can be derived from them.  A form says how something is written
in terms of words and of other rules; words are derived from it if they can be taken apart that way.
There are two sets of rules, `documented` and `accepted`.  They differ in the parameters of
functions, after the last of which the second set allows a comma.

Main statement: `documented_iff_apart`, a block of the second set is one of the first set exactly if
no comma comes directly before a closing parenthesis.
-/

namespace TypedLua.Rules

open Token (Kind)

/-! ## Forms -/

/-- What there are rules for. -/
inductive Category where
  /-- Statements and semicolons. -/
  | block
  /-- A statement. -/
  | statement
  /-- The definition of a type, after the word `type`. -/
  | typeAlias
  /-- The definition of an interface, after the word `interface`. -/
  | interface
  /-- Local variables, after the word `local`. -/
  | locals
  /-- A name with an optional type. -/
  | declaration
  /-- Names and a module, after the word `import`. -/
  | imports
  /-- What is exported, after the word `export`. -/
  | exports
  /-- What is defined elsewhere, after the word `extern`. -/
  | external
  /-- The head of a function, after its name. -/
  | prototypeRest
  /-- A parameter of a function. -/
  | parameter
  /-- A type. -/
  | type
  /-- A type without array suffixes. -/
  | base
  /-- An arrow and what a function returns. -/
  | returns
  /-- Types with commas between them. -/
  | typeList
  /-- A property of a table or interface. -/
  | property
  /-- An expression. -/
  | expr
  /-- A constructor. -/
  | table
  /-- An entry of a constructor. -/
  | entry
  /-- A name or group with suffixes. -/
  | primary
  /-- A name or group. -/
  | operand
  /-- A suffix. -/
  | suffix
  /-- A suffix that makes a call. -/
  | callSuffix
  /-- A name or group with suffixes, the last of which makes a call. -/
  | call
deriving DecidableEq

/-- How something is written. -/
inductive Form where
  /-- Not at all. -/
  | empty
  /-- As a word of the given kind. -/
  | word (k : Kind)
  /-- As a rule says. -/
  | rule (c : Category)
  /-- One form and then another. -/
  | seq (f g : Form)
  /-- One of two forms. -/
  | alt (f g : Form)
  /-- In a form, or not at all. -/
  | opt (f : Form)
  /-- In a form, any number of times. -/
  | many (f : Form)

namespace Form

/-- Several forms in a row. -/
def all : List Form → Form
  | [] => empty
  | [f] => f
  | f :: g :: gs => seq f (all (g :: gs))

/-- One of several forms. -/
def any (f : Form) : List Form → Form
  | [] => f
  | g :: gs => alt f (any g gs)

/-- A form, at least once, with another one in between. -/
def separated (sep f : Form) : Form := seq f (many (seq sep f))

/-- A form, at least once, with commas in between. -/
def listOf (f : Form) : Form := separated (word .comma) f

/-- A form any number of times, with another one in between and perhaps at the end. -/
def entries (sep f : Form) : Form := opt (seq (separated sep f) (opt sep))

/-- What separates entries in braces. -/
def separator : Form := alt (word .comma) (word .semicolon)

/-- Entries in braces. -/
def braces (f : Form) : Form := all [word .leftBrace, entries separator f, word .rightBrace]

end Form

open Form

/-- The rules of the language. -/
def documented : Category → Form
  | .block => many (alt (rule .statement) (word .semicolon))
  | .statement => any (seq (word .kwType) (rule .typeAlias))
      [seq (word .kwInterface) (rule .interface), seq (word .kwLocal) (rule .locals),
       seq (word .kwImport) (rule .imports), seq (word .kwExport) (rule .exports),
       seq (word .kwExtern) (rule .external), all [word .kwDo, rule .block, word .kwEnd],
       rule .call]
  | .typeAlias => all [word .identifier, word .equals, rule .type]
  | .interface => all [word .identifier,
      opt (all [word .less, listOf (word .identifier), word .greater]), braces (rule .property)]
  | .locals => seq (listOf (rule .declaration)) (opt (seq (word .equals) (listOf (rule .expr))))
  | .declaration => seq (word .identifier) (opt (seq (word .colon) (rule .type)))
  | .imports => all [word .leftBrace, listOf (word .identifier), word .rightBrace, word .kwFrom,
      word .string]
  | .exports => any (seq (word .kwType) (rule .typeAlias))
      [seq (word .kwInterface) (rule .interface), seq (word .kwLocal) (rule .locals)]
  | .external => all [opt (word .kwFunction), word .identifier,
      alt (rule .prototypeRest) (seq (word .colon) (rule .type))]
  | .prototypeRest => all [word .leftParen, opt (listOf (rule .parameter)), word .rightParen,
      opt (seq (word .colon) (rule .typeList))]
  | .parameter => alt (rule .declaration)
      (seq (word .ellipsis) (opt (seq (word .colon) (rule .type))))
  | .type => seq (rule .base) (many (seq (word .leftBracket) (word .rightBracket)))
  | .base => any (seq (word .identifier) (opt (all [word .less, rule .typeList, word .greater])))
      [word .kwNil, braces (rule .property),
       all [word .leftParen, opt (rule .typeList), word .rightParen, opt (rule .returns)],
       seq (word .ellipsis) (opt (rule .type))]
  | .returns => seq (word .arrow) (alt (rule .type)
      (all [word .leftParen, rule .typeList, word .rightParen, opt (rule .returns)]))
  | .typeList => listOf (rule .type)
  | .property => all [word .identifier, opt (word .question), word .colon, rule .type]
  | .expr => any (word .number)
      [word .string, word .kwTrue, word .kwFalse, word .kwNil, rule .table, rule .primary]
  | .table => braces (rule .entry)
  | .entry => alt (all [word .identifier, word .equals, rule .expr]) (rule .expr)
  | .primary => seq (rule .operand) (many (rule .suffix))
  | .operand => alt (word .identifier) (all [word .leftParen, rule .expr, word .rightParen])
  | .suffix => any (rule .callSuffix) [seq (word .dot) (word .identifier),
      all [word .leftBracket, rule .expr, word .rightBracket]]
  | .callSuffix => alt (all [word .leftParen, opt (listOf (rule .expr)), word .rightParen])
      (word .string)
  | .call => all [rule .operand, many (rule .suffix), rule .callSuffix]

/-- The rules that readers go by: a comma may follow the last parameter of a function. -/
def accepted : Category → Form
  | .prototypeRest => all [word .leftParen, entries (word .comma) (rule .parameter),
      word .rightParen, opt (seq (word .colon) (rule .typeList))]
  | c => documented c

/-! ## Derivations -/

/-- The words can be derived from the form by the rules. -/
inductive Derives (rules : Category → Form) : Form → List Kind → Prop
  /-- Nothing. -/
  | empty : Derives rules .empty []
  /-- A word. -/
  | word (k : Kind) : Derives rules (.word k) [k]
  /-- What a rule says. -/
  | rule {c : Category} {ks : List Kind} : Derives rules (rules c) ks → Derives rules (.rule c) ks
  /-- One form and then another. -/
  | seq {f g : Form} {ks ls : List Kind} : Derives rules f ks → Derives rules g ls →
    Derives rules (.seq f g) (ks ++ ls)
  /-- The first of two forms. -/
  | left {f g : Form} {ks : List Kind} : Derives rules f ks → Derives rules (.alt f g) ks
  /-- The second of two forms. -/
  | right {f g : Form} {ks : List Kind} : Derives rules g ks → Derives rules (.alt f g) ks
  /-- An optional form that is not there. -/
  | absent {f : Form} : Derives rules (.opt f) []
  /-- An optional form that is there. -/
  | present {f : Form} {ks : List Kind} : Derives rules f ks → Derives rules (.opt f) ks
  /-- A form repeated no times. -/
  | nil {f : Form} : Derives rules (.many f) []
  /-- A form repeated once more. -/
  | cons {f : Form} {ks ls : List Kind} : Derives rules f ks → Derives rules (.many f) ls →
    Derives rules (.many f) (ks ++ ls)

namespace Derives

variable {rules : Category → Form} {f g sep : Form} {ks : List Kind}

theorem seq_iff : Derives rules (.seq f g) ks ↔
    ∃ xs ys, ks = xs ++ ys ∧ Derives rules f xs ∧ Derives rules g ys := by
  constructor
  · intro h
    cases h with
    | seq hf hg => exact ⟨_, _, rfl, hf, hg⟩
  · rintro ⟨xs, ys, rfl, hf, hg⟩
    exact .seq hf hg

theorem opt_iff : Derives rules (.opt f) ks ↔ ks = [] ∨ Derives rules f ks := by
  constructor
  · intro h
    cases h with
    | absent => exact .inl rfl
    | present hf => exact .inr hf
  · rintro (rfl | hf)
    · exact .absent
    · exact .present hf

theorem any {fs : List Form} (n : Nat) (hn : (f :: fs)[n]? = some g) (h : Derives rules g ks) :
    Derives rules (.any f fs) ks := by
  induction fs generalizing f n with
  | nil =>
    cases n with
    | zero =>
      cases hn
      exact h
    | succ n => cases hn
  | cons f' fs ih =>
    cases n with
    | zero =>
      cases hn
      exact .left h
    | succ n => exact .right (ih n hn)

theorem seq_imp {g' : Form} (hg : ∀ ks, Derives rules g ks → Derives rules g' ks)
    (h : Derives rules (.seq f g) ks) : Derives rules (.seq f g') ks := by
  obtain ⟨xs, ys, rfl, hxs, hys⟩ := seq_iff.1 h
  exact .seq hxs (hg ys hys)

theorem opt_imp (hfg : ∀ ks, Derives rules f ks → Derives rules g ks)
    (h : Derives rules (.opt f) ks) : Derives rules (.opt g) ks := by
  rcases opt_iff.1 h with rfl | h
  · exact .absent
  · exact .present (hfg ks h)

theorem opt_of_alt (h : Derives rules (.alt f .empty) ks) : Derives rules (.opt f) ks := by
  cases h with
  | left hf => exact .present hf
  | right hempty =>
    cases hempty
    exact .absent

theorem many_of_opt (h : Derives rules (.opt (.seq sep (.separated sep f))) ks) :
    Derives rules (.many (.seq sep f)) ks := by
  rcases opt_iff.1 h with rfl | h
  · exact .nil
  obtain ⟨xs, _, rfl, hsep, hrest⟩ := seq_iff.1 h
  obtain ⟨ys, zs, rfl, hf, hmany⟩ := seq_iff.1 hrest
  rw [← List.append_assoc]
  exact .cons (.seq hsep hf) hmany

theorem entries_of_opt (h : Derives rules (.seq f (.opt (.seq sep (.entries sep f)))) ks) :
    Derives rules (.entries sep f) ks := by
  obtain ⟨xs, _, rfl, hf, hrest⟩ := seq_iff.1 h
  have hone : Derives rules (.separated sep f) xs := by
    rw [← List.append_nil xs]
    exact .seq hf .nil
  refine .present ?_
  rcases opt_iff.1 hrest with rfl | hrest
  · exact .seq hone .absent
  obtain ⟨ys, _, rfl, hsep, hrest⟩ := seq_iff.1 hrest
  rcases opt_iff.1 hrest with rfl | hrest
  · -- the separator is the last one
    rw [List.append_nil]
    exact .seq hone (.present hsep)
  · -- the separator belongs to the next entry
    obtain ⟨_, vs, rfl, hentries, hlast⟩ := seq_iff.1 hrest
    obtain ⟨zs, us, rfl, hf', hmany⟩ := seq_iff.1 hentries
    have hlist : Derives rules (.separated sep f) _ := .seq hf (.cons (.seq hsep hf') hmany)
    simpa only [List.append_assoc] using Derives.seq hlist hlast

theorem base_of_group (h : Derives accepted (.seq (.all [.word .leftParen, .opt (.rule .typeList),
    .word .rightParen]) (.opt (.rule .returns))) ks) : Derives accepted (.rule .base) ks := by
  obtain ⟨_, returns, rfl, hgroup, hreturns⟩ := seq_iff.1 h
  obtain ⟨opening, _, rfl, hopening, hrest⟩ := seq_iff.1 hgroup
  obtain ⟨types, closing, rfl, htypes, hclosing⟩ := seq_iff.1 hrest
  rw [List.append_assoc, List.append_assoc]
  exact .rule (.any 3 rfl (.seq hopening (.seq htypes (.seq hclosing hreturns))))

theorem type_of_group (h : Derives accepted (.seq (.all [.word .leftParen, .opt (.rule .typeList),
    .word .rightParen]) (.opt (.rule .returns))) ks) : Derives accepted (.rule .type) ks := by
  rw [← List.append_nil ks]
  exact .rule (.seq (base_of_group h) .nil)

end Derives

/-! ## Neighbours -/

namespace Form

/-- Whether nothing may be derived from the form.  Of the rules only that of blocks allows it. -/
def nullable : Form → Bool
  | empty | opt _ | many _ => true
  | word _ => false
  | rule c => c == .block
  | seq f g => f.nullable && g.nullable
  | alt f g => f.nullable || g.nullable

/-- Whether what is derived from the form may start with a word of the kind, if that of a rule never
does. -/
def opens (k : Kind) : Form → Bool
  | empty | rule _ => false
  | word l => l == k
  | seq f g => f.opens k || f.nullable && g.opens k
  | alt f g => f.opens k || g.opens k
  | opt f | many f => f.opens k

/-- Whether what is derived from the form may end with a word of the kind, if that of a rule never
does. -/
def closes (k : Kind) : Form → Bool
  | empty | rule _ => false
  | word l => l == k
  | seq f g => g.closes k || g.nullable && f.closes k
  | alt f g => f.closes k || g.closes k
  | opt f | many f => f.closes k

/-- Whether the form keeps words of two kinds apart, if the rules do. -/
def parts (k l : Kind) : Form → Bool
  | empty | word _ | rule _ => true
  | seq f g => f.parts k l && g.parts k l && !(f.closes k && g.opens l)
  | alt f g => f.parts k l && g.parts k l
  | opt f => f.parts k l
  | many f => f.parts k l && !(f.closes k && f.opens l)

end Form

/-- No word of the one kind comes directly before a word of the other kind. -/
def Apart (k l : Kind) (ks : List Kind) : Prop := ks.IsChain fun a b => a = k → b ≠ l

instance (k l : Kind) (ks : List Kind) : Decidable (Apart k l ks) :=
  inferInstanceAs (Decidable (ks.IsChain fun a b => a = k → b ≠ l))

/-- The rules keep words of two kinds apart: none starts with the second kind or ends with the first
one, and the forms do not bring them together. -/
structure Separate (k l : Kind) (rules : Category → Form) : Prop where
  nullable : ∀ c, (rules c).nullable = true → c = .block
  opens : ∀ c, (rules c).opens l = false
  closes : ∀ c, (rules c).closes k = false
  parts : ∀ c, (rules c).parts k l = true

variable {rules : Category → Form} {f : Form} {ks ls : List Kind} {k l : Kind}

namespace Derives

/-- What derives nothing is nullable. -/
theorem nullable (h : Derives rules f ks) (hrules : Separate k l rules) (hks : ks = []) :
    f.nullable = true := by
  induction h with
  | word k => cases hks
  | @rule c ks _ ih =>
    obtain rfl := hrules.nullable c (ih hks)
    rfl
  | seq _ _ ihf ihg =>
    obtain ⟨hks, hls⟩ := List.append_eq_nil_iff.1 hks
    exact Bool.and_eq_true_iff.2 ⟨ihf hks, ihg hls⟩
  | left _ ih => exact Bool.or_eq_true_iff.2 (.inl (ih hks))
  | right _ ih => exact Bool.or_eq_true_iff.2 (.inr (ih hks))
  | _ => rfl

/-- What derives a text opens with its first word. -/
theorem opens (h : Derives rules f ks) (hrules : Separate k l rules) (hks : ks.head? = some l) :
    f.opens l = true := by
  induction h with
  | word k => exact beq_iff_eq.2 (Option.some.inj hks)
  | @rule c ks _ ih =>
    -- no rule starts with the word
    have hopens := ih hks
    rw [hrules.opens c] at hopens
    cases hopens
  | seq hf _ ihf ihg =>
    refine Bool.or_eq_true_iff.2 ?_
    rw [List.head?_append, Option.or_eq_some_iff] at hks
    rcases hks with hks | ⟨hnone, hls⟩
    · exact .inl (ihf hks)
    · have hempty := hf.nullable hrules (List.head?_eq_none_iff.1 hnone)
      exact .inr (Bool.and_eq_true_iff.2 ⟨hempty, ihg hls⟩)
  | left _ ih => exact Bool.or_eq_true_iff.2 (.inl (ih hks))
  | right _ ih => exact Bool.or_eq_true_iff.2 (.inr (ih hks))
  | present _ ih => exact ih hks
  | cons _ _ ihf ihmany =>
    rw [List.head?_append, Option.or_eq_some_iff] at hks
    exact hks.elim ihf fun hls => ihmany hls.2
  | _ => cases hks

/-- It closes with the last word. -/
theorem closes (h : Derives rules f ks) (hrules : Separate k l rules)
    (hks : ks.getLast? = some k) : f.closes k = true := by
  induction h with
  | word k => exact beq_iff_eq.2 (Option.some.inj hks)
  | @rule c ks _ ih =>
    have hcloses := ih hks
    rw [hrules.closes c] at hcloses
    cases hcloses
  | seq _ hg ihf ihg =>
    refine Bool.or_eq_true_iff.2 ?_
    rw [List.getLast?_append, Option.or_eq_some_iff] at hks
    rcases hks with hls | ⟨hnone, hks⟩
    · exact .inl (ihg hls)
    · have hempty := hg.nullable hrules (List.getLast?_eq_none_iff.1 hnone)
      exact .inr (Bool.and_eq_true_iff.2 ⟨hempty, ihf hks⟩)
  | left _ ih => exact Bool.or_eq_true_iff.2 (.inl (ih hks))
  | right _ ih => exact Bool.or_eq_true_iff.2 (.inr (ih hks))
  | present _ ih => exact ih hks
  | cons _ _ ihf ihmany =>
    rw [List.getLast?_append, Option.or_eq_some_iff] at hks
    exact hks.elim ihmany fun hks => ihf hks.2
  | _ => cases hks

/-- A form that keeps two words apart derives no text where they meet. -/
theorem apart (h : Derives rules f ks) (hrules : Separate k l rules)
    (hparts : f.parts k l = true) : Apart k l ks := by
  -- two parts meet where the first one ends and the second one starts
  have happend : ∀ {f g : Form} {ks ls : List Kind}, Derives rules f ks → Derives rules g ls →
      Apart k l ks → Apart k l ls → (f.closes k && g.opens l) = false → Apart k l (ks ++ ls) := by
    intro f g ks ls hf hg hks hls hmeet
    refine List.isChain_append.2 ⟨hks, hls, ?_⟩
    rintro a ha b hb rfl rfl
    rw [hf.closes hrules ha, hg.opens hrules hb] at hmeet
    cases hmeet
  induction h with
  | word k => exact List.isChain_singleton k
  | @rule c ks _ ih => exact ih (hrules.parts c)
  | seq hf hg ihf ihg =>
    obtain ⟨hboth, hmeet⟩ := Bool.and_eq_true_iff.1 hparts
    obtain ⟨hfirst, hsecond⟩ := Bool.and_eq_true_iff.1 hboth
    exact happend hf hg (ihf hfirst) (ihg hsecond) ((Bool.not_eq_true' _).mp hmeet)
  | left _ ih => exact ih (Bool.and_eq_true_iff.1 hparts).1
  | right _ ih => exact ih (Bool.and_eq_true_iff.1 hparts).2
  | present _ ih => exact ih hparts
  | cons hf hmany ihf ihmany =>
    obtain ⟨hfirst, hmeet⟩ := Bool.and_eq_true_iff.1 hparts
    exact happend hf hmany (ihf hfirst) (ihmany hparts) ((Bool.not_eq_true' _).mp hmeet)
  | _ => exact List.isChain_nil

/-! ## One set of rules and the other -/

theorem prototypeRest_of_apart (h : Derives documented (accepted .prototypeRest) ks)
    (happart : Apart .comma .rightParen ks) :
    Derives documented (documented .prototypeRest) ks := by
  obtain ⟨opening, rest, rfl, hopening, hrest⟩ := seq_iff.1 h
  obtain ⟨parameters, rest', rfl, hparameters, hrest'⟩ := seq_iff.1 hrest
  refine .seq hopening (.seq ?_ hrest')
  rcases opt_iff.1 hparameters with rfl | hparameters
  · exact .absent
  obtain ⟨list, last, rfl, hlist, hlast⟩ := seq_iff.1 hparameters
  rcases opt_iff.1 hlast with rfl | hlast
  · rw [List.append_nil]
    exact .present hlist
  -- a comma would come directly before the closing parenthesis
  obtain ⟨closing, returns, rfl, hclosing, -⟩ := seq_iff.1 hrest'
  cases hlast
  cases hclosing
  have hmeet := (List.isChain_append.1 happart).2.1
  rw [List.append_assoc] at hmeet
  have hpair := (List.isChain_append.1 hmeet).2.1
  exact absurd rfl ((List.isChain_cons_cons.1 hpair).1 rfl)

/-- Without a comma right before a parenthesis, what is accepted is documented. -/
theorem documented_of_apart (h : Derives accepted f ks) (happart : Apart .comma .rightParen ks) :
    Derives documented f ks := by
  induction h with
  | empty => exact .empty
  | word k => exact .word k
  | @rule c ks _ ih =>
    -- the rules differ in one category only
    cases c with
    | prototypeRest => exact .rule (prototypeRest_of_apart (ih happart) happart)
    | _ => exact .rule (ih happart)
  | seq _ _ ihf ihg =>
    obtain ⟨hks, hls, -⟩ := List.isChain_append.1 happart
    exact .seq (ihf hks) (ihg hls)
  | left _ ih => exact .left (ih happart)
  | right _ ih => exact .right (ih happart)
  | absent => exact .absent
  | present _ ih => exact .present (ih happart)
  | nil => exact .nil
  | cons _ _ ihf ihmany =>
    obtain ⟨hks, hls, -⟩ := List.isChain_append.1 happart
    exact .cons (ihf hks) (ihmany hls)

end Derives

theorem separate_documented : Separate .comma .rightParen documented := by
  refine ⟨?_, ?_, ?_, ?_⟩ <;> intro c <;> cases c <;> decide

/-- **The documented grammar is the accepted one without such commas.** -/
theorem documented_iff_apart (h : Derives accepted (.rule .block) ks) :
    Derives documented (.rule .block) ks ↔ Apart .comma .rightParen ks :=
  ⟨fun hderives => hderives.apart separate_documented rfl, h.documented_of_apart⟩

end TypedLua.Rules
