import TypedLua.Proofs.Grammar.Reads
import TypedLua.Proofs.Types.Grounded

/-!
# Grammar.Course

What readers keep, give and fail with, for properties of one's own choice.  A course says which
states may follow which, which spans are good and which faults may come up on the way; taking
tokens, counting constructs and declaring variables stay on it.  A reader yields values of a kind
if, from a state of the course, it gives such a value and stays on the course, or fails as it may.

Main statements: `Course.Yields.bind`, and the rules for lists, `Course.Yields.commaList` and
`Course.Yields.braceTail`.
-/

namespace TypedLua

open Text TypedLua.Parser
open Token (Kind Stream)

/-- From the current token of the first state to the last token that was taken in the second. -/
def ParserState.upTo (s t : ParserState) : Span := ⟨s.stream.current.span.start, t.lastEnd⟩

/-- Which states may follow which while something is read, and what may go wrong meanwhile.  A state
that follows itself is on the course.  Unless it is said otherwise, everything may go wrong. -/
structure Course where
  /-- The second state follows the first. -/
  Leads : ParserState → ParserState → Prop
  /-- From the state on, the fault may come up and leave the session. -/
  Fails : ParserState → Fault → Session → Prop := fun _ _ _ => True
  /-- The span is a good place for faults. -/
  Spans : Span → Prop := fun _ => True
  /-- What follows a state that follows another follows the other. -/
  trans {s t u : ParserState} : Leads s t → Leads t u → Leads s u
  /-- A state that follows another is on the course. -/
  right {s t : ParserState} : Leads s t → Leads t t
  /-- A token may be taken, other than the word `from`. -/
  next {s : ParserState} : Leads s s → s.stream.next.1 = .ok () →
    s.stream.current.kind ≠ .kwFrom → Leads s s.next
  /-- Constructs may be counted. -/
  deepened {s : ParserState} (n : Nat) : Leads s s → Leads s { s with depth := n }
  /-- A variable may be declared. -/
  declared {s : ParserState} (v : Variable) : Leads s s → Leads s { s with
    session := { s.session with vars := (VariableArena.alloc v s.session.vars).2 } }
  /-- What may go wrong later may go wrong from now on. -/
  fails {s t : ParserState} {f : Fault} {x : Session} : Leads s t → Fails t f x → Fails s f x := by
    intros; trivial
  /-- Tokens stand at good places. -/
  current {s : ParserState} : Leads s s → Spans s.stream.current.span := by intros; trivial
  /-- A stretch up to the last token that was taken goes on as tokens are taken. -/
  extend {s t : ParserState} {p : Position} : Leads s t → Spans ⟨p, s.lastEnd⟩ →
    Spans ⟨p, t.lastEnd⟩ := by intros; trivial
  /-- The text may go on with something that is no token. -/
  lexical {s : ParserState} {f : Fault} : Leads s s → .error f ∈ s.stream.upcoming →
    Fails s f s.session := by intros; trivial
  /-- Something may be wrong at a good place. -/
  wrong {s : ParserState} {span : Span} {cause : Cause} : Leads s s → Spans span → cause.Local →
    Fails s ⟨span, cause⟩ s.session := by intros; trivial

namespace Course

/-- Types may be made on the course. -/
def Types (C : Course) : Prop :=
  ∀ (s : ParserState) (types : TypeArena), C.Leads s s →
    C.Leads s (s.withTypes types)

/-- Whatever is wrong may be so at a good place, other than that another module is refused. -/
def Open (C : Course) : Prop :=
  ∀ {s : ParserState} {span : Span} {cause : Cause}, C.Leads s s → C.Spans span →
    (∀ x, cause ≠ .failedImport x) → C.Fails s ⟨span, cause⟩ s.session

/-- What statements do may be done on the course. -/
structure Wide (C : Course) : Prop where
  types : C.Types
  blames : C.Open
  /-- Scopes may change. -/
  rescoped {s : ParserState} (scopes : ScopeStack) : C.Leads s s → C.Leads s { s with scopes }
  /-- All tokens may be taken. -/
  taken {s : ParserState} : C.Leads s s → s.stream.next.1 = .ok () → C.Leads s s.next

/-- Modules may be loaded on the course. -/
def Loads (C : Course) (env : ParserEnv) : Prop :=
  ∀ {s : ParserState} {path : Path} {text : String} {m : Module} {session : Session},
    C.Leads s s → env.load path text s.session = (some m, session) →
    C.Leads s { s with session }

/-- Every state may follow every other. -/
def free : Course where
  Leads _ _ := True
  trans _ _ := .intro
  right _ := .intro
  next _ _ _ := .intro
  deepened _ _ := .intro
  declared _ _ := .intro

theorem free_wide : free.Wide :=
  ⟨fun _ _ _ => .intro, fun _ _ _ => .intro, fun _ _ => .intro, fun _ _ => .intro⟩

theorem free_loads (env : ParserEnv) : free.Loads env := fun _ _ => .intro

variable {C : Course} {α β : Type} {env : ParserEnv} {s t : ParserState}

/-- A run from a state of the course ends so, with the state that it leaves. -/
abbrev Refuses (C : Course) (s : ParserState) (f : Fault) (t : ParserState) : Prop :=
  C.Fails s f t.session

theorem Wide.rescoped_after (hC : C.Wide) (hst : C.Leads s t) (scopes : ScopeStack) :
    C.Leads s { t with scopes } := C.trans hst (hC.rescoped scopes (C.right hst))

theorem wrong_after {span : Span} {cause : Cause} (hst : C.Leads s t) (hspan : C.Spans span)
    (hcause : cause.Local) : C.Fails s ⟨span, cause⟩ t.session :=
  C.fails hst (C.wrong (C.right hst) hspan hcause)

theorem fails_of_breaks {f : Fault} (hst : C.Leads s t) (hf : t.stream.Breaks f) :
    C.Fails s f t.session := by
  rcases hf with hf | ⟨hspan, hcause⟩
  · exact C.fails hst (C.lexical (C.right hst) hf)
  · obtain ⟨span, cause⟩ := f
    refine C.wrong_after hst ?_ hcause
    rw [show span = _ from hspan]
    exact C.current (C.right hst)

/-- From a state of the course, a run stays on the course and ends with a value and a state that go
together, or it fails as it may. -/
def Yields (C : Course) (env : ParserEnv) (s : ParserState) (p : Parser α)
    (R : α → ParserState → Prop) : Prop :=
  C.Leads s s → Runs env s p (fun a t => C.Leads s t ∧ R a t) (C.Refuses s)

namespace Yields

variable {p : Parser α} {Q : α → ParserState → Prop} {R : β → ParserState → Prop}
  {f : Fault} {k : Kind}

theorem within (h : C.Leads s s → C.Yields env s p Q) : C.Yields env s p Q := fun hs => h hs hs

theorem pure {a : α} (h : Q a s) : C.Yields env s (Pure.pure a) Q := fun hs => .pure ⟨hs, h⟩

/-- A course is followed by readers one after the other. -/
theorem bind (h : C.Yields env s p Q) {f : α → Parser β}
    (hnext : ∀ a t, C.Leads s t → Q a t → C.Yields env t (f a) R) :
    C.Yields env s (p >>= f) R := by
  intro hs
  refine (h hs).bind fun a t hat => ?_
  refine (hnext a t hat.1 hat.2 (C.right hat.1)).imp (fun b u hb => ?_) fun _ _ => C.fails hat.1
  exact ⟨C.trans hat.1 hb.1, hb.2⟩

theorem imp {R : α → ParserState → Prop} (h : C.Yields env s p Q)
    (hQR : ∀ a t, C.Leads s t → Q a t → R a t) : C.Yields env s p R := fun hs =>
  (h hs).imp (fun a t hat => ⟨hat.1, hQR a t hat.1 hat.2⟩) fun _ _ hf => hf

/-- What may be yielded from a state that was reached. -/
theorem after {r : ParserState} (h : C.Yields env s p Q) (hrs : C.Leads r s) :
    Runs env s p (fun a t => C.Leads r t ∧ Q a t) (C.Refuses r) :=
  (h (C.right hrs)).imp (fun _ _ ha => ⟨C.trans hrs ha.1, ha.2⟩) fun _ _ => C.fails hrs

theorem step {a : α} (hrun : p env s = (.ok a, t)) (hst : C.Leads s s → C.Leads s t) (h : Q a t) :
    C.Yields env s p Q := fun hs => .of_ok hrun ⟨hst hs, h⟩

theorem fault (hrun : p env s = (.error f, t)) (hf : C.Leads s s → C.Fails s f t.session) :
    C.Yields env s p Q := fun hs => .of_error hrun (hf hs)

theorem fail {span : Span} {cause : Cause} (hspan : C.Spans span) (hcause : cause.Local) :
    C.Yields env s (fail span cause) Q := fault rfl fun hs => C.wrong hs hspan hcause

/-! ## Looking at the state -/

theorem gets_bind {f : ParserState → α} {p : α → Parser β} (h : C.Yields env s (p (f s)) R) :
    C.Yields env s (gets f >>= p) R := fun hs => .gets_bind (h hs)

theorem currentSpan_bind {p : Span → Parser β} (h : C.Yields env s (p s.stream.current.span) R) :
    C.Yields env s (currentSpan >>= p) R := fun hs => .currentSpan_bind (h hs)

theorem currentKind_bind {p : Kind → Parser β} (h : C.Yields env s (p s.stream.current.kind) R) :
    C.Yields env s (currentKind >>= p) R := fun hs => .currentKind_bind (h hs)

theorem check_bind {p : Bool → Parser β} (h : C.Yields env s (p (s.stream.current.kind == k)) R) :
    C.Yields env s (check k >>= p) R := fun hs => .check_bind (h hs)

theorem spanFrom_bind {start : Span} {p : Span → Parser β}
    (h : C.Yields env s (p ⟨start.start, s.lastEnd⟩) R) :
    C.Yields env s (spanFrom start >>= p) R := fun hs => .gets_bind (h hs)

theorem fuel_bind {p : Nat → Parser β} (h : ∀ n, C.Yields env s (p n) R) :
    C.Yields env s (fuel >>= p) R := fun hs => .gets_bind (h _ hs)

theorem keep (h : C.Yields env s p Q) {pos : Position} (hpos : C.Spans ⟨pos, s.lastEnd⟩) :
    C.Yields env s p fun a t => Q a t ∧ C.Spans ⟨pos, t.lastEnd⟩ :=
  h.imp fun _ _ hst ha => ⟨ha, C.extend hst hpos⟩

theorem closing {pos : Position} (hpos : C.Spans ⟨pos, s.lastEnd⟩)
    (h : C.Yields env s p fun _ _ => True) :
    C.Yields env s p fun _ t => C.Spans ⟨pos, t.lastEnd⟩ :=
  (h.keep hpos).imp fun _ _ _ ha => ha.2

/-! ## Tokens -/

theorem advance_of (hlead : C.Leads s s → s.stream.next.1 = .ok () → C.Leads s s.next) :
    C.Yields env s advance fun _ t => t = s.next ∧ C.Spans (s.upTo t) := by
  intro hs
  have hrun : Parser.advance env s = (s.stream.next.1, s.next) := rfl
  cases hnext : s.stream.next.1 with
  | ok u =>
    rw [hnext] at hrun
    exact .of_ok hrun ⟨hlead hs hnext, rfl, C.current hs⟩
  | error f =>
    rw [hnext] at hrun
    exact .of_error hrun (C.lexical hs (Stream.mem_of_next hnext))

theorem advance (hkind : s.stream.current.kind = k) (hk : (k == .kwFrom) = false) :
    C.Yields env s Parser.advance fun _ t => t = s.next ∧ C.Spans (s.upTo t) :=
  advance_of fun hs hnext => C.next hs hnext (hkind ▸ ne_of_beq_false hk)

theorem take (hkind : s.stream.current.kind = k) (hk : (k == .kwFrom) = false) :
    C.Yields env s take fun token t =>
      token = s.stream.current ∧ t = s.next ∧ C.Spans (s.upTo t) :=
  gets_bind ((advance hkind hk).bind fun _ _ _ ht => .pure ⟨rfl, ht⟩)

theorem eat (k : Kind) (hk : (k == .kwFrom) = false) : C.Yields env s (eat k) fun found t =>
    if found then t = s.next ∧ C.Spans (s.upTo t) else t = s := by
  refine check_bind ?_
  cases hfound : s.stream.current.kind == k with
  | false => exact .pure rfl
  | true => exact (advance (beq_iff_eq.1 hfound) hk).bind fun _ _ _ ht => .pure ht

/-- An expected token is taken, if the course goes on behind it. -/
theorem expect_of (k : Kind) (hlead : s.stream.current.kind = k → C.Leads s s →
    s.stream.next.1 = .ok () → C.Leads s s.next) :
    C.Yields env s (expect k) fun token t => token = s.stream.current ∧
      s.stream.current.kind = k ∧ t = s.next ∧ C.Spans (s.upTo t) := by
  refine check_bind ?_
  cases hfound : s.stream.current.kind == k with
  | true =>
    have hkind := beq_iff_eq.1 hfound
    exact gets_bind ((advance_of (hlead hkind)).bind fun _ _ _ ht => .pure ⟨rfl, hkind, ht⟩)
  | false => exact within fun hs => gets_bind (fail (C.current hs) .intro)

theorem expect (k : Kind) (hk : (k == .kwFrom) = false) :
    C.Yields env s (Parser.expect k) fun token t => token = s.stream.current ∧
      s.stream.current.kind = k ∧ t = s.next ∧ C.Spans (s.upTo t) :=
  expect_of k fun hkind hs hnext => C.next hs hnext (hkind ▸ ne_of_beq_false hk)

theorem identifier : C.Yields env s identifier fun x t =>
    x = (s.stream.current.text, s.stream.current.span) ∧ s.stream.current.kind = .identifier ∧
      t = s.next ∧ C.Spans (s.upTo t) := by
  refine (expect .identifier rfl).bind ?_
  rintro _ t - ⟨rfl, ht⟩
  exact .pure ⟨rfl, ht⟩

theorem name : C.Yields env s Parser.identifier fun x _ => C.Spans x.2 := by
  refine identifier.imp ?_
  rintro _ _ - ⟨rfl, -, rfl, hgood⟩
  exact hgood

theorem unexpected (construct : String) : C.Yields env s (unexpected construct) Q :=
  within fun hs => gets_bind (fail (C.current hs) .intro)

theorem peekKind (count : Nat) : C.Yields env s (peekKind count) fun k t =>
    t = s ∧ ∃ token, s.stream.peek count = .ok token ∧ token.kind = k := by
  refine gets_bind ?_
  cases hpeek : s.stream.peek count with
  | ok token => exact .pure ⟨rfl, token, rfl, rfl⟩
  | error f => exact fault rfl fun hs => C.lexical hs (Stream.mem_of_peek hpeek)

/-! ## Nesting -/

theorem tooDeep (construct : String) : C.Yields env s (tooDeep construct) Q :=
  within fun hs => currentSpan_bind (fail (C.current hs) .intro)

theorem deepen (construct : String) :
    C.Yields env s (deepen construct) fun _ t => t = { s with depth := s.depth + 1 } := by
  refine gets_bind ?_
  split
  · exact step rfl (C.deepened _) rfl
  · exact tooDeep construct

theorem restoring {restore : ParserState → ParserState → ParserState}
    (hrestore : ∀ t, ∃ n, restore s t = { t with depth := n })
    (hQ : ∀ a t n, Q a t → Q a { t with depth := n }) (h : C.Yields env s p Q) :
    C.Yields env s (restoring p restore) Q := by
  intro hs
  refine Runs.restoring ((h hs).imp (fun a t hat => ?_) fun f t hf => ?_)
  · obtain ⟨n, hn⟩ := hrestore t
    rw [hn]
    exact ⟨C.trans hat.1 (C.deepened n (C.right hat.1)), hQ a t n hat.2⟩
  · obtain ⟨n, hn⟩ := hrestore t
    rw [hn]
    exact hf

theorem nested (construct : String) (hQ : ∀ a t n, Q a t → Q a { t with depth := n })
    (h : C.Yields env { s with depth := s.depth + 1 } p Q) :
    C.Yields env s (nested construct p) Q := by
  refine (deepen construct).bind ?_
  rintro _ _ - rfl
  exact restoring (fun _ => ⟨_, rfl⟩) hQ h

theorem chain (hQ : ∀ a t n, Q a t → Q a { t with depth := n }) (h : C.Yields env s p Q) :
    C.Yields env s (chain p) Q :=
  restoring (fun _ => ⟨_, rfl⟩) hQ h

end Yields

/-! ## Lists -/

/-- Values were read one after the other between two states, each between two states of its own. -/
inductive Row (C : Course) (P : ParserState → α → ParserState → Prop) :
    ParserState → List α → ParserState → Prop
  /-- No value was read. -/
  | nil {s t : ParserState} : C.Leads s t → C.Row P s [] t
  /-- A value was read, and others after it. -/
  | cons {s t u v : ParserState} {x : α} {xs : List α} : C.Leads s t → C.Leads t u → P t x u →
    C.Row P u xs v → C.Row P s (x :: xs) v

variable {P : ParserState → α → ParserState → Prop}

theorem Row.leads {xs : List α} (h : C.Row P s xs t) : C.Leads s t := by
  induction h with
  | nil hst => exact hst
  | cons hst htu _ _ ih => exact C.trans (C.trans hst htu) ih

theorem Row.after {xs : List α} {u : ParserState} (hst : C.Leads s t) (h : C.Row P t xs u) :
    C.Row P s xs u := by
  cases h with
  | nil htu => exact .nil (C.trans hst htu)
  | cons htu huv hx hxs => exact .cons (C.trans hst htu) huv hx hxs

theorem Row.forall {R : α → Prop} {xs : List α} (h : C.Row P s xs t)
    (hR : ∀ x a b, C.Leads s a → P a x b → C.Leads b t → R x) : ∀ x ∈ xs, R x := by
  induction h with
  | nil => exact nofun
  | cons hst htu hx hxs ih =>
    refine List.forall_mem_cons.2 ⟨hR _ _ _ hst hx hxs.leads, ih ?_⟩
    exact fun y a b ha => hR y a b (C.trans (C.trans hst htu) ha)

namespace Yields

section

variable {item : Parser α} (hitem : ∀ s, C.Yields env s item (P s))

include hitem

theorem commaTail (n : Nat) : C.Yields env s (commaTail item n) (C.Row P s) := by
  induction n generalizing s with
  | zero => exact within fun hs => .pure (.nil hs)
  | succ n ih =>
    refine (eat .comma rfl).bind fun found t hst _ => ?_
    cases found with
    | false => exact .pure (.nil hst)
    | true =>
      refine (hitem t).bind fun x u htu hx => ?_
      exact ih.bind fun xs v _ hxs => .pure (.cons hst htu hx hxs)

/-- The items of a list stand in a row on the course. -/
theorem commaList : C.Yields env s (commaList item) fun xs t =>
    ∃ x u rest, xs = x :: rest ∧ C.Leads s u ∧ P s x u ∧ C.Row P u rest t := by
  refine (hitem s).bind fun x t hst hx => ?_
  refine fuel_bind fun n => ?_
  exact (commaTail hitem n).bind fun xs u _ hxs => .pure ⟨x, t, xs, rfl, hst, hx, hxs⟩

omit hitem in
theorem separator : C.Yields env s separator fun _ _ => True := by
  refine (eat .comma rfl).bind fun found t _ _ => ?_
  cases found with
  | true => exact .pure .intro
  | false => exact (eat .semicolon rfl).imp fun _ _ _ _ => .intro

/-- So do the entries between braces. -/
theorem entries (close : Kind) (n : Nat) : C.Yields env s (entries item close n) (C.Row P s) := by
  induction n generalizing s with
  | zero => exact within fun hs => .pure (.nil hs)
  | succ n ih =>
    refine within fun hs => check_bind ?_
    split
    · exact .pure (.nil hs)
    · refine (hitem s).bind fun x t hst hx => ?_
      refine separator.bind fun found u htu _ => ?_
      cases found with
      | false => exact .pure (.cons hs hst hx (.nil htu))
      | true => exact ih.bind fun xs v _ hxs => .pure (.cons hs hst hx (hxs.after htu))

/-- The entries up to a closing brace stand in a row on the course. -/
theorem braceTail : C.Yields env s (braceTail item) fun xs t =>
    ∃ u, C.Row P s xs u ∧ C.Leads u t := by
  refine fuel_bind fun n => ?_
  refine (entries hitem .rightBrace n).bind fun xs t _ hxs => ?_
  exact (expect .rightBrace rfl).bind fun _ u htu _ => .pure ⟨t, hxs, htu⟩

end

/-- What every item has, and what lasts, the items of a list have. -/
theorem commaList_forall {item : Parser α} {Q : α → ParserState → Prop}
    (hitem : ∀ s, C.Yields env s item Q) (hQ : ∀ a t u, C.Leads t u → Q a t → Q a u) :
    C.Yields env s (Parser.commaList item) fun xs t => ∀ x ∈ xs, Q x t := by
  refine (commaList (P := fun _ => Q) hitem).imp ?_
  rintro _ t - ⟨x, u, rest, rfl, -, hx, hrest⟩
  refine List.forall_mem_cons.2 ⟨hQ x u t hrest.leads hx, ?_⟩
  exact hrest.forall fun y _ b _ hy hbt => hQ y b t hbt hy

theorem braceTail_forall {item : Parser α} {Q : α → ParserState → Prop}
    (hitem : ∀ s, C.Yields env s item Q) (hQ : ∀ a t u, C.Leads t u → Q a t → Q a u) :
    C.Yields env s (Parser.braceTail item) fun xs t => ∀ x ∈ xs, Q x t := by
  refine (braceTail (P := fun _ => Q) hitem).imp ?_
  rintro xs t - ⟨u, hxs, hut⟩
  exact hxs.forall fun x _ b _ hx hbu => hQ x b t (C.trans hbu hut) hx

/-! ## Types and variables -/

theorem allocVariable (v : Variable) : C.Yields env s (allocVariable v) fun id t =>
    id = (VariableArena.alloc v s.session.vars).1 ∧ t = { s with session := { s.session with
      vars := (VariableArena.alloc v s.session.vars).2 } } :=
  .step rfl (C.declared v) ⟨rfl, rfl⟩

theorem internType (hC : C.Types) (shape : Shape) :
    C.Yields env s (internType shape) fun _ t => t.lastEnd = s.lastEnd :=
  .step rfl (hC s _) rfl

end Yields

end Course

theorem Runs.internType {env : ParserEnv} {s : ParserState} {shape : Shape}
    {Q : TypeId → ParserState → Prop} {E : Fault → ParserState → Prop}
    (hs : s.session.types.Grounded) (hparts : ∀ x ∈ shape.parts, s.session.types.Holds x)
    (hQ : ∀ id types, TypeArena.intern shape s.session.types = (id, types) → types.Grounded →
      s.session.types.Extends types → Q id (s.withTypes types)) :
    Runs env s (internType shape) Q E := by
  cases hintern : TypeArena.intern shape s.session.types with
  | mk id types =>
    have hgrounded : types.Grounded := by
      have hall := hs.intern hparts
      rwa [hintern] at hall
    refine Runs.of_ok (t := s.withTypes types) ?_
      (hQ id types hintern hgrounded (TypeArena.extends_of_intern hintern))
    show (Except.ok (TypeArena.intern shape s.session.types).1,
      s.withTypes (TypeArena.intern shape s.session.types).2) = _
    rw [hintern]

end TypedLua
