import TypedLua.Proofs.Grammar.Course
import TypedLua.Proofs.Token.References

/-!
# Grammar.Ahead

Reading tokens that are known.  Where it is known what the next tokens say, steps that take them do
not fail; a reader takes a part of the tokens, and leaves the others ahead.

Main statements: `Course.Takes.bind`, and the rules for lists, `Course.Takes.commaList` and
`Course.Takes.braceTail`.
-/

namespace TypedLua

open Text TypedLua.Parser
open Token (Kind Stream)

/-- What a token says. -/
abbrev Word := Kind × String

/-- The word or symbol of a kind that is always written alike. -/
def Token.Kind.word (k : Kind) : Word := (k, k.text?.getD "")

/-! ## Streams -/

namespace Token.Stream

/-- The current token and those that follow say the given words. -/
def Ahead (a : Stream) (ws : List Word) : Prop := ws.map some <+: a.contents

/-- A stream of tokens that say the given words. -/
def ofWords (w : Word) (ws : List Word) : Stream :=
  ⟨⟨w.1, w.2, default⟩, {}, ws.map fun v => .ok ⟨v.1, v.2, default⟩⟩

/-- A text that starts with the words has a stream at the first of them. -/
theorem exists_ahead {text : String} {w : Word} {ws : List Word}
    (h : (w :: ws).map some <+: Token.contents text) :
    ∃ stream, ofSource text = .ok stream ∧ stream.Ahead (w :: ws) := by
  cases hsource : ofSource text with
  | ok stream =>
    refine ⟨stream, rfl, ?_⟩
    unfold Ahead
    rwa [contents_ofSource hsource]
  | error f =>
    -- the text would start with a fault
    unfold Token.contents at h
    unfold ofSource next at hsource
    dsimp only at hsource
    split at hsource
    · cases hsource
    · next hnext =>
      split at hnext
      · cases hnext
      · cases hnext
      · next hreadings =>
        rw [show readings text = _ from hreadings] at h
        cases (List.cons_prefix_cons.1 h).1

namespace Ahead

variable {a : Stream} {v w : Word} {ws : List Word}

theorem ofWords (w : Word) (ws : List Word) : (ofWords w ws).Ahead (w :: ws) := by
  unfold Ahead contents Stream.ofWords
  rw [List.map_map]
  exact List.prefix_rfl

theorem head (h : a.Ahead (w :: ws)) : a.current.content = w :=
  (Option.some.inj (List.cons_prefix_cons.1 h).1).symm

theorem kind (h : a.Ahead (w :: ws)) : a.current.kind = w.1 := congrArg Prod.fst h.head

theorem text (h : a.Ahead (w :: ws)) : a.current.text = w.2 := congrArg Prod.snd h.head

/-- One step takes one word. -/
theorem next (h : a.Ahead (w :: ws)) (hne : ws ≠ []) :
    a.next.1 = .ok () ∧ a.next.2.Ahead ws := by
  obtain ⟨-, hrest⟩ := List.cons_prefix_cons.1 h
  cases ws with
  | nil => exact absurd rfl hne
  | cons v ws =>
    unfold Stream.next
    cases hupcoming : a.upcoming with
    | nil =>
      rw [hupcoming] at hrest
      cases List.prefix_nil.1 hrest
    | cons r rest =>
      rw [hupcoming] at hrest
      cases r with
      | ok t => exact ⟨rfl, hrest⟩
      | error f => cases (List.cons_prefix_cons.1 hrest).1

theorem length_le (h : a.Ahead ws) : ws.length ≤ a.upcoming.length + 1 := by
  have hlength := List.IsPrefix.length_le h
  simp only [contents, List.length_cons, List.length_map] at hlength
  exact hlength

theorem peek (h : a.Ahead (w :: v :: ws)) (heof : w.1 ≠ .eof) :
    ∃ token, a.peek 1 = .ok token ∧ token.kind = v.1 := by
  obtain ⟨hok, hnext⟩ := h.next (List.cons_ne_nil v ws)
  refine ⟨a.next.2.current, ?_, hnext.kind⟩
  unfold Stream.peek
  rw [if_neg (by rw [h.kind]; exact heof)]
  cases hstep : a.next with
  | mk r b =>
    rw [hstep] at hok
    obtain rfl := hok
    rfl

end Ahead

end Token.Stream

/-! ## Readers -/

namespace Course

variable {C : Course} {α β : Type} {env : ParserEnv} {s t : ParserState} {F : Fault → Prop}
  {v w : Word} {vs ws : List Word}

/-- From a state of the course, a run stays on the course, takes all tokens before the given ones,
and ends with a value and a state that go together; or it fails with a fault that may arise. -/
def Takes (C : Course) (F : Fault → Prop) (env : ParserEnv) (s : ParserState) (p : Parser α)
    (ws : List Word) (R : α → ParserState → Prop) : Prop :=
  C.Leads s s → Ends env s p (fun a t => C.Leads s t ∧ t.stream.Ahead ws ∧ R a t) F

namespace Takes

variable {p : Parser α} {Q : α → ParserState → Prop} {R : β → ParserState → Prop}

theorem within (h : C.Leads s s → C.Takes F env s p ws Q) : C.Takes F env s p ws Q :=
  fun hs => h hs hs

theorem pure {a : α} (hws : s.stream.Ahead ws) (h : Q a s) :
    C.Takes F env s (Pure.pure a) ws Q := fun hs => .pure ⟨hs, hws, h⟩

/-- Readers one after the other take their words one after the other. -/
theorem bind (h : C.Takes F env s p ws Q) {f : α → Parser β}
    (hnext : ∀ a t, C.Leads s t → t.stream.Ahead ws → Q a t → C.Takes F env t (f a) vs R) :
    C.Takes F env s (p >>= f) vs R := by
  intro hs
  refine (h hs).bind fun a t hat => ?_
  refine (hnext a t hat.1 hat.2.1 hat.2.2 (C.right hat.1)).imp (fun b u hb => ?_) fun _ _ hf => hf
  exact ⟨C.trans hat.1 hb.1, hb.2⟩

theorem imp {R : α → ParserState → Prop} (h : C.Takes F env s p ws Q)
    (hQR : ∀ a t, C.Leads s t → Q a t → R a t) : C.Takes F env s p ws R := fun hs =>
  (h hs).imp (fun a t hat => ⟨hat.1, hat.2.1, hQR a t hat.1 hat.2.2⟩) fun _ _ hf => hf

theorem gets_bind {f : ParserState → α} {p : α → Parser β} (h : C.Takes F env s (p (f s)) vs R) :
    C.Takes F env s (gets f >>= p) vs R := fun hs => .gets_bind (h hs)

theorem currentSpan_bind {p : Span → Parser β}
    (h : C.Takes F env s (p s.stream.current.span) vs R) :
    C.Takes F env s (currentSpan >>= p) vs R := fun hs => .currentSpan_bind (h hs)

theorem spanFrom_bind {start : Span} {p : Span → Parser β}
    (h : ∀ span, C.Takes F env s (p span) vs R) :
    C.Takes F env s (spanFrom start >>= p) vs R := fun hs => .spanFrom_bind fun span => h span hs

theorem advance (h : s.stream.Ahead (w :: ws)) (hne : ws ≠ [])
    (hk : (w.1 == .kwFrom) = false) :
    C.Takes F env s advance ws fun _ t => t = s.next := by
  intro hs
  obtain ⟨hok, hnext⟩ := h.next hne
  have hrun : Parser.advance env s = (.ok (), s.next) := by
    show (s.stream.next.1, s.next) = _
    rw [hok]
  exact .of_ok hrun ⟨C.next hs hok (h.kind ▸ ne_of_beq_false hk), hnext, rfl⟩

theorem take (h : s.stream.Ahead (w :: ws)) (hne : ws ≠ [])
    (hk : (w.1 == .kwFrom) = false) :
    C.Takes F env s take ws fun token _ => token = s.stream.current :=
  gets_bind ((advance h hne hk).bind fun _ _ _ hws _ => .pure hws rfl)

theorem expect {k : Kind} (h : s.stream.Ahead (w :: ws)) (hk : w.1 = k) (hne : ws ≠ [])
    (hfrom : (k == .kwFrom) = false) :
    C.Takes F env s (expect k) ws fun token _ => token = s.stream.current := by
  intro hs
  refine Runs.check_bind ?_
  rw [h.kind, hk, beq_self_eq_true]
  exact take h hne (hk ▸ hfrom) hs

theorem identifier {name : String} (h : s.stream.Ahead ((.identifier, name) :: ws))
    (hne : ws ≠ []) : C.Takes F env s identifier ws fun x _ => x.1 = name := by
  refine (expect (k := .identifier) h rfl hne rfl).bind fun token t _ hws htoken => .pure hws ?_
  rw [htoken]
  exact h.text

theorem eat {k : Kind} (h : s.stream.Ahead (w :: ws)) (hk : w.1 = k) (hne : ws ≠ [])
    (hfrom : (k == .kwFrom) = false) :
    C.Takes F env s (eat k) ws fun found _ => found = true := by
  intro hs
  refine Runs.check_bind ?_
  rw [h.kind, hk, beq_self_eq_true]
  exact (advance h hne (hk ▸ hfrom)).bind (fun _ _ _ hws _ => .pure hws rfl) hs

theorem eat_ne {k : Kind} (h : s.stream.Ahead (w :: ws)) (hk : w.1 ≠ k) :
    C.Takes F env s (Parser.eat k) (w :: ws) fun found t => found = false ∧ t = s := by
  intro hs
  refine Runs.check_bind ?_
  rw [h.kind, beq_false_of_ne hk]
  exact Runs.pure ⟨hs, h, rfl, rfl⟩

theorem check_bind {k : Kind} {f : Bool → Parser α} (h : s.stream.Ahead (w :: ws)) (hk : w.1 = k)
    (hf : C.Takes F env s (f true) vs Q) : C.Takes F env s (check k >>= f) vs Q := by
  refine fun hs => Runs.check_bind ?_
  rw [h.kind, hk, beq_self_eq_true]
  exact hf hs

theorem check_ne_bind {k : Kind} {f : Bool → Parser α} (h : s.stream.Ahead (w :: ws))
    (hk : w.1 ≠ k) (hf : C.Takes F env s (f false) vs Q) :
    C.Takes F env s (check k >>= f) vs Q := by
  refine fun hs => Runs.check_bind ?_
  rw [h.kind, beq_false_of_ne hk]
  exact hf hs

theorem currentKind_bind {f : Kind → Parser α} (h : s.stream.Ahead (w :: ws))
    (hf : C.Takes F env s (f w.1) vs Q) : C.Takes F env s (currentKind >>= f) vs Q := by
  refine fun hs => Runs.currentKind_bind ?_
  rw [h.kind]
  exact hf hs

theorem peekKind (h : s.stream.Ahead (w :: v :: ws)) (heof : w.1 ≠ .eof) :
    C.Takes F env s (peekKind 1) (w :: v :: ws) fun k t => k = v.1 ∧ t = s := by
  obtain ⟨token, hpeek, hkind⟩ := h.peek heof
  refine gets_bind ?_
  rw [hpeek]
  exact pure h ⟨hkind, rfl⟩

/-! ## Nesting -/

theorem tooDeep (construct : String)
    (hF : ∀ span, F ⟨span, .tooDeep nestingLimit construct⟩) :
    C.Takes F env s (tooDeep construct) ws Q := fun _ =>
  Runs.currentSpan_bind (Runs.fail _ _ (hF _))

theorem deepen (construct : String) (hF : ∀ span, F ⟨span, .tooDeep nestingLimit construct⟩)
    (h : s.stream.Ahead ws) :
    C.Takes F env s (deepen construct) ws fun _ t => t = { s with depth := s.depth + 1 } := by
  refine gets_bind ?_
  split
  · exact fun hs => Runs.of_ok rfl ⟨C.deepened _ hs, h, rfl⟩
  · exact tooDeep construct hF

theorem restoring {restore : ParserState → ParserState → ParserState}
    (hrestore : ∀ t, ∃ n, restore s t = { t with depth := n })
    (hQ : ∀ a t n, Q a t → Q a { t with depth := n }) (h : C.Takes F env s p ws Q) :
    C.Takes F env s (restoring p restore) ws Q := by
  refine fun hs => Runs.restoring ((h hs).imp (fun a t hat => ?_) fun _ _ hf => hf)
  obtain ⟨n, hn⟩ := hrestore t
  rw [hn]
  exact ⟨C.trans hat.1 (C.deepened n (C.right hat.1)), hat.2.1, hQ a t n hat.2.2⟩

theorem nested (construct : String) (hF : ∀ span, F ⟨span, .tooDeep nestingLimit construct⟩)
    (hws : s.stream.Ahead vs) (hQ : ∀ a t n, Q a t → Q a { t with depth := n })
    (h : C.Takes F env { s with depth := s.depth + 1 } p ws Q) :
    C.Takes F env s (nested construct p) ws Q := by
  refine (deepen construct hF hws).bind ?_
  rintro _ _ - - rfl
  exact restoring (fun _ => ⟨_, rfl⟩) hQ h

theorem chain (hQ : ∀ a t n, Q a t → Q a { t with depth := n }) (h : C.Takes F env s p ws Q) :
    C.Takes F env s (chain p) ws Q :=
  restoring (fun _ => ⟨_, rfl⟩) hQ h

end Takes

end Course

/-! ## Lists -/

/-- Lists of words, each after a comma. -/
def afterCommas (wss : List (List Word)) : List Word := wss.flatMap (Kind.comma.word :: ·)

/-- Lists of words with commas between them. -/
def commas : List (List Word) → List Word
  | [] => []
  | ws :: wss => ws ++ afterCommas wss

theorem length_le_afterCommas (wss : List (List Word)) :
    wss.length ≤ (afterCommas wss).length := by
  induction wss with
  | nil => exact Nat.le_refl 0
  | cons ws wss ih =>
    show wss.length + 1 ≤ (Kind.comma.word :: ws ++ afterCommas wss).length
    simp only [List.length_append, List.length_cons]
    omega

/-- Lists of words, each with the separator that comes after it; the last may come without. -/
def separated (closed : Bool) : List (List Word × Kind) → List Word
  | [] => []
  | (ws, k) :: rest =>
    ws ++ ((if rest.isEmpty && !closed then [] else [k.word]) ++ separated closed rest)

theorem length_le_separated (closed : Bool) {items : List (List Word × Kind)}
    (h : ∀ x ∈ items, x.1 ≠ []) : items.length ≤ (separated closed items).length := by
  induction items with
  | nil => exact Nat.le_refl 0
  | cons x items ih =>
    have hx : 0 < x.1.length := List.length_pos_iff.2 (h x List.mem_cons_self)
    have hrest := ih fun y hy => h y (List.mem_cons_of_mem x hy)
    simp only [separated, List.length_append, List.length_cons]
    omega

/-- What separates the entries of a list in braces. -/
def Token.Kind.Separates (k : Kind) : Prop := k = .comma ∨ k = .semicolon

theorem exists_follow (follows : Kind → Prop) (hcomma : follows .comma) (wss : List (List Word))
    {w : Word} (hw : follows w.1) (ws : List Word) :
    ∃ w' ws', afterCommas wss ++ w :: ws = w' :: ws' ∧ follows w'.1 := by
  cases wss with
  | nil => exact ⟨w, ws, rfl, hw⟩
  | cons vs wss => exact ⟨Kind.comma.word, _, rfl, hcomma⟩

namespace Course

variable {C : Course} {F : Fault → Prop} {env : ParserEnv} {s : ParserState} {w : Word}
  {ws : List Word} {ι α : Type} {item : Parser α} {spelling : ι → List Word} {xs : List ι}
  {R : ι → α → ParserState → Prop} {follows : Kind → Prop}

/-- The reader takes the spellings of all members of a list, if a token comes next that may follow
them. -/
def Spells (C : Course) (F : Fault → Prop) (env : ParserEnv) (item : Parser α)
    (spelling : ι → List Word) (xs : List ι) (follows : Kind → Prop)
    (R : ι → α → ParserState → Prop) : Prop :=
  ∀ x ∈ xs, ∀ s w ws, follows w.1 → s.stream.Ahead (spelling x ++ w :: ws) →
    C.Takes F env s item (w :: ws) (R x)

theorem Spells.tail {x : ι} (h : C.Spells F env item spelling (x :: xs) follows R) :
    C.Spells F env item spelling xs follows R := fun y hy => h y (List.mem_cons_of_mem x hy)

namespace Takes

theorem commaTail (hitem : C.Spells F env item spelling xs follows R)
    (hR : ∀ x a t u, C.Leads t u → R x a t → R x a u) (hcomma : follows .comma) (n : Nat)
    (hn : xs.length ≤ n) (hw : follows w.1) (hne : w.1 ≠ .comma)
    (h : s.stream.Ahead (afterCommas (xs.map spelling) ++ w :: ws)) :
    C.Takes F env s (commaTail item n) (w :: ws) fun as t =>
      List.Forall₂ (fun x a => R x a t) xs as := by
  induction xs generalizing s n with
  | nil =>
    cases n with
    | zero => exact .pure h .nil
    | succ n =>
      refine (eat_ne h hne).bind fun found t _ ht hfound => ?_
      obtain ⟨rfl, -⟩ := hfound
      exact .pure ht .nil
  | cons x xs ih =>
    cases n with
    | zero => cases hn
    | succ n =>
      obtain ⟨w', ws', hrest, hw'⟩ := exists_follow follows hcomma (xs.map spelling) hw ws
      have hspelling : s.stream.Ahead (Kind.comma.word :: (spelling x ++ w' :: ws')) := by
        rw [← hrest, ← List.append_assoc]
        exact h
      refine (eat hspelling rfl (by simp) rfl).bind fun found t _ ht hfound => ?_
      obtain rfl := hfound
      refine (hitem x List.mem_cons_self t w' ws' hw' ht).bind ?_
      intro a u htu hu ha
      rw [← hrest] at hu
      refine (ih hitem.tail n (Nat.le_of_succ_le_succ hn) hu).bind ?_
      intro as v huv hv has
      exact .pure hv (.cons (hR x a u v huv ha) has)

/-- Items with commas between them are read one by one. -/
theorem commaList (hitem : C.Spells F env item spelling xs follows R)
    (hR : ∀ x a t u, C.Leads t u → R x a t → R x a u) (hcomma : follows .comma) (hxs : xs ≠ [])
    (hw : follows w.1) (hne : w.1 ≠ .comma)
    (h : s.stream.Ahead (commas (xs.map spelling) ++ w :: ws)) :
    C.Takes F env s (commaList item) (w :: ws) fun as t =>
      List.Forall₂ (fun x a => R x a t) xs as := by
  cases xs with
  | nil => exact absurd rfl hxs
  | cons x xs =>
    obtain ⟨w', ws', hrest, hw'⟩ := exists_follow follows hcomma (xs.map spelling) hw ws
    have hspelling : s.stream.Ahead (spelling x ++ w' :: ws') := by
      rw [← hrest, ← List.append_assoc]
      exact h
    refine (hitem x List.mem_cons_self s w' ws' hw' hspelling).bind ?_
    intro a t hst ht ha
    rw [← hrest] at ht
    refine gets_bind ?_
    have hlength : xs.length ≤ t.stream.upcoming.length + 1 := by
      have hahead := ht.length_le
      have hitems := length_le_afterCommas (xs.map spelling)
      rw [List.length_append] at hahead
      rw [List.length_map] at hitems
      omega
    refine (commaTail hitem.tail hR hcomma _ hlength hw hne ht).bind ?_
    intro as u htu hu has
    exact .pure hu (.cons (hR x a t u htu ha) has)

theorem separator (h : s.stream.Ahead (w :: ws)) (hw : w.1.Separates) (hne : ws ≠ []) :
    C.Takes F env s separator ws fun found _ => found = true := by
  rcases hw with hw | hw
  · refine (eat h hw hne rfl).bind fun found t _ ht hfound => ?_
    obtain rfl := hfound
    exact .pure ht rfl
  · refine (eat_ne h (by rw [hw]; decide)).bind fun found t _ ht hfound => ?_
    obtain ⟨rfl, -⟩ := hfound
    exact eat ht hw hne rfl

theorem separator_ne (h : s.stream.Ahead (w :: ws)) (hw : ¬ w.1.Separates) :
    C.Takes F env s Parser.separator (w :: ws) fun found _ => found = false := by
  refine (eat_ne h fun hcomma => hw (.inl hcomma)).bind fun found t _ ht hfound => ?_
  obtain ⟨rfl, -⟩ := hfound
  exact (eat_ne ht fun hsemicolon => hw (.inr hsemicolon)).imp fun _ _ _ hf => hf.1

section

variable {close : Kind} {closed : Bool} {after : ι → Kind}
  (hitem : C.Spells F env item spelling xs follows R)
  (hR : ∀ x a t u, C.Leads t u → R x a t → R x a u)
  (hafter : ∀ x, (after x).Separates) (hfollows : ∀ k : Kind, k.Separates → follows k)
  (hfirst : ∀ x ∈ xs, ∃ v vs, spelling x = v :: vs ∧ v.1 ≠ close) (hclose : follows close)

include hitem hR hafter hfollows hfirst hclose

theorem entries (n : Nat) (hn : xs.length ≤ n) (hw : w.1 = close)
    (hne : ¬ close.Separates)
    (h : s.stream.Ahead (separated closed (xs.map fun x => (spelling x, after x)) ++ w :: ws)) :
    C.Takes F env s (entries item close n) (w :: ws) fun as t =>
      List.Forall₂ (fun x a => R x a t) xs as := by
  induction xs generalizing s n with
  | nil =>
    cases n with
    | zero => exact .pure h .nil
    | succ n => exact check_bind h hw (.pure h .nil)
  | cons x xs ih =>
    cases n with
    | zero => cases hn
    | succ n =>
      obtain ⟨v, vs, hx, hv⟩ := hfirst x List.mem_cons_self
      rw [List.map_cons, separated, List.append_assoc, List.append_assoc] at h
      have hhead := h
      rw [hx] at hhead
      refine check_ne_bind hhead hv ?_
      have hread := hitem x List.mem_cons_self s
      by_cases hlast : ((xs.map fun x => (spelling x, after x)).isEmpty && !closed) = true
      · -- the closing token comes next
        obtain rfl : xs = [] := by
          have hempty := (Bool.and_eq_true_iff.1 hlast).1
          exact List.map_eq_nil_iff.1 (List.isEmpty_iff.1 hempty)
        rw [if_pos hlast] at h
        refine (hread w ws (hw ▸ hclose) h).bind fun a t _ ht ha => ?_
        refine (separator_ne ht (hw ▸ hne)).bind fun found u htu hu hfound => ?_
        obtain rfl := hfound
        exact .pure hu (.cons (hR x a t u htu ha) .nil)
      · -- a separator comes next, and perhaps further items
        rw [if_neg hlast] at h
        refine (hread (after x).word _ (hfollows _ (hafter x)) h).bind fun a t _ ht ha => ?_
        refine (separator ht (hafter x) (by simp)).bind ?_
        intro found u htu hu hfound
        obtain rfl := hfound
        refine (ih hitem.tail (fun y hy => hfirst y (List.mem_cons_of_mem x hy)) n
          (Nat.le_of_succ_le_succ hn) hu).bind fun as v huv hv has => ?_
        exact .pure hv (.cons (hR x a t v (C.trans htu huv) ha) has)

end

/-- Entries are read up to the brace behind them. -/
theorem braceTail {closed : Bool} {after : ι → Kind}
    (hitem : C.Spells F env item spelling xs follows R)
    (hR : ∀ x a t u, C.Leads t u → R x a t → R x a u) (hafter : ∀ x, (after x).Separates)
    (hfollows : ∀ k : Kind, k.Separates ∨ k = .rightBrace → follows k)
    (hfirst : ∀ x ∈ xs, ∃ v vs, spelling x = v :: vs ∧ v.1 ≠ .rightBrace)
    (hws : ws ≠ []) (h : s.stream.Ahead
      (separated closed (xs.map fun x => (spelling x, after x)) ++ Kind.rightBrace.word :: ws)) :
    C.Takes F env s (braceTail item) ws fun as t => List.Forall₂ (fun x a => R x a t) xs as := by
  -- there are at least as many tokens left as there are items
  have hlength : xs.length ≤ s.stream.upcoming.length + 1 := by
    have hahead := h.length_le
    have hwords : ∀ y ∈ xs.map fun x => (spelling x, after x), y.1 ≠ [] := by
      intro y hy
      obtain ⟨x, hx, rfl⟩ := List.mem_map.1 hy
      obtain ⟨v, vs, hspelling, -⟩ := hfirst x hx
      rw [hspelling]
      exact List.cons_ne_nil v vs
    have hitems := length_le_separated closed hwords
    rw [List.length_append] at hahead
    rw [List.length_map] at hitems
    omega
  have hne : ¬ Kind.rightBrace.Separates := by
    rintro (hcomma | hsemicolon)
    · cases hcomma
    · cases hsemicolon
  refine gets_bind ?_
  refine Takes.bind (entries hitem hR hafter (fun k hk => hfollows k (.inl hk)) hfirst
    (hfollows _ (.inr rfl)) _ hlength rfl hne h) fun as t hst ht has => ?_
  refine (expect ht rfl hws rfl).bind fun _ u htu hu _ => .pure hu ?_
  exact has.imp fun x a ha => hR x a t u htu ha

end Takes

end Course

end TypedLua
