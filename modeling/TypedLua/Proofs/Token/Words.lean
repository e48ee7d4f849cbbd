import Mathlib.Data.List.Basic
import Mathlib.Logic.Relation
import TypedLua.Token.Stream

/-!
# Token.Words

The tokens of a text as a list, and what can be told from neighbours in it: which interfaces are
introduced, which names are followed by an opening angle bracket, and which modules are named after
the word `from`.  A stream has some of these tokens left, and moving on leaves fewer.

Main statements: `Stream.words_ofSource` and `Stream.Moves.words_suffix`.
-/

namespace TypedLua.Token

open Text

/-! ## Words of a text -/

/-- What a token says, wherever it stands. -/
def content (t : Token) : Kind × String := (t.kind, t.text)

/-- The tokens of a text, faults left out. -/
def words (source : String) : List Token := (readings source).filterMap Except.toOption

/-- The characters of a text are enough to read it. -/
theorem readings_ofList (cs : List Char) :
    readings (String.ofList cs) = readingsFrom cs.length .origin cs := by
  rw [readings, String.toList_ofList]

/-- How often an interface of the name is introduced. -/
def declarations (name : String) : List Token → Nat
  | a :: b :: rest =>
    (if a.kind = .kwInterface ∧ b.kind = .identifier ∧ b.text = name then 1 else 0) +
      declarations name (b :: rest)
  | _ => 0

/-- The names that an opening angle bracket follows. -/
def applied : List Token → List String
  | a :: b :: rest =>
    (if a.kind = .identifier ∧ b.kind = .less then [a.text] else []) ++ applied (b :: rest)
  | _ => []

/-- The modules that are named after the word `from`. -/
def sources : List Token → List String
  | a :: b :: rest =>
    (if a.kind = .kwFrom ∧ b.kind = .string then [b.text] else []) ++ sources (b :: rest)
  | _ => []

theorem sources_cons {a : Token} (ha : a.kind ≠ .kwFrom) (ws : List Token) :
    sources (a :: ws) = sources ws := by
  cases ws with
  | nil => rfl
  | cons b rest =>
    show (if _ then _ else _) ++ _ = _
    rw [if_neg fun h => ha h.1]
    rfl

/-- A later part of a text has no more declarations. -/
theorem declarations_le_of_suffix (name : String) {ws us : List Token} (h : ws <:+ us) :
    declarations name ws ≤ declarations name us := by
  obtain ⟨before, rfl⟩ := h
  induction before with
  | nil => exact Nat.le_refl _
  | cons a before ih =>
    refine Nat.le_trans ih ?_
    rw [List.cons_append]
    cases before ++ ws with
    | nil => exact Nat.le_refl _
    | cons b rest => exact Nat.le_add_left _ _

theorem mem_applied_of_suffix {name : String} {ws us : List Token} (h : ws <:+ us)
    (hname : name ∈ applied ws) : name ∈ applied us := by
  obtain ⟨before, rfl⟩ := h
  induction before with
  | nil => exact hname
  | cons a before ih =>
    rw [List.cons_append]
    cases hrest : before ++ ws with
    | nil =>
      rw [hrest] at ih
      cases ih
    | cons b rest =>
      rw [hrest] at ih
      exact List.mem_append_right _ ih

/-! ## Words that are left -/

theorem readings_ne_nil (source : String) : readings source ≠ [] := by
  unfold readings
  cases source.toList.length with
  | zero => exact List.cons_ne_nil _ _
  | succ n =>
    rw [readingsFrom]
    split
    · exact List.cons_ne_nil _ _
    · exact List.cons_ne_nil _ _

variable {s : Stream} {source : String}

namespace Stream

/-- The current token and those that follow, faults left out. -/
def words (s : Stream) : List Token := s.current :: s.upcoming.filterMap Except.toOption

/-- A step passes the current word, or stays. -/
theorem words_next_cases (s : Stream) :
    s.words = s.current :: s.next.2.words ∨
      s.next.2.words = s.words ∧ s.next.2.current = s.current := by
  unfold next words
  split
  · exact .inr ⟨rfl, rfl⟩
  · next t rest hupcoming =>
    rw [hupcoming]
    exact .inl rfl
  · next f rest hupcoming =>
    rw [hupcoming]
    exact .inr ⟨rfl, rfl⟩

theorem words_next_suffix (s : Stream) : s.next.2.words <:+ s.words := by
  rcases s.words_next_cases with h | ⟨h, -⟩
  · rw [h]
    exact List.suffix_cons _ _
  · exact ⟨[], h⟩

/-- It passes the word if the next one is of another kind. -/
theorem words_eq_cons (h : s.next.2.current.kind ≠ s.current.kind) :
    s.words = s.current :: s.next.2.words := by
  rcases s.words_next_cases with hcons | ⟨-, hcurrent⟩
  · exact hcons
  · exact absurd (by rw [hcurrent]) h

theorem declarations_words (hkind : s.current.kind = .kwInterface)
    (hname : s.next.2.current.kind = .identifier) :
    declarations s.next.2.current.text s.words =
      1 + declarations s.next.2.current.text s.next.2.words := by
  rw [words_eq_cons (by rw [hkind, hname]; decide)]
  show (if _ then 1 else 0) + _ = _
  rw [if_pos ⟨hkind, hname, rfl⟩]
  rfl

theorem mem_applied_words (hkind : s.current.kind = .identifier)
    (hless : s.next.2.current.kind = .less) : s.current.text ∈ applied s.words := by
  rw [words_eq_cons (by rw [hkind, hless]; decide)]
  refine List.mem_append_left _ ?_
  rw [if_pos ⟨hkind, hless⟩]
  exact List.mem_singleton_self _

theorem sources_words (hkind : s.current.kind = .kwFrom)
    (hstring : s.next.2.current.kind = .string) :
    sources s.words = s.next.2.current.text :: sources s.next.2.words := by
  rw [words_eq_cons (by rw [hkind, hstring]; decide)]
  show (if _ then _ else _) ++ _ = _
  rw [if_pos ⟨hkind, hstring⟩]
  rfl

/-- The current token and the readings that follow. -/
def remaining (s : Stream) : List Reading := .ok s.current :: s.upcoming

/-- The stream of a text has all its readings before it. -/
theorem remaining_ofSource (h : ofSource source = .ok s) : s.remaining = readings source := by
  unfold ofSource next at h
  dsimp only at h
  cases hreadings : readings source with
  | nil => exact absurd hreadings (readings_ne_nil source)
  | cons r rest =>
    rw [hreadings] at h
    cases r with
    | ok t =>
      cases h
      rfl
    | error f => cases h

/-- A stream has the words of its text. -/
theorem words_ofSource (h : ofSource source = .ok s) : s.words = Token.words source := by
  unfold Token.words
  rw [← remaining_ofSource h]
  rfl

theorem upcoming_ofSource (h : ofSource source = .ok s) : s.upcoming <:+ readings source := by
  rw [← remaining_ofSource h]
  exact List.suffix_cons _ _

theorem mem_of_ofSource {f : Fault} (h : ofSource source = .error f) :
    .error f ∈ readings source := by
  unfold ofSource next at h
  dsimp only at h
  cases hreadings : readings source with
  | nil => exact absurd hreadings (readings_ne_nil source)
  | cons r rest =>
    rw [hreadings] at h
    cases r with
    | ok t => cases h
    | error g =>
      cases h
      exact List.mem_cons_self

/-! ## Faults -/

/-- The fault of a step is an upcoming reading. -/
theorem mem_of_next {f : Fault} (h : s.next.1 = .error f) : .error f ∈ s.upcoming := by
  unfold next at h
  split at h
  · cases h
  · cases h
  · next g rest hupcoming =>
    cases h
    rw [hupcoming]
    exact List.mem_cons_self

theorem mem_of_peek {n : Nat} {f : Fault} (h : s.peek n = .error f) : .error f ∈ s.upcoming := by
  induction n generalizing s with
  | zero => cases h
  | succ n ih =>
    unfold peek at h
    split at h
    · cases h
    · split at h
      · next t heq =>
        have hnext := ih h
        have ht : t = s.next.2 := by rw [heq]
        rw [ht, upcoming_next] at hnext
        exact List.mem_of_mem_tail hnext
      · next g t heq =>
        cases h
        exact mem_of_next (by rw [heq])

theorem next_of_peek_one {t : Token} (h : s.peek 1 = .ok t) (hkind : s.current.kind ≠ .eof) :
    s.next.2.current = t := by
  unfold peek at h
  rw [if_neg hkind] at h
  split at h
  · next s heq =>
    rw [heq]
    exact Except.ok.inj h
  · cases h

/-! ## Moving on -/

/-- Moving on several times. -/
abbrev Moves : Stream → Stream → Prop := Relation.ReflTransGen fun a b => b = a.next.2

/-- Every run leads to a later part of the words. -/
theorem Moves.words_suffix {a b : Stream} (h : Moves a b) : b.words <:+ a.words := by
  induction h with
  | refl => exact List.suffix_refl _
  | @tail b c _ hstep ih =>
    rw [hstep]
    exact b.words_next_suffix.trans ih

theorem Moves.upcoming_suffix {a b : Stream} (h : Moves a b) : b.upcoming <:+ a.upcoming := by
  induction h with
  | refl => exact List.suffix_refl _
  | @tail b c _ hstep ih =>
    rw [hstep, upcoming_next]
    exact (List.tail_suffix _).trans ih

end Stream

/-! ## Readings -/

theorem mem_readings_of_mem_words {t : Token} (h : t ∈ words source) : .ok t ∈ readings source := by
  obtain ⟨r, hr, hok⟩ := List.mem_filterMap.1 h
  cases r with
  | error f => cases hok
  | ok a =>
    cases hok
    exact hr

/-- No word comes after the end. -/
theorem eq_nil_of_eof {a : Token} {rest : List Token} (h : a :: rest <:+ words source)
    (heof : a.kind = .eof) : rest = [] := by
  have hfrom : ∀ (fuel : Nat) (p : Position) (cs : List Char),
      a :: rest <:+ (readingsFrom fuel p cs).filterMap Except.toOption → rest = [] := by
    -- of a single reading at most one token is left
    have hone : ∀ r : Reading, a :: rest <:+ [r].filterMap Except.toOption → rest = [] := by
      intro r h
      have hlen := Nat.le_trans h.length_le (List.length_filterMap_le _ _)
      rw [List.length_cons, List.length_singleton] at hlen
      exact List.eq_nil_of_length_eq_zero (by omega)
    intro fuel
    induction fuel with
    | zero => exact fun p cs h => hone _ h
    | succ fuel ih =>
      intro p cs h
      rw [readingsFrom] at h
      split at h
      · exact hone _ h
      · next hne =>
        unfold Lexeme.place at h
        dsimp only at h
        split at h
        · next kind text houtcome =>
          -- the token that is taken is not the end of the text
          rcases List.suffix_cons_iff.1 h with heq | h
          · refine absurd houtcome ?_
            obtain rfl : kind = .eof := by
              rw [← heof, (List.cons.inj heq).1]
            exact hne text
          · exact ih _ _ h
        · exact ih _ _ h
  exact hfrom _ _ _ h

theorem mem_readings_cases {r : Reading} (h : r ∈ readings source) :
    ∃ p, r = .ok (.eof p) ∨ ∃ cs, r = (Lexeme.read cs).place p := by
  have hfrom : ∀ (fuel : Nat) (p : Position) (cs : List Char), r ∈ readingsFrom fuel p cs →
      ∃ p, r = .ok (.eof p) ∨ ∃ cs, r = (Lexeme.read cs).place p := by
    intro fuel
    induction fuel with
    | zero => exact fun p cs h => ⟨_, .inl (List.mem_singleton.1 h)⟩
    | succ fuel ih =>
      intro p cs h
      rw [readingsFrom] at h
      split at h
      · exact ⟨p, .inr ⟨cs, List.mem_singleton.1 h⟩⟩
      · rcases List.mem_cons.1 h with h | h
        · exact ⟨p, .inr ⟨cs, h⟩⟩
        · exact ih _ _ h
  exact hfrom _ _ _ h

/-- The faults of readings are lexical. -/
theorem cause_of_mem_readings {f : Fault} (h : .error f ∈ readings source) :
    ∃ cause, f.cause = .lexical cause := by
  obtain ⟨p, hf | ⟨cs, hf⟩⟩ := mem_readings_cases h
  · cases hf
  · unfold Lexeme.place at hf
    dsimp only at hf
    split at hf
    · cases hf
    · next cause _ =>
      cases hf
      exact ⟨cause, rfl⟩

end TypedLua.Token
