import TypedLua.Proofs.Token.Words

/-!
# Token.References

Renaming the parameters of an interface in a text.  Within the declaration of an interface a name is
a type, and may be a parameter, if it stands after a colon, an arrow, an ellipsis or an opening
angle bracket or parenthesis, or after a comma between such brackets; properties are named
elsewhere.  Two texts, of which one is the other with parameters of one of its interfaces renamed,
have the same kinds of tokens, and while both are read token by token, the names that are read
together are the same outside of that declaration and where properties are named.

Main statements: `Matches.tail` and `Matches.head`.
-/

namespace TypedLua.Token

open Text

/-! ## What a text says -/

/-- What a reading says: kind and text of its token, and nothing where there is a fault. -/
def Reading.content (r : Reading) : Option (Kind × String) := r.toOption.map Token.content

/-- The kind of a token, wherever it stands and whatever its text. -/
def kindOf (c : Option (Kind × String)) : Option Kind := c.map Prod.fst

/-- What a text says, reading by reading. -/
def contents (source : String) : List (Option (Kind × String)) :=
  (readings source).map Reading.content

theorem getLast?_contents (source : String) :
    ∃ text, (contents source).getLast? = some (some (.eof, text)) := by
  have hfrom : ∀ (fuel : Nat) (p : Position) (cs : List Char),
      ∃ text,
        ((readingsFrom fuel p cs).map Reading.content).getLast? = some (some (.eof, text)) := by
    intro fuel
    induction fuel with
    | zero => exact fun p cs => ⟨"", rfl⟩
    | succ fuel ih =>
      intro p cs
      rw [readingsFrom]
      split
      · next text houtcome =>
        refine ⟨text, ?_⟩
        unfold Lexeme.place
        rw [houtcome]
        rfl
      · obtain ⟨text, htext⟩ := ih ((Lexeme.read cs).place p).stop (Lexeme.read cs).rest
        refine ⟨text, ?_⟩
        rw [List.map_cons, List.getLast?_cons, htext]
        rfl
  exact hfrom _ _ _

namespace Stream

/-- What a stream says from the current token on. -/
def contents (s : Stream) : List (Option (Kind × String)) :=
  some s.current.content :: s.upcoming.map Reading.content

/-- A stream has the contents of its text. -/
theorem contents_ofSource {source : String} {s : Stream} (h : ofSource source = .ok s) :
    s.contents = Token.contents source := by
  unfold Token.contents
  rw [← remaining_ofSource h]
  rfl

section

variable {a b : Stream}

theorem kind_eq (h : b.contents.map kindOf = a.contents.map kindOf) :
    b.current.kind = a.current.kind :=
  Option.some.inj (List.cons.inj h).1

theorem length_upcoming_eq (h : b.contents.map kindOf = a.contents.map kindOf) :
    b.upcoming.length = a.upcoming.length := by
  simpa [contents] using congrArg List.length h

/-- Streams with tokens of the same kinds step together. -/
theorem next_cases (h : b.contents.map kindOf = a.contents.map kindOf)
    (hnext : a.next.1 = .ok ()) : b.next.1 = .ok () ∧
      (a.upcoming = [] ∧ a.next.2 = a ∧ b.next.2 = b ∨
        a.contents = some a.current.content :: a.next.2.contents ∧
          b.contents = some b.current.content :: b.next.2.contents) := by
  have hupcoming : (b.upcoming.map Reading.content).map kindOf =
      (a.upcoming.map Reading.content).map kindOf := (List.cons.inj h).2
  unfold next at hnext ⊢
  unfold contents
  generalize a.upcoming = xs, b.upcoming = ys at hnext hupcoming ⊢
  cases xs with
  | nil =>
    obtain rfl : ys = [] := List.map_eq_nil_iff.1 (List.map_eq_nil_iff.1 hupcoming)
    exact ⟨rfl, .inl ⟨rfl, rfl, rfl⟩⟩
  | cons x xs =>
    cases ys with
    | nil => cases hupcoming
    | cons y ys =>
      cases x with
      | error f => cases hnext
      | ok token =>
        cases y with
        | error f => cases (List.cons.inj hupcoming).1
        | ok token' => exact ⟨rfl, .inr ⟨rfl, rfl⟩⟩

theorem peek_kind_eq (count : Nat) (h : b.contents.map kindOf = a.contents.map kindOf)
    {token : Token} (hpeek : a.peek count = .ok token) :
    ∃ token', b.peek count = .ok token' ∧ token'.kind = token.kind := by
  induction count generalizing a b with
  | zero =>
    cases hpeek
    exact ⟨b.current, rfl, kind_eq h⟩
  | succ count ih =>
    unfold peek at hpeek ⊢
    rw [kind_eq h]
    by_cases heof : a.current.kind = .eof
    · rw [if_pos heof] at hpeek ⊢
      cases hpeek
      exact ⟨b.current, rfl, kind_eq h⟩
    · rw [if_neg heof] at hpeek ⊢
      cases hnext : a.next with
      | mk r a' =>
        rw [hnext] at hpeek
        cases r with
        | error f => cases hpeek
        | ok u =>
          obtain ⟨hok, hmoved⟩ := next_cases h (congrArg Prod.fst hnext)
          rw [hnext] at hmoved
          cases hnext' : b.next with
          | mk r' b' =>
            rw [hnext'] at hok hmoved
            cases hok
            refine ih ?_ hpeek
            rcases hmoved with ⟨-, ha, hb⟩ | ⟨ha, hb⟩
            · rw [show a' = a from ha, show b' = b from hb, h]
            · rw [ha, hb] at h
              exact (List.cons.inj h).2

end

end Stream

/-! ## Places of types -/

/-- A place within the declaration of an interface. -/
structure Place where
  /-- The brackets that are open, the innermost first. -/
  opened : List Kind
  due : Bool
deriving DecidableEq, Repr

namespace Place

/-- The place after the word `interface`. -/
def start : Place := ⟨[], false⟩

/-- The place after a token, unless the token is the brace that ends the declaration. -/
def after (p : Place) : Kind → Option Place
  | .less => some ⟨.less :: p.opened, true⟩
  | .leftParen => some ⟨.leftParen :: p.opened, true⟩
  | .leftBrace => some ⟨.leftBrace :: p.opened, false⟩
  | .greater | .rightParen => some ⟨p.opened.tail, false⟩
  | .rightBrace => if p.opened.length ≤ 1 then none else some ⟨p.opened.tail, false⟩
  | .comma => some ⟨p.opened, p.opened.head? == some .less || p.opened.head? == some .leftParen⟩
  | .colon | .arrow | .ellipsis => some ⟨p.opened, true⟩
  | _ => some ⟨p.opened, false⟩

end Place

/-- Rename the names where a type is due, up to the end of the declaration. -/
def rename (ρ : String → String) :
    Option Place → List (Option (Kind × String)) → List (Option (Kind × String))
  | none, cs => cs
  | some _, [] => []
  | some p, none :: cs => none :: rename ρ (some p) cs
  | some p, some (k, text) :: cs =>
    some (k, if k = .identifier ∧ p.due then ρ text else text) :: rename ρ (p.after k) cs

/-- The names up to a closing angle bracket. -/
def namesListed : List (Option (Kind × String)) → List String
  | [] => []
  | some (.greater, _) :: _ => []
  | some (.identifier, name) :: cs => name :: namesListed cs
  | _ :: cs => namesListed cs

/-- The names between angle brackets, if such a bracket comes first. -/
def namesBracketed : List (Option (Kind × String)) → List String
  | some (.less, _) :: cs => namesListed cs
  | _ => []

theorem namesBracketed_of_ne {k : Kind} (h : k ≠ .less) (text : String)
    (cs : List (Option (Kind × String))) : namesBracketed (some (k, text) :: cs) = [] := by
  unfold namesBracketed
  split
  · next heq =>
    cases heq
    exact absurd rfl h
  · rfl

/-- The parameters of an interface, of which the text from its name on is given. -/
def parameters (cs : List (Option (Kind × String))) : List String := namesBracketed cs.tail

/-! ## Texts that differ in the names of parameters -/

variable {ρ : String → String}

/-- Renaming keeps the kinds of tokens. -/
theorem map_kindOf_rename (place : Option Place) (cs : List (Option (Kind × String))) :
    (rename ρ place cs).map kindOf = cs.map kindOf := by
  fun_induction rename ρ place cs with
  | case1 cs => rfl
  | case2 p => rfl
  | case3 p cs ih => rw [List.map_cons, List.map_cons, ih]
  | case4 p k text cs ih =>
    rw [List.map_cons, List.map_cons, ih]
    rfl

/-- The place after a token; outside of a declaration there is none. -/
def placeAfter (place : Option Place) (k : Kind) : Option Place := place.bind fun p => p.after k

/-- What happens to a name at a place. -/
def naming (ρ : String → String) (place : Option Place) (name : String) : String :=
  if place.any Place.due then ρ name else name

/-- The one text is the other with parameters renamed in one declaration, which at a place has begun
and else is still to come, if it has not been passed. -/
def Matches (ρ : String → String) :
    Option Place → List (Option (Kind × String)) → List (Option (Kind × String)) → Prop
  | some p, cs, ds => ds = rename ρ (some p) cs
  | none, cs, ds => ds = cs ∨ ∃ before text rest, cs = before ++ some (.kwInterface, text) :: rest ∧
      ds = before ++ some (.kwInterface, text) :: rename ρ (some .start) rest ∧
      ∀ name, ρ name ≠ name → name ∈ parameters rest

namespace Matches

variable {place : Option Place} {cs ds : List (Option (Kind × String))} {k : Kind} {text : String}

theorem kinds_eq (h : Matches ρ place cs ds) : ds.map kindOf = cs.map kindOf := by
  cases place with
  | some p => rw [h, map_kindOf_rename]
  | none =>
    rcases h with rfl | ⟨before, text, rest, rfl, rfl, -⟩
    · rfl
    · simp [map_kindOf_rename]

theorem undue {opened : List Kind} {due : Bool}
    (h : Matches ρ (some ⟨opened, due⟩) (some (k, text) :: cs) ds) (hk : k ≠ .identifier)
    (due' : Bool) : Matches ρ (some ⟨opened, due'⟩) (some (k, text) :: cs) ds := by
  rw [Matches, rename, if_neg fun hdue => hk hdue.1] at h ⊢
  exact h

/-- Of matching contents the first tokens match. -/
theorem head {k' : Kind} {text' : String}
    (h : Matches ρ place (some (k, text) :: cs) (some (k', text') :: ds)) :
    text' = if k = .identifier then naming ρ place text else text := by
  cases place with
  | some p =>
    obtain ⟨h, -⟩ := List.cons.inj h
    cases h
    by_cases hk : k = .identifier <;> simp [hk, naming]
  | none =>
    have htext : text' = text := by
      rcases h with h | ⟨before, x, rest, hcs, hds, -⟩
      · cases h
        rfl
      · cases before with
        | nil | cons c before =>
          cases hcs
          cases hds
          rfl
    simp [htext, naming]

/-- So does the rest, at the place after the first. -/
theorem tail {d : Option (Kind × String)} (h : Matches ρ place (some (k, text) :: cs) (d :: ds))
    (hk : place = none → k ≠ .kwInterface) : Matches ρ (placeAfter place k) cs ds := by
  cases place with
  | some p =>
    have htail := (List.cons.inj h).2
    show Matches ρ (p.after k) cs ds
    cases hafter : p.after k with
    | some p' =>
      rw [hafter] at htail
      exact htail
    | none =>
      rw [hafter, rename] at htail
      exact .inl htail
  | none =>
    rcases h with h | ⟨before, x, rest, hcs, hds, hparameters⟩
    · exact .inl (List.cons.inj h).2
    · cases before with
      | nil =>
        cases hcs
        exact absurd rfl (hk rfl)
      | cons c before =>
        exact .inr ⟨before, x, rest, (List.cons.inj hcs).2, (List.cons.inj hds).2, hparameters⟩

/-- After the word `interface` the names may change, if they are parameters. -/
theorem tail_interface {d : Option (Kind × String)}
    (h : Matches ρ none (some (.kwInterface, text) :: cs) (d :: ds)) :
    Matches ρ none cs ds ∨
      Matches ρ (some .start) cs ds ∧ ∀ name, ρ name ≠ name → name ∈ parameters cs := by
  rcases h with h | ⟨before, x, rest, hcs, hds, hparameters⟩
  · exact .inl (.inl (List.cons.inj h).2)
  · cases before with
    | nil =>
      cases hcs
      exact .inr ⟨(List.cons.inj hds).2, hparameters⟩
    | cons c before =>
      left
      exact .inr ⟨before, x, rest, (List.cons.inj hcs).2, (List.cons.inj hds).2, hparameters⟩

end Matches

/-! ## Levels -/

/-- The brackets that are open in the declaration, or nothing outside of it. -/
abbrev Level := Option (List Kind)

namespace Level

/-- A place at the level. -/
def place (due : Bool) (level : Level) : Option Place := level.map fun opened => ⟨opened, due⟩

/-- A place at the level where a type is due. -/
abbrev due (level : Level) : Option Place := level.place true

/-- A place at the level where no type is due. -/
abbrev settled (level : Level) : Option Place := level.place false

/-- The level within one more bracket. -/
def inside (k : Kind) (level : Level) : Level := level.map (k :: ·)

variable {level : Level} {due : Bool}

theorem naming_due_inside (k : Kind) : naming ρ (inside k level).due = naming ρ level.due := by
  cases level <;> rfl

theorem naming_settled (name : String) : naming ρ level.settled name = name := by
  cases level <;> rfl

theorem after_plain (k : Kind)
    (hk : k ∈ [.identifier, .kwNil, .question, .semicolon, .leftBracket, .rightBracket]) :
    placeAfter (level.place due) k = level.settled := by
  simp only [List.mem_cons, List.not_mem_nil, or_false] at hk
  rcases hk with rfl | rfl | rfl | rfl | rfl | rfl <;> cases level <;> rfl

theorem after_announcing (k : Kind) (hk : k ∈ [.colon, .arrow, .ellipsis]) :
    placeAfter (level.place due) k = level.due := by
  simp only [List.mem_cons, List.not_mem_nil, or_false] at hk
  rcases hk with rfl | rfl | rfl <;> cases level <;> rfl

theorem after_opening (k : Kind) (hk : k ∈ [.less, .leftParen]) :
    placeAfter (level.place due) k = (inside k level).due := by
  simp only [List.mem_cons, List.not_mem_nil, or_false] at hk
  rcases hk with rfl | rfl <;> cases level <;> rfl

theorem after_comma (k : Kind) (hk : k ∈ [.less, .leftParen]) :
    placeAfter ((inside k level).place due) .comma = (inside k level).due := by
  simp only [List.mem_cons, List.not_mem_nil, or_false] at hk
  rcases hk with rfl | rfl <;> cases level <;> rfl

theorem after_closing (k k' : Kind) (hk : k ∈ [.greater, .rightParen]) :
    placeAfter ((inside k' level).place due) k = level.settled := by
  simp only [List.mem_cons, List.not_mem_nil, or_false] at hk
  rcases hk with rfl | rfl <;> cases level <;> rfl

theorem after_leftBrace :
    placeAfter (level.place due) .leftBrace = (inside .leftBrace level).settled := by
  cases level <;> rfl

theorem after_separator :
    placeAfter (inside .leftBrace level).settled .comma = (inside .leftBrace level).settled := by
  cases level <;> rfl

theorem after_rightBrace (k : Kind) (h : level ≠ some []) :
    placeAfter (inside k level).settled .rightBrace = level.settled := by
  cases level with
  | none => rfl
  | some opened =>
    cases opened with
    | nil => exact absurd rfl h
    | cons k' opened => rfl

end Level

end TypedLua.Token
