import Mathlib.Logic.Function.Iterate
import TypedLua.Proofs.Token.Tiling
import TypedLua.Proofs.Token.Words

/-!
# Token.Progress

Every move of a stream gets on, over a fault as well as over a token, until the text ends.

Main statement: `Stream.progress`, from `Stream.Covers.next` along the moves of a stream.
-/

namespace TypedLua.Token

open Text

namespace Stream

/-- What a stream has left of a text that ends at `last`: the readings to come tile it, and with
none to come the stream stands at the end. -/
inductive Covers (last : Position) (s : Stream) : Prop
  | within (rest : List Char) :
      s.position.after rest = last → Tiles s.position rest s.upcoming → Covers last s
  | finished : s.position = last → s.current = .eof last → s.upcoming = [] → Covers last s

/-- The next move gets on in a text of so many bytes. -/
structure Progresses (size : Nat) (s : Stream) : Prop where
  onward : s.position.offset < size → s.position.offset < s.next.2.position.offset
  within : s.next.2.position.offset ≤ size
  kept : ∀ f, s.next.1 = .error f → s.next.2.current = s.current
  ended : s.position.offset = size →
    s.next.1 = .ok () ∧ s.next.2.position = s.position ∧ s.next.2.current = .eof s.position

variable {last : Position} {s t : Stream}

theorem Covers.offset_le (h : s.Covers last) : s.position.offset ≤ last.offset := by
  cases h with
  | within rest hrest _ =>
    rw [← hrest, Position.after_offset]
    omega
  | finished hlast _ _ => rw [hlast]

/-- A step gets further, or the stream is at its end. -/
theorem Covers.next_cases (h : s.Covers last) :
    (s.next.2.Covers last ∧ s.position.offset < s.next.2.position.offset ∧
      ∀ f, s.next.1 = .error f → s.next.2.current = s.current) ∨
    s.next = (.ok (), ⟨.eof last, last, []⟩) := by
  obtain ⟨current, position, upcoming⟩ := s
  cases h with
  | finished hlast hcurrent hupcoming =>
    dsimp only at hlast hcurrent hupcoming
    subst hlast hcurrent hupcoming
    exact .inr rfl
  | within rest hrest htiles =>
    dsimp only at hrest htiles
    cases htiles with
    | done hblank =>
      subst hrest
      exact .inr rfl
    | @token _ lead body rest kind text rs _ hbody _ _ htiles =>
      have hpos := byteLength_pos hbody
      refine .inl ⟨.within rest ?_ htiles, ?_, fun f hf => by cases hf⟩
      · rw [← hrest, Position.after_append, Position.after_append]
        rfl
      · show position.offset < ((position.after lead).after body).offset
        rw [Position.after_offset, Position.after_offset]
        omega
    | @fault _ lead body rest cause rs hbody htiles =>
      have hpos := byteLength_pos hbody
      refine .inl ⟨.within rest ?_ htiles, ?_, fun _ _ => rfl⟩
      · rw [← hrest, Position.after_append, Position.after_append]
        rfl
      · show position.offset < ((position.after lead).after body).offset
        rw [Position.after_offset, Position.after_offset]
        omega

theorem Covers.next (h : s.Covers last) : s.next.2.Covers last := by
  rcases h.next_cases with ⟨hcovers, -, -⟩ | hend
  · exact hcovers
  · rw [hend]
    exact .finished rfl rfl rfl

/-- The stream covers the rest of the text after every run. -/
theorem Covers.moves (h : s.Covers last) (hmoves : Moves s t) : t.Covers last := by
  induction hmoves with
  | refl => exact h
  | tail _ hstep ih =>
    rw [hstep]
    exact ih.next

theorem Covers.ofSource {source : String} (h : Stream.ofSource source = .ok s) :
    s.Covers (Position.origin.after source.toList) := by
  have hstart : Covers (Position.origin.after source.toList)
      ⟨.eof .origin, .origin, readings source⟩ := .within _ rfl (readings_tiles source)
  unfold Stream.ofSource at h
  dsimp only at h
  split at h
  · next hnext =>
    cases h
    have hcovers := hstart.next
    rwa [hnext] at hcovers
  · cases h

/-- Each step gets further until the end. -/
theorem Covers.progresses (h : s.Covers last) : s.Progresses last.offset := by
  have hle := h.offset_le
  rcases h.next_cases with ⟨hcovers, hlt, hkept⟩ | hend
  · have hle' := hcovers.offset_le
    exact ⟨fun _ => hlt, hle', hkept, fun hsize => by omega⟩
  · have hat : s.position.offset = last.offset → s.position = last := by
      intro hsize
      cases h with
      | finished hlast _ _ => exact hlast
      | within rest hrest _ =>
        have hbytes := congrArg Position.offset hrest
        rw [Position.after_offset, hsize] at hbytes
        have hnil : rest = [] := by
          by_contra hne
          have hpos := byteLength_pos hne
          omega
        rw [← hrest, hnil, Position.after_nil]
    refine ⟨fun hlt => ?_, ?_, fun f hf => ?_, fun hsize => ?_⟩
    · rwa [hend]
    · rw [hend]
    · rw [hend] at hf
      cases hf
    · rw [hend, hat hsize]
      exact ⟨rfl, rfl, rfl⟩

/-- The end is reached within one step more than there are bytes left. -/
theorem Covers.iterate (count : Nat) (h : s.Covers last)
    (hcount : last.offset < s.position.offset + count) :
    ((fun t : Stream => t.next.2)^[count] s).current = .eof last := by
  induction count generalizing s with
  | zero =>
    have hle := h.offset_le
    omega
  | succ count ih =>
    rw [Function.iterate_succ_apply]
    rcases h.next_cases with ⟨hcovers, hlt, -⟩ | hend
    · exact ih hcovers (by omega)
    · -- at the end every further move stays
      rw [hend, Function.iterate_fixed rfl]

/-- **Reading always gets on**: wherever a stream of the text is moved to, over tokens and over
faults, the next move goes strictly forward as long as text is left, a fault leaves the current token
as it was, and at the end the current token is the end of the text.  So whatever is wrong with the
text, one move more than it has bytes left comes to its end. -/
theorem progress {source : String} {a : Stream} (ha : Stream.ofSource source = .ok a)
    (hmoves : Moves a s) :
    s.Progresses (byteLength source.toList) ∧
      ∃ p : Position, p.offset = byteLength source.toList ∧
        ∀ count, byteLength source.toList < s.position.offset + count →
          ((fun t : Stream => t.next.2)^[count] s).current = .eof p := by
  have hcovers := (Covers.ofSource ha).moves hmoves
  have hoffset : (Position.origin.after source.toList).offset = byteLength source.toList := by
    rw [Position.after_offset]
    exact Nat.zero_add _
  refine ⟨hoffset ▸ hcovers.progresses, _, hoffset, fun count hcount => ?_⟩
  exact hcovers.iterate count (hoffset.symm ▸ hcount)

/-- A text of ten bytes with a bad character, a bad escape and a string that does not end. -/
theorem progress_over_faults :
    ∃ a, Stream.ofSource "x $ '\\q'\n'" = .ok a ∧ a.next.1.isOk = false ∧ a.Progresses 10 ∧
      ∃ p : Position, p.offset = 10 ∧
        ((fun t : Stream => t.next.2)^[11] a).current = .eof p := by
  have hfault : (Stream.ofSource "x $ '\\q'\n'").toOption.map (fun a => a.next.1.isOk) =
      some false := by decide +kernel
  have hsize : byteLength "x $ '\\q'\n'".toList = 10 := by decide +kernel
  cases ha : Stream.ofSource "x $ '\\q'\n'" with
  | error f =>
    rw [ha] at hfault
    cases hfault
  | ok a =>
    obtain ⟨hprogresses, p, hp, hend⟩ := progress ha .refl
    rw [hsize] at hprogresses hp hend
    rw [ha] at hfault
    exact ⟨a, rfl, Option.some.inj hfault, hprogresses, p, hp, hend 11 (by omega)⟩

end Stream

end TypedLua.Token
