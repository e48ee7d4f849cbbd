import TypedLua.Proofs.Text.Lines
import TypedLua.Proofs.Token.Words

/-!
# Token.Layout

Where the tokens of a text stand.  The readings of a text stand in it in order, each after the end
of the one before.  So a span that runs from one token of the text to a later one is written with
the tokens from the first to the last: the text under it starts with the text of the first one, and
ends with that of the last one.  A stream that is moved on passes tokens that follow each other.

Main statements: `Token.readings_laid`, `Span.covers` and `Token.Stream.Of.consecutive`.
-/

namespace TypedLua

open Text

/-- The fault is one of the text: it lies in the text, and it is not that another module is
refused. -/
structure Fault.Own (source : String) (f : Fault) : Prop where
  span : f.span.IsIn source
  /-- No import is at fault because of its module. -/
  cause : ∀ x, f.cause ≠ .failedImport x

variable {source : String}

/-! ## Readings -/

namespace Token

variable {first : Nat} {rs : List Reading} {r r' : Reading}

/-- Where a reading stands. -/
def Reading.span : Reading → Span
  | .ok t => t.span
  | .error f => f.span

/-- The reading is one of the text. -/
def Reading.Lies (source : String) : Reading → Prop
  | .ok t => t.span.IsIn source
  | .error f => f.Own source

theorem Reading.Lies.isIn (h : Reading.Lies source r) : (Reading.span r).IsIn source := by
  cases r with
  | ok t => exact h
  | error f => exact h.span

/-- The readings stand in the text in order, from an offset on; the last one spans nothing. -/
inductive Laid (source : String) : Nat → List Reading → Prop
  | last {first : Nat} {r : Reading} : Reading.Lies source r →
    first ≤ (Reading.span r).start.offset → (Reading.span r).stop = (Reading.span r).start →
    Laid source first [r]
  | cons {first : Nat} {r : Reading} {rs : List Reading} : Reading.Lies source r →
    first ≤ (Reading.span r).start.offset → Laid source (Reading.span r).stop.offset rs →
    Laid source first (r :: rs)

/-- Readings that are laid out lie in the text. -/
theorem Laid.lies (h : Laid source first rs) (hr : r ∈ rs) : Reading.Lies source r := by
  induction h with
  | last hlies =>
    rw [List.mem_singleton.1 hr]
    exact hlies
  | cons hlies _ _ ih =>
    rcases List.mem_cons.1 hr with rfl | hr
    · exact hlies
    · exact ih hr

theorem Laid.head_le (h : Laid source first (r :: rs)) :
    first ≤ (Reading.span r).start.offset := by
  cases h with
  | last _ hle => exact hle
  | cons _ hle => exact hle

theorem Laid.tail (h : Laid source first (r :: r' :: rs)) :
    Laid source (Reading.span r).stop.offset (r' :: rs) := by
  cases h with
  | cons _ _ hrest => exact hrest

theorem Laid.point (h : Laid source first [r]) :
    (Reading.span r).stop = (Reading.span r).start := by
  cases h with
  | last _ _ hpoint => exact hpoint
  | cons _ _ hnone => cases hnone

/-- None begins before the first offset. -/
theorem Laid.first_le (h : Laid source first rs) (hr : r ∈ rs) :
    first ≤ (Reading.span r).start.offset := by
  induction h with
  | last _ hle =>
    rw [List.mem_singleton.1 hr]
    exact hle
  | cons hlies hle _ ih =>
    rcases List.mem_cons.1 hr with rfl | hr
    · exact hle
    · exact (hle.trans hlies.isIn.le).trans (ih hr)

/-- Each reading ends before those after it start. -/
theorem Laid.pairwise (h : Laid source first rs) :
    rs.Pairwise fun r r' => (Reading.span r).stop.offset ≤ (Reading.span r').start.offset := by
  induction h with
  | last => exact List.pairwise_singleton _ _
  | cons _ _ hrest ih => exact List.pairwise_cons.2 ⟨fun _ hr => hrest.first_le hr, ih⟩

theorem isIn_of_parts {p : Position} {before lead body rest : List Char}
    (hp : p = .after .origin before) (hsource : source.toList = before ++ (lead ++ body ++ rest)) :
    (Span.mk (p.after lead) ((p.after lead).after body)).IsIn source ∧
      p.offset ≤ (p.after lead).offset ∧
      (p.after lead).after body = .after .origin (before ++ (lead ++ body)) := by
  have hafter : ∀ cs, p.after cs = .after .origin (before ++ cs) := by
    intro cs
    rw [hp, ← Position.after_append]
  have hstop : (p.after lead).after body = .after .origin (before ++ (lead ++ body)) := by
    rw [← Position.after_append, hafter]
  refine ⟨⟨⟨_, body ++ rest, ?_, hafter lead⟩, ⟨_, rest, ?_, hstop⟩, ?_⟩, ?_, hstop⟩
  · simp [hsource]
  · simp [hsource]
  · show (p.after lead).offset ≤ ((p.after lead).after body).offset
    rw [Position.after_offset (p.after lead)]
    omega
  · rw [Position.after_offset]
    omega

/-- Readings that tile a text are laid out in it. -/
theorem Tiles.laid {p : Position} {cs : List Char} (h : Tiles p cs rs) (before : List Char)
    (hp : p = .after .origin before) (hsource : source.toList = before ++ cs) :
    Laid source p.offset rs := by
  induction h generalizing before with
  | @done p lead hblank =>
    have hall : source.toList = before ++ (lead ++ [] ++ []) := by simp [hsource]
    obtain ⟨hspan, hle, -⟩ := isIn_of_parts hp hall
    exact .last (r := .ok _) hspan hle rfl
  | @token p lead body rest kind text rs hblank hbody hkind htext _ ih =>
    obtain ⟨hspan, hle, hstop⟩ := isIn_of_parts hp hsource
    exact .cons (r := .ok _) hspan hle (ih _ hstop (by simp [hsource]))
  | @fault p lead body rest cause rs hbody _ ih =>
    obtain ⟨hspan, hle, hstop⟩ := isIn_of_parts hp hsource
    exact .cons (r := .error _) ⟨hspan, nofun⟩ hle (ih _ hstop (by simp [hsource]))

/-- The end of the text is read last, and nowhere else. -/
theorem Tiles.ends {p : Position} {cs : List Char} (h : Tiles p cs rs) :
    ∃ rs' q, rs = rs' ++ [.ok (.eof q)] ∧ ∀ t, .ok t ∈ rs' → t.kind ≠ .eof := by
  induction h with
  | @done p lead _ => exact ⟨[], p.after lead, rfl, nofun⟩
  | token _ _ hkind _ _ ih =>
    obtain ⟨rs', q, rfl, hrs'⟩ := ih
    refine ⟨_ :: rs', q, rfl, fun t ht => ?_⟩
    rcases List.mem_cons.1 ht with ht | ht
    · cases ht
      exact hkind
    · exact hrs' t ht
  | fault _ _ ih =>
    obtain ⟨rs', q, rfl, hrs'⟩ := ih
    refine ⟨_ :: rs', q, rfl, fun t ht => ?_⟩
    rcases List.mem_cons.1 ht with ht | ht
    · cases ht
    · exact hrs' t ht

/-- The readings of a text stand in it in order. -/
theorem readings_laid (source : String) : Laid source 0 (readings source) :=
  (readings_tiles source).laid [] rfl rfl

/-- The tokens follow each other in the text. -/
abbrev Consecutive (source : String) (ts : List Token) : Prop :=
  ts.map .ok <:+: readings source

theorem Consecutive.isIn {ts : List Token} {t : Token} (h : Consecutive source ts) (ht : t ∈ ts) :
    t.span.IsIn source :=
  (readings_laid source).lies (r := .ok t) (h.subset (List.mem_map_of_mem ht))

/-- Of consecutive tokens the later begins where the earlier ended, or after it. -/
theorem Consecutive.pairwise {ts : List Token} (h : Consecutive source ts) :
    ts.Pairwise fun t u => t.span.stop.offset ≤ u.span.start.offset :=
  List.pairwise_map.1 ((readings_laid source).pairwise.sublist h.sublist)

end Token

/-! ## What is written under a span -/

namespace Text.Span

/-- The text of an inner span is inside the text of the outer one. -/
theorem IsIn.slice_inside {s t : Span} (hs : s.IsIn source) (ht : t.IsIn source)
    (hstart : s.start.offset ≤ t.start.offset) (hstop : t.stop.offset ≤ s.stop.offset) :
    ∃ before after : List Char,
      s.slice? source = some (String.ofList before ++ t.slice source ++ String.ofList after) ∧
      t.start.offset = s.start.offset + byteLength before ∧
      s.stop.offset = t.stop.offset + byteLength after := by
  obtain ⟨b, mid, a, hsource, rfl⟩ := hs.parts
  obtain ⟨b', mid', a', hsource', rfl⟩ := ht.parts
  have hoffset : ∀ cs, (Position.origin.after cs).offset = byteLength cs := fun cs =>
    (Position.after_offset _ cs).trans (Nat.zero_add _)
  simp only [hoffset] at hstart hstop ⊢
  have hcut : b ++ (mid ++ a) = b' ++ (mid' ++ a') := by
    rw [← List.append_assoc, ← List.append_assoc, ← hsource, ← hsource']
  obtain ⟨before, rfl, -⟩ := append_of_byteLength_le hcut hstart
  obtain ⟨after, hmid, -⟩ := append_of_byteLength_le (hsource'.symm.trans hsource) hstop
  obtain rfl : mid = before ++ mid' ++ after := by simpa using hmid
  refine ⟨before, after, ?_, byteLength_append _ _, ?_⟩
  · rw [slice, slice?_after hsource, slice?_after hsource', Option.getD_some]
    simp only [String.ofList_append]
  · simp only [byteLength_append]
    omega

/-- The span runs from the first of the tokens, which follow each other in the text, to the last
one: what is written under it starts with what is written under the first token, and ends with what
is written under the last one. -/
structure Covers (source : String) (s : Span) (ts : List Token) : Prop where
  isIn : s.IsIn source
  tokens : Token.Consecutive source ts
  first : ∃ t rest, ts.head? = some t ∧ t.span.start = s.start ∧
    s.slice? source = some (t.span.slice source ++ rest)
  last : ∃ t rest, ts.getLast? = some t ∧ t.span.stop = s.stop ∧
    s.slice? source = some (rest ++ t.span.slice source)

/-- Consecutive tokens are covered from the first to the last. -/
theorem covers {ts : List Token} {t u : Token} (h : Token.Consecutive source ts)
    (hfirst : ts.head? = some t) (hlast : ts.getLast? = some u) :
    (Span.mk t.span.start u.span.stop).Covers source ts := by
  have ht := h.isIn (List.mem_of_head? hfirst)
  have hu := h.isIn (List.mem_of_getLast? hlast)
  -- the first token is the last one, or it stands before it
  have horder : t = u ∨ t.span.stop.offset ≤ u.span.start.offset := by
    obtain ⟨rest, rfl⟩ := List.head?_eq_some_iff.1 hfirst
    rcases List.mem_cons.1 (List.mem_of_getLast? hlast) with rfl | hmem
    · exact .inl rfl
    · exact .inr ((List.pairwise_cons.1 h.pairwise).1 u hmem)
  have hbounds : t.span.start.offset ≤ u.span.start.offset ∧
      t.span.stop.offset ≤ u.span.stop.offset := by
    rcases horder with rfl | hle
    · exact ⟨Nat.le_refl _, Nat.le_refl _⟩
    · exact ⟨ht.le.trans hle, hle.trans hu.le⟩
  have hs : (Span.mk t.span.start u.span.stop).IsIn source :=
    ⟨ht.start, hu.stop, ht.le.trans hbounds.2⟩
  obtain ⟨before, after, hslice, hbefore, -⟩ := hs.slice_inside ht (Nat.le_refl _) hbounds.2
  obtain ⟨before', after', hslice', -, hafter⟩ := hs.slice_inside hu hbounds.1 (Nat.le_refl _)
  have hnil : ∀ cs : List Char, byteLength cs = 0 → cs = [] := fun cs hcs =>
    by_contra fun hne => Nat.ne_of_gt (byteLength_pos hne) hcs
  obtain rfl := hnil before (Nat.left_eq_add.1 hbefore)
  obtain rfl := hnil after' (Nat.left_eq_add.1 hafter)
  exact ⟨hs, h, ⟨t, _, hfirst, rfl, by simpa using hslice⟩,
    ⟨u, _, hlast, rfl, by simpa using hslice'⟩⟩

namespace Covers

variable {s p : Span} {ts us : List Token} {t : Token}

theorem ne_nil (h : s.Covers source ts) : ts ≠ [] := by
  rintro rfl
  obtain ⟨_, _, hfirst, -⟩ := h.first
  cases hfirst

/-- A token is inside a span that covers it. -/
theorem bounds (h : s.Covers source ts) (ht : t ∈ ts) :
    s.start.offset ≤ t.span.start.offset ∧ t.span.stop.offset ≤ s.stop.offset := by
  have hpairwise := h.tokens.pairwise
  obtain ⟨first, _, hfirst, hstart, -⟩ := h.first
  obtain ⟨last, _, hlast, hstop, -⟩ := h.last
  rw [← hstart, ← hstop]
  constructor
  · have hle := (h.tokens.isIn (List.mem_of_head? hfirst)).le
    obtain ⟨rest, rfl⟩ := List.head?_eq_some_iff.1 hfirst
    rcases List.mem_cons.1 ht with rfl | hmem
    · exact Nat.le_refl _
    · exact hle.trans ((List.pairwise_cons.1 hpairwise).1 t hmem)
  · have hle := (h.tokens.isIn (List.mem_of_getLast? hlast)).le
    obtain ⟨rest, rfl⟩ := List.getLast?_eq_some_iff.1 hlast
    rcases List.mem_append.1 ht with hmem | hmem
    · exact ((List.pairwise_append.1 hpairwise).2.2 t hmem last List.mem_cons_self).trans hle
    · rw [List.mem_singleton.1 hmem]

theorem le_start {n : Nat} (h : s.Covers source ts) (hn : ∀ t ∈ ts, n ≤ t.span.start.offset) :
    n ≤ s.start.offset := by
  obtain ⟨first, _, hfirst, hstart, -⟩ := h.first
  rw [← hstart]
  exact hn first (List.mem_of_head? hfirst)

theorem stop_le {n : Nat} (h : s.Covers source ts) (hn : ∀ t ∈ ts, t.span.stop.offset ≤ n) :
    s.stop.offset ≤ n := by
  obtain ⟨last, _, hlast, hstop, -⟩ := h.last
  rw [← hstop]
  exact hn last (List.mem_of_getLast? hlast)

/-- What covers some of the tokens stands inside of what covers all of them. -/
theorem inside (h : s.Covers source ts) (hp : p.Covers source us) (hsub : us ⊆ ts) :
    s.start.offset ≤ p.start.offset ∧ p.stop.offset ≤ s.stop.offset :=
  ⟨hp.le_start fun _ ht => (h.bounds (hsub ht)).1, hp.stop_le fun _ ht => (h.bounds (hsub ht)).2⟩

end Covers

end Text.Span

/-! ## Streams -/

namespace Token.Stream

/-- The stream is one of the text, at one of its tokens. -/
def Of (source : String) (s : Stream) : Prop := s.remaining <:+ Token.readings source

/-- A stream that is made from a text is a stream of it. -/
theorem of_ofSource {s : Stream} (h : ofSource source = .ok s) : s.Of source :=
  ⟨[], remaining_ofSource h⟩

/-- From the first stream to the second one the tokens are taken. -/
def Passes (a : Stream) (ts : List Token) (b : Stream) : Prop :=
  a.remaining = ts.map .ok ++ b.remaining

variable {a b c : Stream} {ts us : List Token}

theorem Passes.trans (h : a.Passes ts b) (h' : b.Passes us c) : a.Passes (ts ++ us) c := by
  unfold Passes at h h' ⊢
  rw [h, h', List.map_append, List.append_assoc]

/-- It is still one when tokens are passed. -/
theorem Of.of_passes (ha : a.Of source) (h : a.Passes ts b) : b.Of source :=
  List.IsSuffix.trans ⟨_, h.symm⟩ ha

/-- Tokens that are passed are consecutive. -/
theorem Of.consecutive (ha : a.Of source) (h : a.Passes ts b) : Token.Consecutive source ts := by
  obtain ⟨before, hbefore⟩ := ha
  refine ⟨before, b.remaining, ?_⟩
  rw [List.append_assoc, ← h, hbefore]

theorem Of.covers (ha : a.Of source) : a.current.span.Covers source [a.current] :=
  Span.covers (List.IsInfix.trans ⟨[], a.upcoming, rfl⟩ ha.isInfix) rfl rfl

/-- The end of the text comes last, and only there. -/
theorem Of.ends (ha : a.Of source) :
    ∃ rs q, a.remaining = rs ++ [.ok (.eof q)] ∧ ∀ t, .ok t ∈ rs → t.kind ≠ .eof := by
  obtain ⟨rs, q, hreadings, hrs⟩ := (readings_tiles source).ends
  unfold Of at ha
  rw [hreadings] at ha
  rcases List.suffix_concat_iff.1 ha with hnil | ⟨rs', hremaining, hsuffix⟩
  · cases hnil
  · exact ⟨rs', q, hremaining, fun t ht => hrs t (hsuffix.subset ht)⟩

theorem Of.upcoming_ne_nil (ha : a.Of source) (hkind : a.current.kind ≠ .eof) :
    a.upcoming ≠ [] := by
  intro hnil
  obtain ⟨rs, q, hremaining, -⟩ := ha.ends
  unfold remaining at hremaining
  rw [hnil] at hremaining
  have hlast := congrArg List.getLast? hremaining
  rw [List.getLast?_concat, List.getLast?_singleton] at hlast
  exact hkind (congrArg Token.kind (Except.ok.inj (Option.some.inj hlast)))

theorem Of.remaining_eq (ha : a.Of source) (hkind : a.current.kind = .eof) :
    ∃ q, a.remaining = [.ok (.eof q)] := by
  obtain ⟨rs, q, hremaining, hrs⟩ := ha.ends
  cases rs with
  | nil => exact ⟨q, hremaining⟩
  | cons r rs =>
    have hr : .ok a.current = r := (List.cons.inj hremaining).1
    exact absurd hkind (hrs _ (hr ▸ List.mem_cons_self))

/-- A step passes the current token. -/
theorem Of.passes_next (ha : a.Of source) (hkind : a.current.kind ≠ .eof)
    (h : a.next.1 = .ok ()) : a.Passes [a.current] a.next.2 := by
  have hupcoming := ha.upcoming_ne_nil hkind
  unfold next at h ⊢
  unfold Passes remaining
  cases hrest : a.upcoming with
  | nil => exact absurd hrest hupcoming
  | cons r rest =>
    rw [hrest] at h
    cases r with
    | ok t => rfl
    | error f => cases h

end Token.Stream

end TypedLua
