import TypedLua.Files.Tree
import TypedLua.Proofs.Files.Components

/-!
# Files.Places

Where paths lead.  A file can be named in many ways, from the root or from the working directory, but
it stands at one place, so does its directory, and what an import names depends on that place only.

Main statements: `locate_join`, a path is followed from the place of a directory;
`locate_importPath`, one file has the same imports under all its names.
-/

namespace TypedLua

namespace FileTree

variable {t : FileTree} {p : Path} {place next : List String} {xs : List String} {name : String}
  {content : String}

/-! ## Following names -/

/-- What following one more name means. -/
theorem follow_cons_eq_ok : t.follow place (name :: xs) = .ok next ↔
    t.node? place = some .directory ∧
      ∃ middle, t.enter place name = .ok middle ∧ t.follow middle xs = .ok next := by
  rw [follow]
  by_cases hdirectory : t.node? place = some .directory
  · rw [if_pos hdirectory]
    cases t.enter place name <;> simp [hdirectory]
  · simp [hdirectory]

/-- Names can be followed in two goes. -/
theorem follow_append (t : FileTree) (place xs ys : List String) :
    t.follow place (xs ++ ys) = (t.follow place xs).bind (t.follow · ys) := by
  induction xs generalizing place with
  | nil => rfl
  | cons x xs ih =>
    rw [List.cons_append, follow, follow]
    split
    · cases t.enter place x with
      | error e => rfl
      | ok middle => exact ih middle
    · rfl

theorem enter_of_isVoid (h : Path.isVoid name = true) : t.enter place name = .ok place := by
  rw [enter, if_pos h]

/-- Names without a meaning can be left out. -/
theorem follow_meaningful (h : t.follow place xs = .ok next) :
    t.follow place (Path.meaningful xs) = .ok next := by
  induction xs generalizing place with
  | nil => exact h
  | cons x xs ih =>
    obtain ⟨hdirectory, middle, henter, hrest⟩ := follow_cons_eq_ok.1 h
    cases hvoid : Path.isVoid x with
    | true =>
      rw [Path.meaningful_cons_of_isVoid hvoid]
      rw [enter_of_isVoid hvoid] at henter
      cases henter
      exact ih hrest
    | false =>
      rw [Path.meaningful, List.filter_cons_of_pos (by rw [hvoid]; rfl)]
      exact follow_cons_eq_ok.2 ⟨hdirectory, middle, henter, ih hrest⟩

/-- On the way to a directory, names without a meaning can be put in. -/
theorem follow_of_meaningful (h : t.follow place (Path.meaningful xs) = .ok next)
    (hnext : t.node? next = some .directory) :
    t.follow place xs = .ok next ∧ t.node? place = some .directory := by
  induction xs generalizing place with
  | nil =>
    cases h
    exact ⟨rfl, hnext⟩
  | cons x xs ih =>
    cases hvoid : Path.isVoid x with
    | true =>
      rw [Path.meaningful_cons_of_isVoid hvoid] at h
      obtain ⟨hrest, hdirectory⟩ := ih h
      exact ⟨follow_cons_eq_ok.2 ⟨hdirectory, place, enter_of_isVoid hvoid, hrest⟩, hdirectory⟩
    | false =>
      rw [Path.meaningful, List.filter_cons_of_pos (by rw [hvoid]; rfl)] at h
      obtain ⟨hdirectory, middle, henter, hrest⟩ := follow_cons_eq_ok.1 h
      exact ⟨follow_cons_eq_ok.2 ⟨hdirectory, middle, henter, (ih hrest).1⟩, hdirectory⟩

/-! ## Places that are reached -/

/-- All places on the way to a place are directories. -/
def Settled (t : FileTree) (place : List String) : Prop :=
  ∀ earlier, earlier <+: place → earlier ≠ place → t.node? earlier = some .directory

/-- The working directory and those around it are directories. -/
theorem node?_of_around (h : place <+: t.hereNames) : t.node? place = some .directory := by
  rw [node?, if_pos (List.isPrefixOf_iff_prefix.2 h)]

/-- A path is followed from a settled place. -/
theorem settled_start (t : FileTree) (p : Path) : t.Settled (t.start p) := by
  intro earlier hearlier _
  refine node?_of_around (hearlier.trans ?_)
  unfold start
  split
  · exact List.nil_prefix
  · exact List.prefix_refl _

/-- A directory and what stands in it: following names leads to a place of which the same is true. -/
theorem Settled.enter (h : t.Settled place) (hdirectory : t.node? place = some .directory)
    (henter : t.enter place name = .ok next) :
    t.Settled next ∧ (t.node? next = some .directory ∨ next = place ++ [name]) := by
  unfold FileTree.enter at henter
  split at henter
  · cases henter
    exact ⟨h, .inl hdirectory⟩
  · split at henter
    · -- back to the directory around this one
      cases henter
      have hparent : place.dropLast <+: place := List.dropLast_prefix _
      refine ⟨fun earlier hearlier hne => ?_, .inl ?_⟩
      · refine h earlier (hearlier.trans hparent) fun heq => hne ?_
        exact hearlier.eq_of_length_le (heq ▸ hparent.length_le)
      · by_cases hsame : place.dropLast = place
        · rwa [hsame]
        · exact h _ hparent hsame
    · split at henter
      · cases henter
        refine ⟨fun earlier hearlier hne => ?_, .inr rfl⟩
        -- a way to the new name goes through the directory that has it
        have hearlier := (List.prefix_concat_iff.1 hearlier).resolve_left hne
        by_cases hplace : earlier = place
        · rwa [hplace]
        · exact h earlier hearlier hplace
      · cases henter

/-- Following names keeps the place settled. -/
theorem Settled.follow (h : t.Settled place) (hfollow : t.follow place xs = .ok next) :
    t.Settled next := by
  induction xs generalizing place with
  | nil =>
    cases hfollow
    exact h
  | cons x xs ih =>
    obtain ⟨hdirectory, middle, henter, hrest⟩ := follow_cons_eq_ok.1 hfollow
    exact ih (h.enter hdirectory henter).1 hrest

/-- The way to a file goes to a directory and then to the name of the file. -/
theorem follow_to_file (h : t.follow (t.start p) xs = .ok place)
    (hnode : t.node? place = some (.text content)) :
    ∃ before name, xs = before ++ [name] ∧ t.follow (t.start p) before = .ok place.dropLast ∧
      t.node? place.dropLast = some .directory := by
  have hfile : t.node? place ≠ some .directory := by
    rw [hnode]
    nofun
  rcases List.eq_nil_or_concat' xs with rfl | ⟨before, name, rfl⟩
  · cases h
    refine absurd (node?_of_around ?_) hfile
    unfold start
    split
    · exact List.nil_prefix
    · exact List.prefix_refl _
  · rw [follow_append] at h
    cases hbefore : t.follow (t.start p) before with
    | error e =>
      rw [hbefore] at h
      cases h
    | ok directory =>
      rw [hbefore] at h
      obtain ⟨hdirectory, next, henter, hnext⟩ := follow_cons_eq_ok.1 h
      cases hnext
      obtain rfl :=
        (((settled_start t p).follow hbefore).enter hdirectory henter).2.resolve_left hfile
      refine ⟨before, name, rfl, ?_⟩
      rw [List.dropLast_concat]
      exact ⟨hbefore, hdirectory⟩

/-! ## Places of files and directories -/

/-- A path leads where its parts do. -/
theorem locate_eq (t : FileTree) (hp : p.text ≠ "") :
    t.locate p = t.follow (t.start p) p.parts := by
  unfold locate
  rw [if_neg (by rwa [beq_iff_eq])]
  rfl

/-- What can be read is a file of text at a place. -/
theorem read_eq_ok (h : t.read p = .ok content) :
    ∃ place, t.locate p = .ok place ∧ t.node? place = some (.text content) := by
  unfold read at h
  cases hplace : t.locate p with
  | error e =>
    rw [hplace] at h
    cases h
  | ok place =>
    rw [hplace] at h
    refine ⟨place, rfl, ?_⟩
    dsimp only [bind, Except.bind] at h
    split at h
    · next hnode =>
      cases h
      exact hnode
    all_goals cases h

/-- A file is known by the place where it stands. -/
theorem key_of_locate (h : t.locate p = .ok place) : t.key p = "/" :: place := by
  unfold key
  rw [h]

/-- The paths from which imports are seen that lead to a directory: the empty path stands for the
working directory. -/
def LeadsTo (t : FileTree) (p : Path) (place : List String) : Prop :=
  t.follow (t.start p) p.names = .ok place ∧ t.node? place = some .directory

/-- A path that is joined to that of a directory is followed from there. -/
theorem locate_join {q : Path} (hp : t.LeadsTo p place) (hq : q.text ≠ "")
    (hrelative : q.isAbsolute = false) : t.locate (p.join q) = t.follow place q.parts := by
  obtain ⟨hfollow, hdirectory⟩ := hp
  have hstart : ∀ q : Path, q.isAbsolute = false → t.start q = t.hereNames := by
    intro q hq
    rw [start, hq]
    rfl
  by_cases hempty : p.text = ""
  · obtain ⟨text⟩ := p
    cases hempty
    cases hfollow
    rw [Path.join_of_empty rfl, locate_eq t hq, hstart q hrelative]
    rfl
  · obtain ⟨kept, last, -, hlast, hparts, hjoin⟩ := Path.parts_join hempty hrelative
    have hne : (p.join q).text ≠ "" := by
      rw [Path.join_of_relative hempty hrelative]
      split <;> simp [hempty]
    have hkept : Path.meaningful kept = p.names := by
      rw [Path.names_eq, hparts, Path.meaningful_append, hlast, List.append_nil]
    rw [← hkept] at hfollow
    rw [locate_eq t hne, hjoin, follow_append, start, (Path.lead_join hempty hrelative).1, ← start,
      (follow_of_meaningful hfollow hdirectory).1]
    rfl

/-- A file is found in the directory that its path names. -/
theorem leadsTo_directory (h : t.locate p = .ok place)
    (hnode : t.node? place = some (.text content)) :
    t.LeadsTo (SourceFile.ofPath p content).directory place.dropLast := by
  have hne : p.text ≠ "" := by
    intro htext
    rw [locate, if_pos (beq_iff_eq.2 htext)] at h
    cases h
  rw [locate_eq t hne] at h
  have hnames : t.follow (t.start p) p.names = .ok place := by
    rw [Path.names_eq]
    exact follow_meaningful h
  obtain ⟨before, name, hbefore, hfollow, hdirectory⟩ := follow_to_file hnames hnode
  obtain ⟨hnames, habsolute⟩ := Path.names_directory hbefore
  refine ⟨?_, hdirectory⟩
  rw [hnames, start, habsolute]
  exact hfollow

/-! ## Imports -/

/-- One file has one text, and its imports lead to the same places under all its names. -/
theorem locate_importPath {p' : Path} {text text' : String} (h : t.read p = .ok text)
    (h' : t.read p' = .ok text') (hkey : t.key p = t.key p') :
    text = text' ∧ ∀ x q, (SourceFile.ofPath p text).importPath? x = some q →
      ∃ q', (SourceFile.ofPath p' text').importPath? x = some q' ∧ t.locate q' = t.locate q := by
  obtain ⟨place, hplace, hnode⟩ := read_eq_ok h
  obtain ⟨place', hplace', hnode'⟩ := read_eq_ok h'
  obtain rfl : place = place' := by
    rw [key_of_locate hplace, key_of_locate hplace'] at hkey
    exact (List.cons.inj hkey).2
  obtain rfl : text = text' := by
    rw [hnode] at hnode'
    cases hnode'
    rfl
  refine ⟨rfl, fun x q hq => ?_⟩
  obtain ⟨hpoint, hhere, rfl⟩ := SourceFile.importPath?_eq_some_iff.1 hq
  refine ⟨_, SourceFile.importPath?_eq_some_iff.2 ⟨hpoint, hhere, rfl⟩, ?_⟩
  cases habsolute : (SourceFile.relativePath x).isAbsolute with
  | true => rw [Path.join_of_isAbsolute habsolute, Path.join_of_isAbsolute habsolute]
  | false =>
    have hne : (SourceFile.relativePath x).text ≠ "" := by
      intro hempty
      have hchars := congrArg String.toList hempty
      rw [SourceFile.relativePath, String.toList_append] at hchars
      exact absurd (List.append_eq_nil_iff.1 hchars).2 (by decide)
    rw [locate_join (leadsTo_directory hplace hnode) hne habsolute,
      locate_join (leadsTo_directory hplace' hnode) hne habsolute]

end FileTree

end TypedLua
