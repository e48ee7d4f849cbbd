import Mathlib.Data.List.DropRight
import TypedLua.Files.SourceFile

/-!
# Files.Components

What a path goes through.  A path starts at the root, at the name `.` or nowhere in particular, and
goes on with its names.  Joining a relative path to a path goes on from where that one leads; joining
an absolute one forgets it.  An import is joined to the directory of the importing file, less a
leading `./`, and what is left of `.//` is absolute.

Main statements: `components_prefix_join` and `SourceFile.imports_under_directory`.
-/

namespace TypedLua

namespace Path

/-! ## Parts -/

variable {cs : List Char} {p q : Path}

theorem splitSlashes_ne_nil (cs : List Char) : splitSlashes cs ≠ [] := by
  cases cs with
  | nil => exact List.cons_ne_nil _ _
  | cons c cs =>
    unfold splitSlashes
    split
    · exact List.cons_ne_nil _ _
    · split
      · exact List.cons_ne_nil _ _
      · exact List.cons_ne_nil _ _

theorem splitSlashes_cons {c : Char} (hc : c ≠ '/') {part : List Char} {parts : List (List Char)}
    (h : splitSlashes cs = part :: parts) : splitSlashes (c :: cs) = (c :: part) :: parts := by
  rw [splitSlashes, if_neg hc, h]

/-- A slash splits what stands before it from what stands behind it. -/
theorem splitSlashes_append (a b : List Char) :
    splitSlashes (a ++ '/' :: b) = splitSlashes a ++ splitSlashes b := by
  induction a with
  | nil => rfl
  | cons c a ih =>
    by_cases hc : c = '/'
    · subst hc
      show [] :: splitSlashes (a ++ '/' :: b) = [] :: (splitSlashes a ++ splitSlashes b)
      rw [ih]
    · obtain ⟨part, parts, ha⟩ := List.exists_cons_of_ne_nil (splitSlashes_ne_nil a)
      rw [ha] at ih
      rw [splitSlashes_cons hc ha]
      exact splitSlashes_cons hc ih

theorem splitSlashes_of_notMem (h : '/' ∉ cs) : splitSlashes cs = [cs] := by
  induction cs with
  | nil => rfl
  | cons c cs ih =>
    rw [List.mem_cons, not_or] at h
    exact splitSlashes_cons (Ne.symm h.1) (ih h.2)

theorem notMem_of_mem_splitSlashes {part : List Char} (h : part ∈ splitSlashes cs) :
    '/' ∉ part := by
  induction cs generalizing part with
  | nil =>
    rw [List.mem_singleton.1 h]
    exact List.not_mem_nil
  | cons c cs ih =>
    by_cases hc : c = '/'
    · subst hc
      change part ∈ [] :: splitSlashes cs at h
      rcases List.mem_cons.1 h with rfl | h
      · exact List.not_mem_nil
      · exact ih h
    · obtain ⟨first, parts, hcs⟩ := List.exists_cons_of_ne_nil (splitSlashes_ne_nil cs)
      rw [splitSlashes_cons hc hcs] at h
      rw [hcs] at ih
      rcases List.mem_cons.1 h with rfl | h
      · rw [List.mem_cons, not_or]
        exact ⟨Ne.symm hc, ih List.mem_cons_self⟩
      · exact ih (List.mem_cons_of_mem _ h)

/-- Splitting undoes joining with slashes. -/
theorem splitSlashes_intercalate {parts : List (List Char)} (hne : parts ≠ [])
    (h : ∀ part ∈ parts, '/' ∉ part) : splitSlashes (['/'].intercalate parts) = parts := by
  induction parts with
  | nil => exact absurd rfl hne
  | cons part parts ih =>
    have hpart := splitSlashes_of_notMem (h part List.mem_cons_self)
    cases parts with
    | nil => simpa using hpart
    | cons next rest =>
      rw [List.intercalate_cons_cons, List.append_assoc]
      show splitSlashes (part ++ '/' :: ['/'].intercalate (next :: rest)) = _
      rw [splitSlashes_append, hpart,
        ih (List.cons_ne_nil _ _) fun p hp => h p (List.mem_cons_of_mem _ hp)]
      rfl

/-- The parts of a path between slashes. -/
def parts (p : Path) : List String := (splitSlashes p.text.toList).map String.ofList

theorem parts_of_append {a b : List Char} (h : p.text.toList = a ++ '/' :: b) :
    p.parts = (splitSlashes a).map String.ofList ++ (splitSlashes b).map String.ofList := by
  unfold parts
  rw [h, splitSlashes_append, List.map_append]

/-! ## Components -/

/-- One step of a path. -/
inductive Component where
  /-- The root. -/
  | root
  /-- The name `.` at the start of a path. -/
  | here
  /-- The name `..`. -/
  | parent
  /-- Any other name. -/
  | name (text : String)
deriving DecidableEq, Repr

/-- The step that a name stands for. -/
def Component.ofName (name : String) : Component := if name = ".." then .parent else .name name

/-- Where a path starts. -/
def lead (p : Path) : List Component :=
  if p.isAbsolute then [.root] else if p.startsHere then [.here] else []

/-- What a path goes through. -/
def components (p : Path) : List Component := p.lead ++ p.names.map .ofName

theorem isAbsolute_iff : p.isAbsolute = true ↔ ∃ cs, p.text.toList = '/' :: cs := by
  unfold isAbsolute
  cases p.text.toList with
  | nil => simp
  | cons c cs => simp

theorem startsHere_iff :
    p.startsHere = true ↔ p.text.toList = ['.'] ∨ ∃ cs, p.text.toList = '.' :: '/' :: cs := by
  unfold startsHere
  split <;> simp_all

/-- The parts of a list that mean something. -/
def meaningful (parts : List String) : List String := parts.filter fun name => !isVoid name

@[simp] theorem meaningful_append (xs ys : List String) :
    meaningful (xs ++ ys) = meaningful xs ++ meaningful ys := List.filter_append ..

theorem meaningful_cons_of_isVoid {x : String} (h : isVoid x = true) (xs : List String) :
    meaningful (x :: xs) = meaningful xs := by
  simp [meaningful, h]

theorem meaningful_rdropWhile (xs : List String) :
    meaningful (xs.rdropWhile isVoid) = meaningful xs := by
  have hsplit := List.rdropWhile_append_rtakeWhile (p := isVoid) (l := xs)
  have hvoid : meaningful (xs.rtakeWhile isVoid) = [] := by
    refine List.filter_eq_nil_iff.2 fun x hx => ?_
    rw [List.mem_rtakeWhile_imp hx]
    decide
  calc
    meaningful (xs.rdropWhile isVoid)
      = meaningful (xs.rdropWhile isVoid) ++ meaningful (xs.rtakeWhile isVoid) := by
        rw [hvoid, List.append_nil]
    _ = meaningful xs := by rw [← meaningful_append, hsplit]

theorem names_eq (p : Path) : p.names = meaningful p.parts := by
  have htail : p.names =
      meaningful ((splitSlashes (p.text.toList.drop p.head.length)).map String.ofList) :=
    meaningful_rdropWhile _
  rw [htail]
  unfold head parts
  split
  · next hlead =>
    -- the root and a leading point are parts without a meaning
    rw [Bool.or_eq_true, isAbsolute_iff, startsHere_iff] at hlead
    rcases hlead with ⟨cs, hcs⟩ | hcs | ⟨cs, hcs⟩
    · rw [hcs]
      rfl
    · rw [hcs]
      decide
    · rw [hcs]
      rfl
  · rfl

/-! ## Joining -/

theorem parts_ne_nil (p : Path) : p.parts ≠ [] := by
  unfold parts
  rw [Ne, List.map_eq_nil_iff]
  exact splitSlashes_ne_nil _

theorem startsHere_iff_head : p.startsHere = true ↔ p.parts.head? = some "." := by
  have hpoint : ∀ cs : List Char, String.ofList cs = "." ↔ cs = ['.'] := by
    intro cs
    rw [← String.toList_inj, String.toList_ofList]
    rfl
  rw [startsHere_iff]
  unfold parts
  cases p.text.toList with
  | nil => simp [splitSlashes]
  | cons c cs =>
    obtain ⟨part, rest, hcs⟩ := List.exists_cons_of_ne_nil (splitSlashes_ne_nil cs)
    by_cases hc : c = '/'
    · simp [splitSlashes, hc]
    · -- the first part is the first character alone if nothing or a slash follows it
      have hpart : part = [] ↔ cs = [] ∨ ∃ ds, cs = '/' :: ds := by
        cases cs with
        | nil =>
          cases hcs
          simp
        | cons d ds =>
          by_cases hd : d = '/'
          · subst hd
            cases hcs
            simp
          · obtain ⟨part', rest', hds⟩ := List.exists_cons_of_ne_nil (splitSlashes_ne_nil ds)
            rw [splitSlashes_cons hd hds] at hcs
            cases hcs
            simp [hd]
      rw [splitSlashes_cons hc hcs, List.map_cons, List.head?_cons, Option.some.injEq, hpoint]
      simp [hpart, and_or_left]

theorem isAbsolute_iff_head (hp : p.text ≠ "") : p.isAbsolute = true ↔ p.parts.head? = some "" := by
  obtain ⟨c, cs, hcs⟩ : ∃ c cs, p.text.toList = c :: cs := by
    refine List.exists_cons_of_ne_nil fun hnil => hp ?_
    rwa [String.toList_eq_nil_iff] at hnil
  rw [isAbsolute_iff]
  unfold parts
  rw [hcs]
  by_cases hc : c = '/'
  · simp [splitSlashes, hc]
  · obtain ⟨part, rest, hsplit⟩ := List.exists_cons_of_ne_nil (splitSlashes_ne_nil cs)
    simp [splitSlashes_cons hc hsplit, hc]

theorem join_of_empty (hp : p.text = "") : p.join q = q := by
  simp [join, hp]

theorem join_of_absolute (hq : q.isAbsolute = true) : p.join q = q := by
  simp [join, hq]

theorem join_of_relative (hp : p.text ≠ "") (hq : q.isAbsolute = false) :
    p.join q = if p.text.toList.getLast? = some '/' then ⟨p.text ++ q.text⟩
      else ⟨p.text ++ "/" ++ q.text⟩ := by
  simp [join, hp, hq]

/-- Joining keeps the parts of the left side, but for void ones at its end. -/
theorem parts_join (hp : p.text ≠ "") (hq : q.isAbsolute = false) : ∃ kept last, kept ≠ [] ∧
    meaningful last = [] ∧ p.parts = kept ++ last ∧ (p.join q).parts = kept ++ q.parts := by
  rw [join_of_relative hp hq]
  by_cases hslash : p.text.toList.getLast? = some '/'
  · obtain ⟨cs, hcs⟩ := List.getLast?_eq_some_iff.1 hslash
    rw [if_pos hslash]
    refine ⟨(splitSlashes cs).map String.ofList, [""], ?_, rfl, parts_of_append hcs, ?_⟩
    · rw [Ne, List.map_eq_nil_iff]
      exact splitSlashes_ne_nil cs
    · exact parts_of_append (by simp [hcs])
  · rw [if_neg hslash]
    refine ⟨p.parts, [], parts_ne_nil p, rfl, (List.append_nil _).symm, ?_⟩
    exact parts_of_append (by simp)

/-- The names of a joined path are those of its two sides. -/
theorem names_join (hq : q.isAbsolute = false) : (p.join q).names = p.names ++ q.names := by
  rw [names_eq, names_eq p, names_eq q]
  by_cases hp : p.text = ""
  · have hnone : meaningful p.parts = [] := by
      unfold parts
      rw [hp]
      decide
    rw [join_of_empty hp, hnone, List.nil_append]
  · obtain ⟨kept, last, -, hlast, hparts, hjoin⟩ := parts_join hp hq
    rw [hjoin, hparts, meaningful_append, meaningful_append, hlast, List.append_nil]

/-- A joined path starts where its left side does. -/
theorem lead_join (hp : p.text ≠ "") (hq : q.isAbsolute = false) :
    (p.join q).isAbsolute = p.isAbsolute ∧ (p.join q).startsHere = p.startsHere := by
  obtain ⟨kept, last, hkept, -, hparts, hjoin⟩ := parts_join hp hq
  have hhead : (p.join q).parts.head? = p.parts.head? := by
    rw [hjoin, hparts, List.head?_append_of_ne_nil _ hkept, List.head?_append_of_ne_nil _ hkept]
  have hne : (p.join q).text ≠ "" := by
    rw [join_of_relative hp hq]
    split <;> simp [hp]
  constructor
  · rw [Bool.eq_iff_iff, isAbsolute_iff_head hne, isAbsolute_iff_head hp, hhead]
  · rw [Bool.eq_iff_iff, startsHere_iff_head, startsHere_iff_head, hhead]

/-- A joined path stays under its left side. -/
theorem components_prefix_join (hq : q.isAbsolute = false) :
    p.components <+: (p.join q).components := by
  by_cases hp : p.text = ""
  · have hnone : p.components = [] := by
      obtain ⟨text⟩ := p
      cases hp
      decide
    rw [hnone]
    exact List.nil_prefix
  · obtain ⟨habsolute, hhere⟩ := lead_join hp hq
    unfold components lead
    rw [names_join hq, List.map_append, ← List.append_assoc, habsolute, hhere]
    exact List.prefix_append _ _

/-! ## Directories -/

theorem toList_ofParts (head : List Char) (kept : List String) :
    (ofParts head kept).text.toList = head ++ ['/'].intercalate (kept.map String.toList) := by
  show (String.ofList head ++ "/".intercalate kept).toList = _
  rw [String.toList_append, String.toList_ofList, String.toList_intercalate]
  rfl

theorem intercalate_splitSlashes (cs : List Char) : ['/'].intercalate (splitSlashes cs) = cs := by
  induction cs with
  | nil => rfl
  | cons c cs ih =>
    obtain ⟨part, rest, hsplit⟩ := List.exists_cons_of_ne_nil (splitSlashes_ne_nil cs)
    by_cases hc : c = '/'
    · subst hc
      show ['/'].intercalate ([] :: splitSlashes cs) = _
      rw [hsplit] at ih ⊢
      rw [List.intercalate_cons_cons, ih]
      rfl
    · rw [splitSlashes_cons hc hsplit]
      rw [hsplit] at ih
      cases rest with
      | nil => simpa using ih
      | cons next rest =>
        rw [List.intercalate_cons_cons] at ih ⊢
        rw [← ih]
        rfl

theorem intercalate_prefix (xs ys : List (List Char)) :
    ['/'].intercalate xs <+: ['/'].intercalate (xs ++ ys) := by
  induction xs with
  | nil => exact List.nil_prefix
  | cons x xs ih =>
    cases xs with
    | nil =>
      cases ys with
      | nil => exact List.prefix_refl _
      | cons y ys =>
        rw [List.singleton_append, List.intercalate_cons_cons, List.append_assoc]
        simp
    | cons next xs =>
      rw [List.cons_append, List.cons_append, List.intercalate_cons_cons,
        List.intercalate_cons_cons]
      exact (List.prefix_append_right_inj _).2 ih

/-- A path that is cut off after some of its parts has just their names, and starts where it did. -/
theorem names_ofParts {kept rest : List String} (hkept : p.tail = kept ++ rest) :
    (ofParts p.head kept).names = meaningful kept ∧
      (ofParts p.head kept).isAbsolute = p.isAbsolute := by
  let after := p.text.toList.drop p.head.length
  obtain ⟨more, hmore⟩ : ∃ more, (splitSlashes after).map String.ofList = kept ++ more := by
    obtain ⟨voids, hvoids⟩ := List.rdropWhile_prefix isVoid ((splitSlashes after).map String.ofList)
    refine ⟨rest ++ voids, ?_⟩
    rw [← List.append_assoc, ← hkept]
    exact hvoids.symm
  have hnames : meaningful ((splitSlashes (['/'].intercalate (kept.map String.toList))).map
      String.ofList) = meaningful kept := by
    by_cases hnil : kept = []
    · rw [hnil]
      decide
    · rw [splitSlashes_intercalate (by simpa using hnil)]
      · simp [Function.comp_def]
      · intro part hpart
        obtain ⟨x, hx, rfl⟩ := List.mem_map.1 hpart
        obtain ⟨cs, hcs, rfl⟩ := List.mem_map.1 (hmore ▸ List.mem_append_left more hx)
        rw [String.toList_ofList]
        exact notMem_of_mem_splitSlashes hcs
  have hstart : ['/'].intercalate (kept.map String.toList) <+: after := by
    have hafter : (splitSlashes after).map id = kept.map String.toList ++ more.map String.toList := by
      rw [← List.map_append, ← hmore, List.map_map]
      exact List.map_congr_left fun _ _ => String.toList_ofList.symm
    rw [List.map_id] at hafter
    conv_rhs => rw [← intercalate_splitSlashes after, hafter]
    exact intercalate_prefix _ _
  rw [names_eq, ← hnames]
  unfold parts isAbsolute
  rw [toList_ofParts]
  generalize ['/'].intercalate (kept.map String.toList) = cs at *
  change cs <+: p.text.toList.drop p.head.length at hstart
  revert hstart
  unfold head
  split
  · next hlead =>
    rw [Bool.or_eq_true, isAbsolute_iff, startsHere_iff] at hlead
    rcases hlead with ⟨ds, hds⟩ | hds | ⟨ds, hds⟩
    · rw [hds]
      exact fun _ => ⟨rfl, rfl⟩
    · rw [hds]
      intro hstart
      rw [List.prefix_nil.1 hstart]
      exact ⟨rfl, rfl⟩
    · rw [hds]
      intro hstart
      cases cs with
      | nil => exact ⟨rfl, rfl⟩
      | cons c cs =>
        obtain ⟨rfl, -⟩ := List.cons_prefix_cons.1 hstart
        exact ⟨rfl, rfl⟩
  · next hlead =>
    rintro ⟨ds, hds⟩
    have hrelative : ¬ p.text.toList.head? = some '/' := by
      simpa [isAbsolute] using fun h => hlead (Bool.or_eq_true_iff.2 (.inl h))
    refine ⟨rfl, ?_⟩
    rw [beq_eq_false_iff_ne.2 hrelative, beq_eq_false_iff_ne]
    intro hslash
    obtain ⟨es, hes⟩ := List.head?_eq_some_iff.1 hslash
    change cs = '/' :: es at hes
    change cs ++ ds = p.text.toList at hds
    exact hrelative (by rw [← hds, hes]; rfl)

/-- The directory of a path has all its names but the last, and starts where the path starts. -/
theorem names_directory {before : List String} {name text : String}
    (h : p.names = before ++ [name]) :
    (SourceFile.ofPath p text).directory.names = before ∧
      (SourceFile.ofPath p text).directory.isAbsolute = p.isAbsolute := by
  have hne : p.tail ≠ [] := by
    intro hnil
    unfold names at h
    rw [hnil] at h
    cases (List.nil_eq_append_iff.1 h).2
  have hlast : isVoid (p.tail.getLast hne) = false := by
    have hnot := List.rdropWhile_last_not isVoid _ hne
    exact Bool.eq_false_iff.2 hnot
  have htail : p.tail = p.tail.dropLast.rdropWhile isVoid ++
      (p.tail.dropLast.rtakeWhile isVoid ++ [p.tail.getLast hne]) := by
    rw [← List.append_assoc, List.rdropWhile_append_rtakeWhile, List.dropLast_concat_getLast]
  have hparent : (SourceFile.ofPath p text).directory =
      ofParts p.head (p.tail.dropLast.rdropWhile isVoid) := by
    show p.parent?.getD ⟨""⟩ = _
    unfold parent?
    rw [if_neg (by simpa using hne)]
    rfl
  obtain ⟨hnames, habsolute⟩ := names_ofParts htail
  rw [hparent]
  refine ⟨?_, habsolute⟩
  rw [hnames, meaningful_rdropWhile]
  have hall : meaningful p.tail.dropLast ++ [p.tail.getLast hne] = before ++ [name] := by
    rw [← h]
    show _ = meaningful p.tail
    conv_rhs => rw [← List.dropLast_concat_getLast hne, meaningful_append]
    simp [meaningful, hlast]
  exact (List.append_inj' hall rfl).1

end Path

/-! ## Imports -/

namespace SourceFile

variable {f : SourceFile} {modulePath : String} {p : Path}

/-- What an import names, seen from the directory of the importing file. -/
def relativePath (modulePath : String) : Path :=
  ⟨String.ofList (withoutHere modulePath.toList) ++ extension⟩

theorem withoutHere_cases (cs : List Char) :
    (∃ ds, cs = '.' :: '/' :: ds ∧ withoutHere cs = ds) ∨
      withoutHere cs = cs ∧ ∀ ds, cs ≠ '.' :: '/' :: ds := by
  unfold withoutHere
  split
  · next ds => exact .inl ⟨ds, rfl, rfl⟩
  · next hnot => exact .inr ⟨rfl, hnot⟩

/-- A module path names a file if it starts with a point and is not `./` alone. -/
theorem importPath?_eq_some_iff : f.importPath? modulePath = some p ↔
    modulePath.toList.head? = some '.' ∧ modulePath ≠ "./" ∧
      p = f.directory.join (relativePath modulePath) := by
  have hhere : modulePath ≠ "./" ↔ modulePath.toList ≠ ['.', '/'] := by
    rw [Ne, ← String.toList_inj]
    rfl
  rw [hhere, eq_comm (a := p)]
  unfold importPath? relativePath
  cases modulePath.toList with
  | nil => simp
  | cons c cs =>
    by_cases hc : c = '.'
    · subst hc
      dsimp only
      rcases withoutHere_cases ('.' :: cs) with ⟨ds, hds, hrest⟩ | ⟨hrest, hnot⟩
      · obtain ⟨-, rfl⟩ := List.cons.inj hds
        simp [hrest]
      · have hslash : cs ≠ ['/'] := fun hcs => hnot [] (by rw [hcs])
        simp [hrest, hslash]
    · simp [hc]

/-- Only a second slash right after `./` leads away from the directory. -/
theorem isAbsolute_relativePath (hpoint : modulePath.toList.head? = some '.') :
    (relativePath modulePath).isAbsolute = true ↔ ".//".toList <+: modulePath.toList := by
  have hpoints : ".//".toList = ['.', '/', '/'] := rfl
  rw [Path.isAbsolute_iff, hpoints]
  unfold relativePath
  rw [String.toList_append, String.toList_ofList]
  rcases withoutHere_cases modulePath.toList with ⟨ds, hds, hrest⟩ | ⟨hrest, hnot⟩
  · rw [hrest, hds]
    cases ds with
    | nil => simp [extension]
    | cons d ds => simp [eq_comm]
  · obtain ⟨cs, hcs⟩ := List.head?_eq_some_iff.1 hpoint
    rw [hrest, hcs]
    constructor
    · rintro ⟨ds, hds⟩
      cases hds
    · rintro ⟨ds, hds⟩
      exact absurd (hcs.trans hds.symm) (hnot _)

theorem names_relativePath (modulePath : String) :
    (relativePath modulePath).names = Path.names ⟨modulePath ++ extension⟩ := by
  rw [Path.names_eq, Path.names_eq]
  rcases withoutHere_cases modulePath.toList with ⟨ds, hds, hrest⟩ | ⟨hrest, -⟩
  · -- the point that is left out means nothing
    have hparts : Path.parts ⟨modulePath ++ extension⟩ =
        "." :: (relativePath modulePath).parts := by
      have htext : (modulePath ++ extension).toList = ['.'] ++ '/' :: (ds ++ extension.toList) := by
        simp [hds]
      rw [Path.parts_of_append htext]
      unfold relativePath Path.parts
      rw [hrest, String.toList_append, String.toList_ofList]
      rfl
    rw [hparts, Path.meaningful_cons_of_isVoid rfl]
  · unfold relativePath
    rw [hrest, String.ofList_toList]

/-- **Imports stay under the directory of the importing file**, if their names do not start with
`.//`; those that do lead to the same file from everywhere.  Exactly the names that start with a
point, `./` apart, lead to files. -/
theorem imports_under_directory (f : SourceFile) (modulePath : String) :
    ((∃ p, f.importPath? modulePath = some p) ↔
      modulePath.toList.head? = some '.' ∧ modulePath ≠ "./") ∧
    ∀ p, f.importPath? modulePath = some p →
      (¬ ".//".toList <+: modulePath.toList →
        f.directory.components <+: p.components ∧ p.isAbsolute = f.directory.isAbsolute ∧
        p.names = f.directory.names ++ Path.names ⟨modulePath ++ extension⟩) ∧
      (".//".toList <+: modulePath.toList →
        p = relativePath modulePath ∧ p.isAbsolute = true) := by
  constructor
  · simp [importPath?_eq_some_iff]
  · intro p hp
    obtain ⟨hpoint, -, rfl⟩ := importPath?_eq_some_iff.1 hp
    constructor
    · intro hname
      have hrelative : (relativePath modulePath).isAbsolute = false :=
        Bool.eq_false_iff.2 fun h => hname ((isAbsolute_relativePath hpoint).1 h)
      refine ⟨Path.components_prefix_join hrelative, ?_, ?_⟩
      · by_cases hempty : f.directory.text = ""
        · rw [Path.join_of_empty hempty, hrelative]
          simp [Path.isAbsolute, hempty]
        · exact (Path.lead_join hempty hrelative).1
      · rw [Path.names_join hrelative, names_relativePath]
    · intro hname
      have habsolute := (isAbsolute_relativePath hpoint).2 hname
      rw [Path.join_of_absolute habsolute]
      exact ⟨rfl, habsolute⟩

/-- An import out of the directory, and back, with slashes and points that mean nothing. -/
theorem imports_under_directory_sibling :
    let f := SourceFile.ofPath ⟨"./src//game/main.lua"⟩ ""
    ∃ p, f.importPath? "../shared/.//math" = some p ∧
      f.directory.components = [.here, .name "src", .name "game"] ∧
      p.components = [.here, .name "src", .name "game", .parent, .name "shared",
        .name "math.lua"] ∧
      f.directory.components <+: p.components ∧ p.isAbsolute = f.directory.isAbsolute := by
  intro f
  have hname : ¬ ".//".toList <+: "../shared/.//math".toList := by decide
  obtain ⟨hfound, hunder⟩ := imports_under_directory f "../shared/.//math"
  obtain ⟨p, hp⟩ := hfound.2 (by decide)
  obtain ⟨hstarts, habsolute, -⟩ := (hunder p hp).1 hname
  have hpath : f.importPath? "../shared/.//math" =
      some ⟨"./src//game/../shared/.//math.lua"⟩ := by decide
  rw [hpath] at hp
  cases hp
  exact ⟨_, hpath, by decide, by decide, hstarts, habsolute⟩

/-- **An import can lead away from the directory**: what follows `./` may start at the root. -/
theorem imports_leave_directory :
    let f := SourceFile.ofPath ⟨"src/main.lua"⟩ ""
    ∃ p, f.importPath? ".//etc/x" = some p ∧ p = ⟨"/etc/x.lua"⟩ ∧
      ¬ f.directory.components <+: p.components ∧
      p.isAbsolute = true ∧ f.directory.isAbsolute = false := by
  refine ⟨⟨"/etc/x.lua"⟩, ?_, rfl, ?_, ?_, ?_⟩ <;> decide

end SourceFile

end TypedLua
