import Mathlib.Data.List.DropRight
import C2Hat.Lib.CString

/-!
# Directories and paths

A file system without links: files and directories in a tree, and the directory a process works
in.  A path is split at its slashes, and an empty component stays where it is, as `.` does.

## Main definitions

* `FileSystem` — a tree in which everything lies in a directory.
* `ancestors`, `location`, `places` — the places on the way of a path, where it ends, and both.
* `FileSystem.lookup`, `FileSystem.mkdir` — what a path names, and making a directory.

## Main results

* `FileSystem.lookup_eq_dir_iff` — a path names a directory when all its places are directories.
* `FileSystem.mkdir_isSome_iff` — between directories, `mkdir` needs a free place.
* `FileSystem.mkdir_spec` — what `mkdir` has made.
-/

namespace Clib

/-- `'/'` and `'.'`. -/
def slash : UInt8 := 47
def dot : UInt8 := 46

/-- A place in the tree: the names on the way to it, the innermost one first. -/
abbrev Loc := List Bytes

/-- The components of a path. -/
def components (path : Bytes) : List Bytes := path.splitOn slash

/-- Where a component leads. -/
def Loc.enter (l : Loc) (c : Bytes) : Loc :=
  if c = [] ∨ c = [dot] then l else if c = [dot, dot] then l.tail else c :: l

/-- The places that come after each of the components. -/
def trail (l : Loc) : List Bytes → List Loc
  | [] => []
  | c :: cs => l.enter c :: trail (l.enter c) cs

/-- Where a path starts, for a process that works in `cwd`. -/
def start (cwd : Loc) (path : Bytes) : Loc := if path.head? = some slash then [] else cwd

/-- The places on the way of a path. -/
def ancestors (cwd : Loc) (path : Bytes) : List Loc :=
  trail (start cwd path) (components path).dropLast

/-- The place a path names. -/
def location (cwd : Loc) (path : Bytes) : Loc := (components path).foldl Loc.enter (start cwd path)

/-- The places on the way of a path, and the one it names. -/
def places (cwd : Loc) (path : Bytes) : List Loc := trail (start cwd path) (components path)

/-- What there may be at a place. -/
inductive FileKind
  | file
  | dir
  deriving DecidableEq

/-- A tree of files and directories. -/
structure FileSystem where
  /-- What is at a place. -/
  kind : Loc → Option FileKind
  /-- The directory the process works in. -/
  cwd : Loc
  root_dir : kind [] = some .dir
  cwd_dir : kind cwd = some .dir
  parent_dir : ∀ name l, kind (name :: l) ≠ none → kind l = some .dir

namespace FileSystem

variable (fs : FileSystem)

/-- Follow components through directories. -/
def walk (l : Loc) : List Bytes → Option Loc
  | [] => some l
  | c :: cs => if fs.kind l = some .dir then walk (l.enter c) cs else none

/-- What a path names; the empty path names nothing. -/
def lookup (path : Bytes) : Option FileKind :=
  if path = [] then none else (fs.walk (start fs.cwd path) (components path)).bind fs.kind

/-- `access(path, F_OK) == 0`. -/
def access (path : Bytes) : Bool := (fs.lookup path).isSome

/-- A new directory. -/
def add (name : Bytes) (l : Loc) (h : fs.kind l = some .dir ∧ fs.kind (name :: l) = none) :
    FileSystem where
  kind x := if x = name :: l then some .dir else fs.kind x
  cwd := fs.cwd
  root_dir := by rw [if_neg (List.cons_ne_nil _ _).symm, fs.root_dir]
  cwd_dir := by
    split
    · rfl
    · exact fs.cwd_dir
  parent_dir n x hx := by
    split
    · rfl
    split at hx
    · next heq => rw [(List.cons.inj heq).2, h.1]
    · exact fs.parent_dir n x hx

/-- Some directories are new, and nothing else is changed. -/
structure Grows (fs fs' : FileSystem) (new : List Loc) : Prop where
  cwd : fs'.cwd = fs.cwd
  kind : ∀ x, fs'.kind x = fs.kind x ∨ (fs.kind x = none ∧ fs'.kind x = some .dir ∧ x ∈ new)

/-- `mkdir(path)`: slashes at the end do not count, and the last component is a name. -/
def mkdir (path : Bytes) : Option FileSystem :=
  match ((components path).rdropWhile fun c => decide (c = [])).reverse with
  | [] => none
  | name :: parents =>
    if name = [dot] ∨ name = [dot, dot] then none
    else match fs.walk (start fs.cwd path) parents.reverse with
      | none => none
      | some l =>
        if h : fs.kind l = some .dir ∧ fs.kind (name :: l) = none then some (fs.add name l h)
        else none

end FileSystem

/-! ### Paths -/

theorem components_ne_nil (path : Bytes) : components path ≠ [] := List.splitOn_ne_nil _ _

/-- The components in front of the last one, and the last one. -/
theorem exists_components (path : Bytes) :
    ∃ cs c, components path = cs ++ [c] ∧ (components path).dropLast = cs := by
  refine ⟨_, _, (List.dropLast_append_getLast (components_ne_nil path)).symm, rfl⟩

theorem components_snoc_slash (path : Bytes) :
    components (path ++ [slash]) = components path ++ [[]] := by
  rw [components, List.splitOn_append_cons_self, List.splitOn_nil]
  rfl

theorem dropLast_modifyHead {α : Type*} (f : α → α) (l : List α) :
    (l.modifyHead f).dropLast = l.dropLast.modifyHead f := by
  match l with
  | [] => rfl
  | [_] => rfl
  | _ :: _ :: _ => rfl

/-- A character that is no slash is a part of the last component. -/
theorem dropLast_components_snoc (path : Bytes) {c : UInt8} (hc : c ≠ slash) :
    (components (path ++ [c])).dropLast = (components path).dropLast := by
  induction path with
  | nil =>
    have hsingle : components [c] = [[c]] :=
      List.splitOn_eq_singleton (by simpa using hc.symm)
    rw [List.nil_append, hsingle]
    rfl
  | cons x path ih =>
    have hcons : ∀ s, components (x :: s) =
        if x == slash then [] :: components s else (components s).modifyHead (List.cons x) :=
      fun s => List.splitOn_cons_eq_if_modifyHead x s
    rw [List.cons_append, hcons, hcons]
    split_ifs
    · rw [List.dropLast_cons_of_ne_nil (components_ne_nil _),
        List.dropLast_cons_of_ne_nil (components_ne_nil _), ih]
    · rw [dropLast_modifyHead, dropLast_modifyHead, ih]

theorem Loc.enter_name (l : Loc) {c : Bytes} (hnil : c ≠ [])
    (hdot : ¬ (c = [dot] ∨ c = [dot, dot])) :
    l.enter c = c :: l := by
  rw [not_or] at hdot
  rw [Loc.enter, if_neg (by simp [hnil, hdot.1]), if_neg hdot.2]

theorem trail_append (l : Loc) (cs ds : List Bytes) :
    trail l (cs ++ ds) = trail l cs ++ trail (cs.foldl Loc.enter l) ds := by
  induction cs generalizing l with
  | nil => rfl
  | cons c cs ih =>
    rw [List.cons_append, trail, trail, ih]
    rfl

/-- Empty components stay where they are. -/
theorem foldl_enter_blank (l : Loc) {cs : List Bytes} (hcs : ∀ c ∈ cs, c = []) :
    cs.foldl Loc.enter l = l := by
  induction cs with
  | nil => rfl
  | cons c cs ih =>
    rw [List.forall_mem_cons] at hcs
    rw [List.foldl_cons, hcs.1]
    exact ih hcs.2

theorem eq_of_mem_trail_blank {l x : Loc} {cs : List Bytes} (hcs : ∀ c ∈ cs, c = [])
    (hx : x ∈ trail l cs) : x = l := by
  induction cs with
  | nil => cases hx
  | cons c cs ih =>
    rw [List.forall_mem_cons] at hcs
    rw [trail, hcs.1] at hx
    rcases List.mem_cons.mp hx with hx | hx
    · exact hx
    · exact ih hcs.2 hx

/-- The last component that is not empty. -/
theorem exists_name (cs : List Bytes) : (∀ c ∈ cs, c = []) ∨
    ∃ init name blanks, cs = init ++ name :: blanks ∧ name ≠ [] ∧ ∀ c ∈ blanks, c = [] := by
  induction cs using List.reverseRecOn with
  | nil => exact .inl (List.forall_mem_nil _)
  | append_singleton cs c ih =>
    by_cases hc : c = []
    · rcases ih with hblank | ⟨init, name, blanks, rfl, hname, hblanks⟩
      · left
        simpa [hc, or_imp, forall_and] using hblank
      · refine .inr ⟨init, name, blanks ++ [c], by simp, hname, ?_⟩
        simpa [hc, or_imp, forall_and] using hblanks
    · exact .inr ⟨cs, c, [], rfl, hc, List.forall_mem_nil _⟩

variable {cwd : Loc} {path : Bytes}

theorem places_eq (cwd : Loc) (path : Bytes) :
    places cwd path = ancestors cwd path ++ [location cwd path] := by
  obtain ⟨cs, c, heq, hdrop⟩ := exists_components path
  rw [places, ancestors, location, hdrop, heq, trail_append, List.foldl_append]
  rfl

theorem start_append (cwd : Loc) {s : Bytes} (hs : s ≠ []) (t : Bytes) :
    start cwd (s ++ t) = start cwd s := by
  obtain ⟨c, s, rfl⟩ := List.exists_cons_of_ne_nil hs
  rfl

/-- A slash makes the place that has been named so far an ancestor. -/
theorem ancestors_snoc_slash (cwd : Loc) {s : Bytes} (hs : s ≠ []) :
    ancestors cwd (s ++ [slash]) = places cwd s := by
  rw [ancestors, places, start_append cwd hs, components_snoc_slash, List.dropLast_concat]

theorem ancestors_snoc (cwd : Loc) {s : Bytes} (hs : s ≠ []) {c : UInt8} (hc : c ≠ slash) :
    ancestors cwd (s ++ [c]) = ancestors cwd s := by
  rw [ancestors, ancestors, start_append cwd hs, dropLast_components_snoc s hc]

/-- The ancestors of a part are ancestors of the whole path. -/
theorem ancestors_subset (cwd : Loc) {s : Bytes} (hs : s ≠ []) (t : Bytes) :
    ancestors cwd s ⊆ ancestors cwd (s ++ t) := by
  induction t using List.reverseRecOn with
  | nil => rw [List.append_nil]; exact List.Subset.refl _
  | append_singleton t c ih =>
    have hst : s ++ t ≠ [] := by simp [hs]
    refine List.Subset.trans ih ?_
    rw [← List.append_assoc]
    by_cases hc : c = slash
    · rw [hc, ancestors_snoc_slash cwd hst, places_eq]
      exact List.subset_append_left _ _
    · rw [ancestors_snoc cwd hst hc]
      exact List.Subset.refl _

/-! ### Looking up and making directories -/

namespace FileSystem

variable {fs fs' : FileSystem} {l : Loc}

/-- What is there and is not a file is a directory. -/
theorem kind_eq_dir {x : Loc} (hthere : fs.kind x ≠ none) (hfile : fs.kind x ≠ some .file) :
    fs.kind x = some .dir := by
  cases hkind : fs.kind x with
  | none => exact absurd hkind hthere
  | some kind =>
    cases kind with
    | file => exact absurd hkind hfile
    | dir => rfl

theorem start_dir (fs : FileSystem) (path : Bytes) : fs.kind (start fs.cwd path) = some .dir := by
  rw [start]
  split
  · exact fs.root_dir
  · exact fs.cwd_dir

/-- From a directory a walk goes on as far as there are directories. -/
theorem walk_eq (hl : fs.kind l = some .dir) (cs : List Bytes) (c : Bytes) :
    fs.walk l (cs ++ [c]) = if ∀ x ∈ trail l cs, fs.kind x = some .dir then
      some ((cs ++ [c]).foldl Loc.enter l) else none := by
  induction cs generalizing l with
  | nil => simp [walk, trail, hl]
  | cons d cs ih =>
    rw [List.cons_append, walk, if_pos hl, trail]
    simp only [List.forall_mem_cons]
    by_cases hd : fs.kind (l.enter d) = some .dir
    · simp only [hd, true_and]
      exact ih hd
    · rw [if_neg fun h => hd h.1]
      -- there is at least one more component
      cases cs with
      | nil => rw [List.nil_append, walk, if_neg hd]
      | cons e cs => rw [List.cons_append, walk, if_neg hd]

theorem lookup_eq (fs : FileSystem) (hpath : path ≠ []) :
    fs.lookup path = if ∀ x ∈ ancestors fs.cwd path, fs.kind x = some .dir then
      fs.kind (location fs.cwd path) else none := by
  obtain ⟨cs, c, heq, hdrop⟩ := exists_components path
  rw [lookup, if_neg hpath, ancestors, location, hdrop, heq, walk_eq (fs.start_dir path)]
  split <;> rfl

/-- **A path names a directory** when all its places are directories. -/
theorem lookup_eq_dir_iff (fs : FileSystem) (hpath : path ≠ []) :
    fs.lookup path = some .dir ↔ ∀ x ∈ places fs.cwd path, fs.kind x = some .dir := by
  rw [fs.lookup_eq hpath, places_eq]
  simp only [List.mem_append, List.mem_singleton, or_imp, forall_and, forall_eq]
  split_ifs with h
  · exact (and_iff_right h).symm
  · simp [h]

/-- A path that names something. -/
theorem access_iff (fs : FileSystem) (hpath : path ≠ []) :
    fs.access path = true ↔ (∀ x ∈ ancestors fs.cwd path, fs.kind x = some .dir) ∧
      fs.kind (location fs.cwd path) ≠ none := by
  rw [access, Option.isSome_iff_ne_none, fs.lookup_eq hpath]
  split_ifs with h
  · exact (and_iff_right h).symm
  · simp [h]

/-- Where a component of a directory leads there is a directory, unless it is a name. -/
theorem enter_dir (hl : fs.kind l = some .dir) {c : Bytes}
    (hc : c = [] ∨ c = [dot] ∨ c = [dot, dot]) : fs.kind (l.enter c) = some .dir := by
  rw [Loc.enter]
  split_ifs with hstay hup
  · exact hl
  · cases l with
    | nil => exact hl
    | cons name l => exact fs.parent_dir name l (by rw [hl]; exact nofun)
  · exact absurd hc (by tauto)

/-- A walk that ends in a directory. -/
theorem walk_dir_iff (hl : fs.kind l = some .dir) (cs : List Bytes) (l' : Loc) :
    fs.walk l cs = some l' ∧ fs.kind l' = some .dir ↔
      l' = cs.foldl Loc.enter l ∧ ∀ x ∈ trail l cs, fs.kind x = some .dir := by
  induction cs generalizing l with
  | nil =>
    rw [walk, trail, Option.some.injEq]
    constructor
    · rintro ⟨rfl, -⟩
      exact ⟨rfl, List.forall_mem_nil _⟩
    · rintro ⟨rfl, -⟩
      exact ⟨rfl, hl⟩
  | cons c cs ih =>
    rw [walk, if_pos hl, trail, List.forall_mem_cons]
    by_cases hc : fs.kind (l.enter c) = some .dir
    · rw [ih hc, and_iff_right hc]
      rfl
    · refine iff_of_false ?_ fun h => hc h.2.1
      rintro ⟨hwalk, hdir⟩
      cases cs with
      | nil =>
        cases hwalk
        exact hc hdir
      | cons d cs =>
        rw [walk, if_neg hc] at hwalk
        cases hwalk

/-- Nothing can be made of slashes alone. -/
theorem mkdir_blank (hblank : ∀ c ∈ components path, c = []) : fs.mkdir path = none := by
  have hdrop : (components path).rdropWhile (fun c => decide (c = [])) = [] := by
    rw [List.rdropWhile_eq_nil_iff]
    simpa using hblank
  rw [mkdir, hdrop]
  rfl

theorem mkdir_name {init blanks : List Bytes} {name : Bytes}
    (heq : components path = init ++ name :: blanks) (hname : name ≠ [])
    (hblanks : ∀ c ∈ blanks, c = []) :
    fs.mkdir path = if name = [dot] ∨ name = [dot, dot] then none
      else match fs.walk (start fs.cwd path) init with
        | none => none
        | some l =>
          if h : fs.kind l = some .dir ∧ fs.kind (name :: l) = none then some (fs.add name l h)
          else none := by
  have hdrop : (components path).rdropWhile (fun c => decide (c = [])) = init ++ [name] := by
    rw [heq, List.append_cons]
    clear heq
    induction blanks using List.reverseRecOn with
    | nil =>
      rw [List.append_nil]
      exact List.rdropWhile_concat_neg _ _ _ (by simpa using hname)
    | append_singleton blanks c ih =>
      simp only [List.mem_append, List.mem_singleton, or_imp, forall_and, forall_eq] at hblanks
      rw [← List.append_assoc, List.rdropWhile_concat_pos _ _ _ (by simpa using hblanks.2)]
      exact ih hblanks.1
  rw [mkdir, hdrop, List.reverse_concat]
  simp only [List.reverse_reverse]

/-- The places of a path with a name. -/
theorem location_name {cwd : Loc} {init blanks : List Bytes} {name : Bytes}
    (heq : components path = init ++ name :: blanks) (hblanks : ∀ c ∈ blanks, c = []) :
    location cwd path = (init.foldl Loc.enter (start cwd path)).enter name := by
  rw [location, heq, List.foldl_append, List.foldl_cons, foldl_enter_blank _ hblanks]

/-- An ancestor of a path with a name is in front of the name, or the path has more slashes. -/
theorem mem_ancestors_name {cwd x : Loc} {init blanks : List Bytes} {name : Bytes}
    (heq : components path = init ++ name :: blanks) (hblanks : ∀ c ∈ blanks, c = []) :
    x ∈ ancestors cwd path → x ∈ trail (start cwd path) init ∨ x = location cwd path := by
  intro hx
  rw [location_name heq hblanks]
  rw [ancestors, heq] at hx
  rcases List.eq_nil_or_concat blanks with rfl | ⟨blanks, c, rfl⟩
  · rw [List.dropLast_concat] at hx
    exact .inl hx
  · rw [List.concat_eq_append] at hx hblanks
    rw [← List.cons_append, ← List.append_assoc, List.dropLast_concat, trail_append,
      List.mem_append, trail] at hx
    rcases hx with hx | hx
    · exact .inl hx
    · rcases List.mem_cons.mp hx with hx | hx
      · exact .inr hx
      · exact .inr (eq_of_mem_trail_blank
          (fun c hc => hblanks c (List.mem_append_left _ hc)) hx)

/-- **What `mkdir` has made**: a directory at a place that was free, behind directories. -/
theorem mkdir_spec (h : fs.mkdir path = some fs') :
    (∀ x ∈ ancestors fs.cwd path, fs.kind x ≠ some .file) ∧
      fs.kind (location fs.cwd path) = none ∧ fs'.cwd = fs.cwd ∧
      ∀ x, fs'.kind x = if x = location fs.cwd path then some .dir else fs.kind x := by
  rcases exists_name (components path) with hblank | ⟨init, name, blanks, heq, hname, hblanks⟩
  · rw [mkdir_blank hblank] at h
    cases h
  rw [mkdir_name heq hname hblanks] at h
  split_ifs at h with hdot
  split at h
  · cases h
  · next l hwalk =>
    split_ifs at h with hfree
    cases h
    obtain ⟨hl, htrail⟩ := (walk_dir_iff (fs.start_dir path) init l).mp ⟨hwalk, hfree.1⟩
    have hloc : location fs.cwd path = name :: l := by
      rw [location_name heq hblanks, ← hl, Loc.enter_name l hname hdot]
    refine ⟨?_, hloc ▸ hfree.2, rfl, fun x => by rw [hloc]; rfl⟩
    intro x hx
    rcases mem_ancestors_name heq hblanks hx with hx | hx
    · rw [htrail x hx]
      exact nofun
    · rw [hx, hloc, hfree.2]
      exact nofun

theorem Grows.refl (fs : FileSystem) (new : List Loc) : Grows fs fs new := ⟨rfl, fun _ => .inl rfl⟩

theorem Grows.trans {fs₁ fs₂ fs₃ : FileSystem} {new : List Loc} (h : Grows fs₁ fs₂ new)
    (h' : Grows fs₂ fs₃ new) : Grows fs₁ fs₃ new where
  cwd := h'.cwd.trans h.cwd
  kind x := by
    rcases h.kind x with hsame | ⟨hnone, hdir, hnew⟩
    · rw [← hsame]
      exact h'.kind x
    · rcases h'.kind x with hsame | ⟨hnone', -, -⟩
      · exact .inr ⟨hnone, hsame.trans hdir, hnew⟩
      · rw [hdir] at hnone'
        cases hnone'

/-- More places may be new. -/
theorem Grows.mono {new new' : List Loc} (h : Grows fs fs' new) (hsub : new ⊆ new') :
    Grows fs fs' new' where
  cwd := h.cwd
  kind x := (h.kind x).imp_right fun hnew => ⟨hnew.1, hnew.2.1, hsub hnew.2.2⟩

/-- What is there stays. -/
theorem Grows.of_ne_none {new : List Loc} (h : Grows fs fs' new) {x : Loc}
    (hx : fs.kind x ≠ none) : fs'.kind x = fs.kind x := by
  rcases h.kind x with hsame | ⟨hnone, -, -⟩
  · exact hsame
  · exact absurd hnone hx

theorem mkdir_grows (h : fs.mkdir path = some fs') {new : List Loc}
    (hnew : location fs.cwd path ∈ new) : Grows fs fs' new := by
  obtain ⟨-, hfree, hcwd, hkind⟩ := mkdir_spec h
  refine ⟨hcwd, fun x => ?_⟩
  rw [hkind]
  split_ifs with hx
  · exact .inr ⟨hx ▸ hfree, rfl, hx ▸ hnew⟩
  · exact .inl rfl

/-- **Making a directory** between directories: the place is free. -/
theorem mkdir_isSome_iff (h : ∀ x ∈ ancestors fs.cwd path, fs.kind x = some .dir) :
    (fs.mkdir path).isSome = true ↔ fs.kind (location fs.cwd path) = none := by
  constructor
  · intro hsome
    obtain ⟨fs', hfs'⟩ := Option.isSome_iff_exists.mp hsome
    exact (mkdir_spec hfs').2.1
  intro hfree
  rcases exists_name (components path) with hblank | ⟨init, name, blanks, heq, hname, hblanks⟩
  · -- slashes alone name a directory
    rw [location, foldl_enter_blank _ hblank, fs.start_dir] at hfree
    cases hfree
  have htrail : ∀ x ∈ trail (start fs.cwd path) init, fs.kind x = some .dir := by
    intro x hx
    refine h x ?_
    rw [ancestors, heq, List.dropLast_append_of_ne_nil (List.cons_ne_nil _ _), trail_append]
    exact List.mem_append_left _ hx
  obtain ⟨hwalk, hl⟩ := (walk_dir_iff (fs.start_dir path) init _).mpr ⟨rfl, htrail⟩
  have hdot : ¬ (name = [dot] ∨ name = [dot, dot]) := by
    intro hdot
    rw [location_name heq hblanks, enter_dir hl (.inr hdot)] at hfree
    cases hfree
  rw [location_name heq hblanks, Loc.enter_name _ hname hdot] at hfree
  rw [mkdir_name heq hname hblanks, if_neg hdot, hwalk]
  simp [hl, hfree]

end FileSystem

end Clib
