import C2Hat.Lib.CharArray
import C2Hat.Lib.FileSystem

/-!
# Making directories

`TouchDir` of `src/lib/fsutil/fsutil.c` makes a directory with all that is missing on the way.
It works on a copy of the path in an array of 512 bytes, from which it takes one slash at the
end, and which it cuts at every slash in turn.

## Main definitions

* `touchDir`, `touchParents` — the function, and its loop.
* `Touched` — the directory is made, and nothing beside it.
* `Touchable` — the paths for which this holds.

## Main results

* `touchParents_spec` — what the loop makes.
* `touchDir_touched_iff` — **the directory is made right exactly for these paths.**
* `touchable_iff_of_short` — what they are when the path fits into the array.
-/

namespace C2Hat

open Clib

/-- The size of the array. -/
def touchBufferSize : ℕ := 512

/-- The copy of a path. -/
def touchBuffer (path : CStr) : Bytes :=
  ((CharArray.zeros touchBufferSize).snprintf touchBufferSize path.bytes).str.bytes

/-- The copy without a slash at its end. -/
def touchPath (path : CStr) : Bytes :=
  if (touchBuffer path).getLast? = some slash then (touchBuffer path).dropLast
  else touchBuffer path

/-- The loop over the rest of the copy behind `seen`: whether it comes to the end, and the
directories. -/
def touchParents (fs : FileSystem) (seen : Bytes) : Bytes → Bool × FileSystem
  | [] => (true, fs)
  | c :: rest =>
    if c = slash ∧ fs.access seen = false then
      match fs.mkdir seen with
      | none => (false, fs)
      | some fs => touchParents fs (seen ++ [c]) rest
    else touchParents fs (seen ++ [c]) rest

/-- `TouchDir(path, mode)`. -/
def touchDir (fs : FileSystem) (path : CStr) : Except Fault (Bool × FileSystem) :=
  -- `buffer[pathLength - 1]`
  if touchBuffer path = [] then .error .outOfBounds
  else
    let buffer := touchPath path
    if fs.access buffer then .ok (true, fs)
    else
      let (made, fs) := touchParents fs (buffer.take 1) (buffer.drop 1)
      if made then
        match fs.mkdir buffer with
        | none => .ok (false, fs)
        | some fs => .ok (true, fs)
      else .ok (false, fs)

open FileSystem

variable {fs fs' : FileSystem} {path : CStr}

/-- The path names a directory exactly if the result is `true`, and nothing is made but the
directory and what is missing on the way to it. -/
def Touched (fs : FileSystem) (path : CStr) (result : Bool) (fs' : FileSystem) : Prop :=
  (result = true → fs'.lookup path.bytes = some .dir) ∧
    (result = false → fs'.lookup path.bytes ≠ some .dir) ∧ Grows fs fs' (places fs.cwd path.bytes)

/-! ### The loop -/

/-- **The loop** makes nothing but ancestors; when it comes to its end they are all there, and
it does so when none of them is a file. -/
theorem touchParents_spec (rest : Bytes) {seen : Bytes} (hseen : seen ≠ [])
    (hdone : ∀ x ∈ ancestors fs.cwd seen, fs.kind x ≠ none) :
    Grows fs (touchParents fs seen rest).2 (ancestors fs.cwd (seen ++ rest)) ∧
      ((touchParents fs seen rest).1 = true →
        ∀ x ∈ ancestors fs.cwd (seen ++ rest), (touchParents fs seen rest).2.kind x ≠ none) ∧
      ((∀ x ∈ ancestors fs.cwd (seen ++ rest), fs.kind x ≠ some .file) →
        (touchParents fs seen rest).1 = true) := by
  induction rest generalizing seen fs with
  | nil =>
    rw [List.append_nil]
    exact ⟨.refl fs _, fun _ => hdone, fun _ => rfl⟩
  | cons c rest ih =>
    have hsnoc : seen ++ [c] ≠ [] := by simp
    rw [List.append_cons seen c rest, touchParents]
    by_cases hc : c = slash
    · subst hc
      have hparts : ∀ {P : Loc → Prop}, (∀ x ∈ ancestors fs.cwd (seen ++ [slash]), P x) ↔
          (∀ x ∈ ancestors fs.cwd seen, P x) ∧ P (location fs.cwd seen) := by
        intro P
        rw [ancestors_snoc_slash fs.cwd hseen, places_eq]
        simp only [List.mem_append, List.mem_singleton, or_imp, forall_and, forall_eq]
      have hsub := ancestors_subset fs.cwd hsnoc rest
      by_cases haccess : fs.access seen = true
      · rw [if_neg (by simp [haccess])]
        exact ih hsnoc (hparts.mpr ⟨hdone, ((fs.access_iff hseen).mp haccess).2⟩)
      · rw [if_pos ⟨rfl, by simpa using haccess⟩]
        cases hmkdir : fs.mkdir seen with
        | none =>
          refine ⟨.refl fs _, nofun, ?_⟩
          -- without files the ancestors are directories, and the place is free
          intro hfile
          exfalso
          have hdirs : ∀ x ∈ ancestors fs.cwd seen, fs.kind x = some .dir := by
            intro x hx
            exact kind_eq_dir (hdone x hx) ((hparts.mp fun x hx => hfile x (hsub hx)).1 x hx)
          have hfree : fs.kind (location fs.cwd seen) = none := by
            by_contra hkind
            exact haccess ((fs.access_iff hseen).mpr ⟨hdirs, hkind⟩)
          have hsome := (mkdir_isSome_iff hdirs).mpr hfree
          rw [hmkdir] at hsome
          cases hsome
        | some fs₁ =>
          obtain ⟨-, -, hcwd, hkind⟩ := mkdir_spec hmkdir
          have hgrows : Grows fs fs₁ (ancestors fs.cwd (seen ++ [slash] ++ rest)) := by
            refine mkdir_grows hmkdir (hsub ?_)
            rw [ancestors_snoc_slash fs.cwd hseen, places_eq]
            exact List.mem_append_right _ (List.mem_singleton_self _)
          have hdone₁ : ∀ x ∈ ancestors fs₁.cwd (seen ++ [slash]), fs₁.kind x ≠ none := by
            rw [hcwd, hparts]
            constructor
            · intro x hx
              rw [hgrows.of_ne_none (hdone x hx)]
              exact hdone x hx
            · rw [hkind, if_pos rfl]
              exact nofun
          obtain ⟨hgrows', hthere, hmade⟩ := ih hsnoc hdone₁
          rw [hcwd] at hgrows' hthere hmade
          refine ⟨hgrows.trans hgrows', hthere, fun hfile => hmade fun x hx => ?_⟩
          rcases hgrows.kind x with hsame | ⟨-, hdir, -⟩
          · rw [hsame]
            exact hfile x hx
          · rw [hdir]
            exact nofun
    · rw [if_neg (by simp [hc])]
      refine ih hsnoc ?_
      rwa [ancestors_snoc fs.cwd hseen hc]

/-- The places on the way of the copy, and the one it names. -/
def parentsOf (fs : FileSystem) (path : CStr) : List Loc := ancestors fs.cwd (touchPath path)
def targetOf (fs : FileSystem) (path : CStr) : Loc := location fs.cwd (touchPath path)

/-! ### The copy -/

theorem touchBuffer_eq (path : CStr) : touchBuffer path = path.bytes.take 511 :=
  CharArray.str_snprintf _ path.nulFree (by decide) le_rfl

/-- The copy is the front of the path. -/
theorem touchPath_prefix (path : CStr) : touchPath path <+: path.bytes := by
  have hbuffer : touchBuffer path <+: path.bytes := touchBuffer_eq path ▸ List.take_prefix _ _
  rw [touchPath]
  split_ifs
  · exact (List.dropLast_prefix _).trans hbuffer
  · exact hbuffer

/-- The ancestors of the copy are on the way of the path. -/
theorem parentsOf_subset (fs : FileSystem) (h : touchPath path ≠ []) :
    parentsOf fs path ⊆ places fs.cwd path.bytes := by
  obtain ⟨t, ht⟩ := touchPath_prefix path
  rw [← ht, places_eq]
  exact List.Subset.trans (ancestors_subset fs.cwd h t) (List.subset_append_left _ _)

/-! ### The directory -/

/-- The ancestors of the first character are there. -/
theorem kind_ancestors_take_one (fs : FileSystem) {s : Bytes} (hs : s ≠ []) :
    ∀ x ∈ ancestors fs.cwd (s.take 1), fs.kind x ≠ none := by
  obtain ⟨c, s, rfl⟩ := List.exists_cons_of_ne_nil hs
  intro x hx
  rw [List.take_succ_cons, List.take_zero] at hx
  by_cases hc : c = slash
  · have hroot : ancestors fs.cwd [slash] = [[]] := rfl
    rw [hc, hroot, List.mem_singleton] at hx
    rw [hx, fs.root_dir]
    exact nofun
  · have hnone : (components [c]).dropLast = [] := dropLast_components_snoc [] hc
    rw [ancestors, hnone] at hx
    cases hx

/-- The directories that are there once the ancestors have been made. -/
theorem exists_parents (hpath : touchPath path ≠ [])
    (hfile : ∀ x ∈ parentsOf fs path, fs.kind x ≠ some .file) :
    ∃ fs₁, touchParents fs ((touchPath path).take 1) ((touchPath path).drop 1) = (true, fs₁) ∧
      Grows fs fs₁ (parentsOf fs path) ∧ ∀ x, fs₁.kind x =
        if x ∈ parentsOf fs path then some .dir else fs.kind x := by
  have hne : (touchPath path).take 1 ≠ [] := by simp [hpath]
  obtain ⟨hgrows, hthere, hmade⟩ := touchParents_spec ((touchPath path).drop 1) hne
    (kind_ancestors_take_one fs hpath)
  rw [List.take_append_drop] at hgrows hthere hmade
  refine ⟨_, Prod.ext (hmade hfile) rfl, hgrows, ?_⟩
  intro x
  split_ifs with hx
  · rcases hgrows.kind x with hsame | ⟨-, hdir, -⟩
    · have hthere := hthere (hmade hfile) x hx
      rw [hsame] at hthere ⊢
      exact kind_eq_dir hthere (hfile x hx)
    · exact hdir
  · rcases hgrows.kind x with hsame | ⟨-, -, hnew⟩
    · exact hsame
    · exact absurd hnew hx

/-- A file on the way. -/
theorem touchDir_of_file (hpath : touchPath path ≠ [])
    (haccess : fs.access (touchPath path) = false) {x : Loc}
    (hx : x ∈ parentsOf fs path) (hfile : fs.kind x = some .file) :
    ∃ fs', touchDir fs path = .ok (false, fs') ∧
      Grows fs fs' (parentsOf fs path) := by
  have hbuffer : touchBuffer path ≠ [] := by
    intro hnil
    exact hpath (by simp [touchPath, hnil])
  have hne : (touchPath path).take 1 ≠ [] := by simp [hpath]
  obtain ⟨hgrows, -, -⟩ := touchParents_spec ((touchPath path).drop 1) hne
    (kind_ancestors_take_one fs hpath)
  rw [List.take_append_drop] at hgrows
  rw [touchDir, if_neg hbuffer]
  simp only [haccess, Bool.false_eq_true, if_false]
  -- the file stays, so the last directory cannot be made
  have hmkdir : (touchParents fs ((touchPath path).take 1) ((touchPath path).drop 1)).2.mkdir
      (touchPath path) = none := by
    by_contra hsome
    obtain ⟨fs', hfs'⟩ := Option.ne_none_iff_exists'.mp hsome
    refine (mkdir_spec hfs').1 x (by rwa [hgrows.cwd]) ?_
    rw [hgrows.of_ne_none (by rw [hfile]; exact nofun), hfile]
  rw [hmkdir]
  split_ifs
  · exact ⟨_, rfl, hgrows⟩
  · exact ⟨_, rfl, hgrows⟩

theorem touchBuffer_ne_nil (hpath : path.bytes ≠ []) : touchBuffer path ≠ [] := by
  rw [touchBuffer_eq]
  simp [hpath]

/-- The paths for which the directory is made right.  The copy names something only if the path
names a directory.  It names nothing, and nothing on the way is a file, only if either its place
is free and not one of its own ancestors, and lies on the way of the path, which goes through
nothing else that is missing; or the place is not free, and the path goes through something that
is not made. -/
def Touchable (fs : FileSystem) (path : CStr) : Prop :=
  touchPath path ≠ [] ∧
    (fs.access (touchPath path) = true → fs.lookup path.bytes = some .dir) ∧
    (fs.access (touchPath path) = false → (∀ x ∈ parentsOf fs path, fs.kind x ≠ some .file) →
      if fs.kind (targetOf fs path) = none ∧ targetOf fs path ∉ parentsOf fs path then
        targetOf fs path ∈ places fs.cwd path.bytes ∧
          ∀ x ∈ places fs.cwd path.bytes, fs.kind x = some .dir ∨
            x ∈ targetOf fs path :: parentsOf fs path
      else ∃ x ∈ places fs.cwd path.bytes, fs.kind x ≠ some .dir ∧ x ∉ parentsOf fs path)

/-- The result is the only one. -/
theorem exists_touched_iff {result : Bool} (h : touchDir fs path = .ok (result, fs')) :
    (∃ r t, touchDir fs path = .ok (r, t) ∧ Touched fs path r t) ↔ Touched fs path result fs' := by
  rw [h]
  constructor
  · rintro ⟨r, t, heq, htouched⟩
    cases heq
    exact htouched
  · intro htouched
    exact ⟨_, _, rfl, htouched⟩

/-- The last directory is made in a free place. -/
theorem touched_iff_of_mkdir (hpath : path.bytes ≠ []) {fs₁ fs₂ : FileSystem}
    (hgrows : Grows fs fs₁ (places fs.cwd path.bytes))
    (hkind : ∀ x, fs₁.kind x = if x ∈ parentsOf fs path then some .dir else fs.kind x)
    (htarget : fs.kind (targetOf fs path) = none)
    (hmkdir : fs₁.mkdir (touchPath path) = some fs₂) :
    Touched fs path true fs₂ ↔ targetOf fs path ∈ places fs.cwd path.bytes ∧
      ∀ x ∈ places fs.cwd path.bytes, fs.kind x = some .dir ∨
        x ∈ targetOf fs path :: parentsOf fs path := by
  obtain ⟨-, -, hcwd₂, hkind₂⟩ := mkdir_spec hmkdir
  rw [hgrows.cwd] at hcwd₂ hkind₂
  have hdir : ∀ x, fs₂.kind x = some .dir ↔
      fs.kind x = some .dir ∨ x ∈ targetOf fs path :: parentsOf fs path := by
    intro x
    rw [hkind₂, hkind, List.mem_cons]
    change (if x = targetOf fs path then _ else _) = _ ↔ _
    split_ifs with hx hmem <;> simp [*]
  have hgrows₂ : Grows fs fs₂ (places fs.cwd path.bytes) ↔
      targetOf fs path ∈ places fs.cwd path.bytes := by
    constructor
    · intro h
      rcases h.kind (targetOf fs path) with hsame | ⟨-, -, hnew⟩
      · rw [(hdir _).mpr (.inr (List.mem_cons_self)), htarget] at hsame
        cases hsame
      · exact hnew
    · intro h
      refine hgrows.trans (mkdir_grows hmkdir ?_)
      rw [hgrows.cwd]
      exact h
  rw [Touched, ne_eq, fs₂.lookup_eq_dir_iff hpath, hcwd₂, hgrows₂]
  simp only [hdir]
  constructor
  · rintro ⟨hmade, -, hon⟩
    exact ⟨hon, hmade trivial⟩
  · rintro ⟨hon, hmade⟩
    exact ⟨fun _ => hmade, nofun, hon⟩

/-- The last directory is not made. -/
theorem touched_iff_of_not_mkdir (hpath : path.bytes ≠ []) {fs₁ : FileSystem}
    (hgrows : Grows fs fs₁ (places fs.cwd path.bytes))
    (hkind : ∀ x, fs₁.kind x = if x ∈ parentsOf fs path then some .dir else fs.kind x) :
    Touched fs path false fs₁ ↔
      ∃ x ∈ places fs.cwd path.bytes, fs.kind x ≠ some .dir ∧ x ∉ parentsOf fs path := by
  have hdir : ∀ x, fs₁.kind x = some .dir ↔ fs.kind x = some .dir ∨ x ∈ parentsOf fs path := by
    intro x
    rw [hkind]
    split_ifs with hmem <;> simp [hmem]
  rw [Touched, ne_eq, fs₁.lookup_eq_dir_iff hpath, hgrows.cwd]
  simp only [hdir, not_forall, not_or, exists_prop]
  constructor
  · rintro ⟨-, hnot, -⟩
    exact hnot trivial
  · intro hnot
    exact ⟨nofun, fun _ => hnot, hgrows⟩

/-- Making the directory when there are only directories on the way. -/
theorem touched_iff_of_dirs (hpath : path.bytes ≠ []) (htouch : touchPath path ≠ [])
    (haccess : fs.access (touchPath path) = false)
    (hfile : ∀ x ∈ parentsOf fs path, fs.kind x ≠ some .file) :
    (∃ result fs', touchDir fs path = .ok (result, fs') ∧ Touched fs path result fs') ↔
      if fs.kind (targetOf fs path) = none ∧ targetOf fs path ∉ parentsOf fs path then
        targetOf fs path ∈ places fs.cwd path.bytes ∧
          ∀ x ∈ places fs.cwd path.bytes, fs.kind x = some .dir ∨
            x ∈ targetOf fs path :: parentsOf fs path
      else ∃ x ∈ places fs.cwd path.bytes, fs.kind x ≠ some .dir ∧ x ∉ parentsOf fs path := by
  obtain ⟨fs₁, hparents, hmade, hkind⟩ := exists_parents htouch hfile
  have hgrows := hmade.mono (parentsOf_subset fs htouch)
  have hrun : touchDir fs path = match fs₁.mkdir (touchPath path) with
      | none => .ok (false, fs₁)
      | some fs => .ok (true, fs) := by
    rw [touchDir, if_neg (touchBuffer_ne_nil hpath)]
    simp only [haccess, Bool.false_eq_true, if_false, hparents, if_true]
  have hdirs : ∀ x ∈ ancestors fs₁.cwd (touchPath path), fs₁.kind x = some .dir := by
    intro x hx
    rw [hgrows.cwd] at hx
    rw [hkind]
    exact if_pos hx
  have hfree : fs₁.kind (location fs₁.cwd (touchPath path)) = none ↔
      fs.kind (targetOf fs path) = none ∧ targetOf fs path ∉ parentsOf fs path := by
    rw [hgrows.cwd, hkind]
    show (if targetOf fs path ∈ parentsOf fs path then _ else fs.kind (targetOf fs path)) = _ ↔ _
    split_ifs with hmem <;> simp [hmem]
  cases hmkdir : fs₁.mkdir (touchPath path) with
  | some fs₂ =>
    have htarget := hfree.mp ((mkdir_isSome_iff hdirs).mp (by rw [hmkdir]; rfl))
    rw [hmkdir] at hrun
    rw [exists_touched_iff hrun, if_pos htarget]
    exact touched_iff_of_mkdir hpath hgrows hkind htarget.1 hmkdir
  | none =>
    have htarget : ¬ (fs.kind (targetOf fs path) = none ∧
        targetOf fs path ∉ parentsOf fs path) := by
      intro htarget
      have hsome := (mkdir_isSome_iff hdirs).mpr (hfree.mpr htarget)
      rw [hmkdir] at hsome
      cases hsome
    rw [hmkdir] at hrun
    rw [exists_touched_iff hrun, if_neg htarget]
    exact touched_iff_of_not_mkdir hpath hgrows hkind

/-- Nothing is left of a single slash, although it names a directory. -/
theorem touchDir_root (fs : FileSystem) (hpath : path.bytes ≠ []) (htouch : touchPath path = []) :
    touchDir fs path = .ok (false, fs) ∧ fs.lookup path.bytes = some .dir := by
  have hslash : path.bytes = [slash] := by
    have hne := touchBuffer_ne_nil hpath
    rw [touchPath] at htouch
    split_ifs at htouch with hlast
    · obtain ⟨s, hs⟩ := List.getLast?_eq_some_iff.mp hlast
      rw [hs, List.dropLast_concat] at htouch
      rw [htouch, touchBuffer_eq, List.nil_append] at hs
      obtain ⟨c, rest, hpath⟩ := List.exists_cons_of_ne_nil hpath
      rw [hpath, List.take_succ_cons, List.cons.injEq, List.take_eq_nil_iff] at hs
      rw [hpath, hs.1, hs.2.resolve_left (by decide)]
    · exact absurd htouch hne
  constructor
  · rw [touchDir, if_neg (touchBuffer_ne_nil hpath)]
    simp only [htouch]
    rfl
  · rw [fs.lookup_eq_dir_iff hpath, hslash]
    intro x hx
    have hroot : places fs.cwd [slash] = [[], []] := rfl
    rw [hroot] at hx
    obtain rfl : x = [] := by simpa using hx
    exact fs.root_dir

/-- **`TouchDir`** makes the directory it names exactly for these paths. -/
theorem touchDir_touched_iff (fs : FileSystem) (path : CStr) (hpath : path.bytes ≠ []) :
    (∃ result fs', touchDir fs path = .ok (result, fs') ∧ Touched fs path result fs') ↔
      Touchable fs path := by
  by_cases htouch : touchPath path = []
  · obtain ⟨hrun, hdir⟩ := touchDir_root fs hpath htouch
    rw [exists_touched_iff hrun]
    exact iff_of_false (fun h => h.2.1 rfl hdir) (fun h => h.1 htouch)
  rw [Touchable, and_iff_right htouch]
  by_cases haccess : fs.access (touchPath path) = true
  · have hrun : touchDir fs path = .ok (true, fs) := by
      rw [touchDir, if_neg (touchBuffer_ne_nil hpath)]
      exact if_pos haccess
    rw [exists_touched_iff hrun, Touched]
    simp [haccess, Grows.refl]
  rw [Bool.not_eq_true] at haccess
  by_cases hfile : ∀ x ∈ parentsOf fs path, fs.kind x ≠ some .file
  · rw [touched_iff_of_dirs hpath htouch haccess hfile]
    constructor
    · exact fun h => ⟨by simp [haccess], fun _ _ => h⟩
    · exact fun h => h.2 haccess hfile
  · -- the file is still there
    simp only [not_forall, exists_prop, not_not] at hfile
    obtain ⟨x, hx, hkind⟩ := hfile
    obtain ⟨fs', hrun, hgrows⟩ := touchDir_of_file htouch haccess hx hkind
    have hsub := parentsOf_subset fs htouch
    refine iff_of_true ?_ ⟨by simp [haccess], fun _ hfile => absurd hkind (hfile x hx)⟩
    refine (exists_touched_iff hrun).mpr ⟨nofun, fun _ => ?_, ?_⟩
    · rw [ne_eq, fs'.lookup_eq_dir_iff hpath, hgrows.cwd]
      intro hdirs
      have hdir := hdirs x (hsub hx)
      rw [hgrows.of_ne_none (by rw [hkind]; exact nofun), hkind] at hdir
      cases hdir
    · exact hgrows.mono hsub

/-! ### Short paths -/

/-- A path that fits into the array goes through the places of the copy. -/
theorem mem_places_of_short (fs : FileSystem) (htouch : touchPath path ≠ [])
    (hshort : path.bytes.length ≤ 511) (x : Loc) :
    x ∈ places fs.cwd path.bytes ↔ x ∈ parentsOf fs path ∨ x = targetOf fs path := by
  have hbuffer : touchBuffer path = path.bytes := by
    rw [touchBuffer_eq, List.take_of_length_le hshort]
  have hcopy : x ∈ places fs.cwd (touchPath path) ↔
      x ∈ parentsOf fs path ∨ x = targetOf fs path := by
    rw [places_eq, List.mem_append, List.mem_singleton]
    rfl
  by_cases hlast : path.bytes.getLast? = some slash
  · obtain ⟨s, hs⟩ := List.getLast?_eq_some_iff.mp hlast
    have hpath : touchPath path = s := by
      rw [touchPath, hbuffer, if_pos hlast, hs, List.dropLast_concat]
    rw [← hcopy, hs, hpath]
    rw [hpath] at htouch
    -- the slash names the same place once more
    have hlocation : location fs.cwd (s ++ [slash]) = location fs.cwd s := by
      rw [location, location, start_append fs.cwd htouch, components_snoc_slash,
        List.foldl_append]
      rfl
    rw [places_eq, ancestors_snoc_slash fs.cwd htouch, hlocation, List.mem_append,
      List.mem_singleton, places_eq]
    simp
  · have hpath : touchPath path = path.bytes := by
      rw [touchPath, hbuffer, if_neg hlast]
    rw [← hcopy, hpath]

/-- **A path that fits into the array**: it is not the root, does not name a file, and the
directory is not there already once those on the way to it have been made. -/
theorem touchable_iff_of_short (fs : FileSystem) (hshort : path.bytes.length ≤ 511) :
    Touchable fs path ↔ touchPath path ≠ [] ∧ fs.lookup (touchPath path) ≠ some .file ∧
      ¬ (fs.access (touchPath path) = false ∧ (∀ x ∈ parentsOf fs path, fs.kind x ≠ some .file) ∧
        (fs.kind (targetOf fs path) = some .dir ∨ targetOf fs path ∈ parentsOf fs path)) := by
  refine and_congr_right fun htouch => and_congr ?_ ?_
  · have hpath : path.bytes ≠ [] := by
      intro hnil
      obtain ⟨t, ht⟩ := touchPath_prefix path
      simp [hnil, htouch] at ht
    by_cases haccess : fs.access (touchPath path) = true
    · obtain ⟨hdirs, hthere⟩ := (fs.access_iff htouch).mp haccess
      have hlookup : fs.lookup (touchPath path) = fs.kind (targetOf fs path) := by
        rw [fs.lookup_eq htouch, if_pos hdirs]
        rfl
      have hall : (∀ x ∈ places fs.cwd path.bytes, fs.kind x = some .dir) ↔
          fs.kind (targetOf fs path) = some .dir := by
        simp only [mem_places_of_short fs htouch hshort, or_imp, forall_and, forall_eq]
        exact and_iff_right hdirs
      rw [fs.lookup_eq_dir_iff hpath, hall, hlookup]
      change fs.kind (targetOf fs path) ≠ none at hthere
      cases hkind : fs.kind (targetOf fs path) with
      | none => exact absurd hkind hthere
      | some kind => cases kind <;> simp [haccess]
    · have hnone : fs.lookup (touchPath path) = none := by
        rw [← Option.not_isSome_iff_eq_none]
        exact haccess
      simp [haccess, hnone]
  · have hplaces := mem_places_of_short fs htouch hshort
    rw [not_and, not_and, not_or]
    refine imp_congr_right fun _ => imp_congr_right fun _ => ?_
    split_ifs with hfree
    · refine iff_of_true ⟨(hplaces _).mpr (.inr rfl), fun x hx => ?_⟩
        ⟨by rw [hfree.1]; exact nofun, hfree.2⟩
      rw [List.mem_cons, or_comm (a := x = _)]
      exact .inr ((hplaces x).mp hx)
    · constructor
      · rintro ⟨x, hx, hdir, hnot⟩
        obtain rfl := ((hplaces x).mp hx).resolve_left hnot
        exact ⟨hdir, hnot⟩
      · rintro ⟨hdir, hnot⟩
        exact ⟨_, (hplaces _).mpr (.inr rfl), hdir, hnot⟩

/-- A file system with a file `/f`. -/
def someFile : FileSystem where
  kind x := if x = [] then some .dir else if x = [ascii "f"] then some .file else none
  cwd := []
  root_dir := rfl
  cwd_dir := rfl
  parent_dir name l h := by
    have hroot : name :: l = [ascii "f"] := by
      by_contra hne
      simp [hne] at h
    rw [(List.cons.inj hroot).2]
    rfl

theorem touchDir_touched_iff_tmp :
    (∃ result fs', touchDir someFile (str "/tmp/c2hat") = .ok (result, fs') ∧
      Touched someFile (str "/tmp/c2hat") result fs') ↔ Touchable someFile (str "/tmp/c2hat") :=
  touchDir_touched_iff someFile (str "/tmp/c2hat") (by decide)

/-- A file is taken for the directory. -/
theorem not_touchDir_touched_file : ¬ ∀ (fs : FileSystem) (path : CStr), path.bytes ≠ [] →
    ∃ result fs', touchDir fs path = .ok (result, fs') ∧ Touched fs path result fs' := by
  intro h
  have hrun : touchDir someFile (str "/f") = .ok (true, someFile) := by rfl
  have htouched := (exists_touched_iff hrun).mp (h someFile (str "/f") (by decide))
  exact absurd (htouched.1 rfl) (by decide)

end C2Hat
