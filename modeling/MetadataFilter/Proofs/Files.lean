import MetadataFilter.Files.Tree

/-!
# Where paths lead

What is put where no directory stands leaves all directories where they are, so that paths keep
leading to the same places. What has been written to a path is found there, and can be replaced.

## Key results

- `resolve_put`, `isDirectory_put`: paths lead to the same places as before
- `isDirectory_of_makeDirectory`: a directory that has been made is there
- `Fits.put`, `Fits.lookup_put`: a file that has been written is found, and can be written again
-/

namespace MetadataFilter.FileTree

variable {t : FileTree} {location : Location} {entry : Entry} {path : String}

/-- A step that succeeds has a first part that does, and the rest succeeds on what it gives. -/
theorem bind_eq_ok {α β : Type} {x : Except FileError α} {f : α → Except FileError β} {y : β}
    (h : x >>= f = .ok y) : ∃ a, x = .ok a ∧ f a = .ok y := by
  cases x with
  | error e => cases h
  | ok a => exact ⟨a, rfl, h⟩

/-! ### Paths after a change -/

/-- To enter a directory is to take a step to a place where one stands. -/
theorem enter_eq_ok_iff {start next : Location} {name : String} :
    t.enter start name = .ok next ↔
      step start name = .ok next ∧ t.find? next = some .directory := by
  constructor
  · intro h
    obtain ⟨place, hstep, h⟩ := bind_eq_ok h
    split at h
    · cases h
    · next hthere => cases h; exact ⟨hstep, hthere⟩
    · cases h
  · rintro ⟨hstep, hthere⟩
    unfold enter
    rw [hstep]
    simp only [bind, Except.bind, hthere]
    rfl

/-- A directory is never put in the place of one. -/
theorem find?_put_of_directory (hfree : t.find? location ≠ some .directory) {other : Location}
    (h : t.find? other = some .directory) :
    (t.put location entry).find? other = some .directory := by
  have hne : other ≠ location := by
    rintro rfl
    exact hfree h
  rw [find?_put_of_ne t entry hne, h]

/-- Going along names leads to the same place as before something was put where no directory
stood. -/
theorem foldlM_enter_put (hfree : t.find? location ≠ some .directory) {names : List String}
    {start around : Location} (h : names.foldlM t.enter start = .ok around) :
    names.foldlM (t.put location entry).enter start = .ok around := by
  induction names generalizing start with
  | nil => exact h
  | cons name names ih =>
    rw [List.foldlM_cons] at h ⊢
    obtain ⟨next, hnext, hrest⟩ := bind_eq_ok h
    obtain ⟨hstep, hthere⟩ := enter_eq_ok_iff.1 hnext
    rw [enter_eq_ok_iff.2 ⟨hstep, find?_put_of_directory hfree hthere⟩]
    exact ih hrest

/-- A path leads to the same name in the same directory. -/
theorem resolve_put (hfree : t.find? location ≠ some .directory) {target : Target}
    (h : t.resolve path = .ok target) : (t.put location entry).resolve path = .ok target := by
  -- what is checked before the names does not depend on the tree
  unfold resolve at h ⊢
  dsimp only at h ⊢
  by_cases hnul : path.toList.contains '\x00' = true
  · rw [if_pos hnul] at h
    cases h
  rw [if_neg hnul] at h ⊢
  by_cases hempty : path.isEmpty = true
  · rw [if_pos hempty] at h
    cases h
  rw [if_neg hempty] at h ⊢
  by_cases hlong : maxPath < path.utf8ByteSize
  · rw [if_pos hlong] at h
    cases h
  rw [if_neg hlong] at h ⊢
  obtain ⟨around, haround, h⟩ := bind_eq_ok h
  rw [foldlM_enter_put hfree haround]
  exact h

/-- Something stands at the end of a path just if the path leads to its place. -/
theorem lookup_eq_directory_iff :
    t.lookup path = .ok .directory ↔ ∃ target place, t.resolve path = .ok target ∧
      target.location = .ok place ∧ t.find? place = some .directory := by
  constructor
  · intro h
    -- A place is found there, and of what can stand in it only a directory is no refusal here.
    obtain ⟨target, htarget, h⟩ := bind_eq_ok h
    obtain ⟨place, hplace, h⟩ := bind_eq_ok h
    split at h
    · cases h
    · next hthere => exact ⟨target, place, htarget, hplace, hthere⟩
    · next entry hne hthere =>
      split at h
      · cases h
      · cases h
        exact absurd rfl hne
  · rintro ⟨target, place, htarget, hplace, hthere⟩
    unfold lookup
    rw [htarget]
    simp only [bind, Except.bind, hplace, hthere]
    rfl

/-- A path is said to lead to a directory where looking it up gives one. -/
theorem isDirectory_iff : t.isDirectory path = true ↔ t.lookup path = .ok .directory := by
  unfold isDirectory
  split <;> simp_all

/-- What was a directory stays one. -/
theorem isDirectory_put (hfree : t.find? location ≠ some .directory)
    (h : t.isDirectory path = true) : (t.put location entry).isDirectory path = true := by
  rw [isDirectory_iff, lookup_eq_directory_iff] at h ⊢
  obtain ⟨target, place, htarget, hplace, hthere⟩ := h
  exact ⟨target, place, resolve_put hfree htarget, hplace, find?_put_of_directory hfree hthere⟩

/-- The root is a directory, so it is not free. -/
theorem ne_nil_of_find? (hfree : t.find? location ≠ some .directory) : location ≠ [] := by
  rintro rfl
  exact hfree rfl

/-! ### Making directories -/

/-- A directory is made by putting one in the place that the path leads to, if nothing stands
there. -/
theorem makeDirectory_eq_ok_iff {t' : FileTree} :
    t.makeDirectory path = .ok t' ↔ ∃ target place, t.resolve path = .ok target ∧
      target.location = .ok place ∧ t.find? place = none ∧ t' = t.put place .directory := by
  -- the path leads somewhere, and nothing is there yet
  constructor
  · intro h
    obtain ⟨target, htarget, h⟩ := bind_eq_ok h
    obtain ⟨place, hplace, h⟩ := bind_eq_ok h
    split at h
    · cases h
    · next hfree =>
      cases h
      exact ⟨target, place, htarget, hplace, hfree, rfl⟩
  · rintro ⟨target, place, htarget, hplace, hfree, rfl⟩
    unfold makeDirectory
    rw [htarget]
    simp only [bind, Except.bind, hplace, hfree]
    rfl

/-- A directory that has been made is there. -/
theorem isDirectory_of_makeDirectory {t' : FileTree} (h : t.makeDirectory path = .ok t') :
    t'.isDirectory path = true := by
  obtain ⟨target, place, htarget, hplace, hfree, rfl⟩ := makeDirectory_eq_ok_iff.1 h
  have hfree : t.find? place ≠ some .directory := by simp [hfree]
  rw [isDirectory_iff, lookup_eq_directory_iff]
  exact ⟨target, place, resolve_put hfree htarget, hplace,
    find?_put_self t _ (ne_nil_of_find? hfree)⟩

/-- A directory that is there cannot be made again. -/
theorem makeDirectory_of_isDirectory (h : t.isDirectory path = true) :
    t.makeDirectory path = .error .alreadyExists := by
  rw [isDirectory_iff, lookup_eq_directory_iff] at h
  obtain ⟨target, place, htarget, hplace, hthere⟩ := h
  unfold makeDirectory
  rw [htarget]
  simp only [bind, Except.bind, hplace, hthere]
  rfl

/-! ### Files that are written -/

/-- A path leads to a place for a file, which may be there already. -/
structure Fits (t : FileTree) (path : String) (target : Target) (place : Location) : Prop where
  resolve_eq : t.resolve path = .ok target
  names_file : target.directory = false
  location_eq : target.location = .ok place
  not_directory : t.find? place ≠ some .directory
  not_sink : t.find? place ≠ some .sink

section

variable {target : Target} {place : Location} {content : Content}

/-- A file is put in its place. -/
theorem Fits.write_eq (h : t.Fits path target place) (content : Content) :
    t.write path content = .ok (t.put place (.file content)) := by
  unfold write
  rw [h.resolve_eq]
  simp only [bind, Except.bind, h.names_file, h.location_eq, Bool.false_eq_true, if_false]
  split
  · next hthere => exact absurd hthere h.not_directory
  · next hthere => exact absurd hthere h.not_sink
  · rfl

/-- The place is still one for a file after a file has been put there. -/
theorem Fits.put (h : t.Fits path target place) (content : Content) :
    (t.put place (.file content)).Fits path target place := by
  have hfind := find?_put_self t (.file content) (ne_nil_of_find? h.not_directory)
  exact ⟨resolve_put h.not_directory h.resolve_eq, h.names_file, h.location_eq, by simp [hfind],
    by simp [hfind]⟩

/-- What has been put in the place is found at the path. -/
theorem Fits.lookup_put (h : t.Fits path target place) (content : Content) :
    (t.put place (.file content)).lookup path = .ok (.file content) := by
  have hfind := find?_put_self t (.file content) (ne_nil_of_find? h.not_directory)
  unfold lookup
  rw [(h.put content).resolve_eq]
  simp only [bind, Except.bind, h.location_eq, hfind, h.names_file, Bool.false_eq_true, if_false]
  rfl

/-- A file can be written, unless the path leads to what takes every content and holds none. -/
theorem fits_of_write {t' : FileTree} (h : t.write path content = .ok t') :
    (∃ target place, t.Fits path target place) ∨ t.lookup path = .ok .sink ∧ t' = t := by
  -- The refusals are passed in the order in which `write` meets them; a sink is the one success
  -- that changes nothing.
  obtain ⟨target, htarget, h⟩ := bind_eq_ok h
  split at h
  · cases h
  · next hname =>
    obtain ⟨place, hplace, h⟩ := bind_eq_ok h
    split at h
    · cases h
    · next hsink =>
      cases h
      refine .inr ⟨?_, rfl⟩
      unfold lookup
      rw [htarget]
      simp only [bind, Except.bind, hplace, hsink, hname, Bool.false_eq_true, if_false]
      rfl
    · next hdirectory hsink =>
      exact .inl ⟨target, place, htarget, by simpa using hname, hplace, hdirectory, hsink⟩

end

end MetadataFilter.FileTree
