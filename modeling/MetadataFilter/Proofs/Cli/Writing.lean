import MetadataFilter.Proofs.Cli.Outcome
import MetadataFilter.Proofs.Files

/-!
# Writing a file

A file is written after the directory around it has been made, with those around that one as far as
they are not there. A path is `Writable` if that can be done; what is written is then found there,
and the path stays writable.

## Key results

- `exists_ends_makeAll`: a directory is there once it has been made
- `Writable.writeFile`: what has been written is there, and can be written again
- `writable_of_writeFile`: nothing else can be written and be found
-/

namespace MetadataFilter.Cli

open FileTree

/-! ### Steps on files in a tree -/

section

variable {t t' : FileTree} {path : String}

/-- Asking whether a directory is there changes no files. -/
theorem ends_isDirectory (t : FileTree) (path : String) :
    (FileStore.isDirectory path : Action (StateM FileTree) Bool).Ends t
      (.ok (t.isDirectory path)) t :=
  ⟨rfl, rfl⟩

/-- A directory that can be made is made. -/
theorem ends_makeDirectory (h : t.makeDirectory path = .ok t') :
    (FileStore.makeDirectory path : Action (StateM FileTree) _).Ends t (.ok (.ok ())) t' := by
  refine Action.ends_lift ?_
  show (keep (t.makeDirectory path)).run t = _
  rw [h]
  rfl

/-- A directory that cannot be made changes no files. -/
theorem ends_makeDirectory_of_error {e : FileError} (h : t.makeDirectory path = .error e) :
    (FileStore.makeDirectory path : Action (StateM FileTree) _).Ends t (.ok (.error e)) t := by
  refine Action.ends_lift ?_
  show (keep (t.makeDirectory path)).run t = _
  rw [h]
  rfl

/-- A file that can be written is written. -/
theorem ends_write {text : String} (h : t.write path (.text text) = .ok t') :
    (FileStore.write path text : Action (StateM FileTree) _).Ends t (.ok (.ok ())) t' := by
  refine Action.ends_lift ?_
  show (keep (t.write path (.text text))).run t = _
  rw [h]
  rfl

/-- A file that cannot be written changes no files. -/
theorem ends_write_of_error {text : String} {e : FileError}
    (h : t.write path (.text text) = .error e) :
    (FileStore.write path text : Action (StateM FileTree) _).Ends t (.ok (.error e)) t := by
  refine Action.ends_lift ?_
  show (keep (t.write path (.text text))).run t = _
  rw [h]
  rfl

/-- A directory that could not be made will do if it is there. -/
theorem ends_settle_of_error (t : FileTree) (path : String) (e : FileError) :
    (FileStore.settle path (.error e) : Action (StateM FileTree) _).Ends t
      (.ok (if t.isDirectory path then .ok () else .error e)) t := by
  refine .bind (ends_isDirectory t path) ?_
  cases t.isDirectory path <;> exact Action.ends_pure _ t

/-- Whatever comes of making a directory, it is there if that counts as a success. -/
theorem exists_ends_settle (t : FileTree) (path : String) :
    ∃ r t', (FileStore.makeDirectory path >>= FileStore.settle path :
      Action (StateM FileTree) _).Ends t (.ok r) t' ∧
        (r = .ok () → t'.isDirectory path = true) := by
  cases h : t.makeDirectory path with
  | ok t' =>
    refine ⟨.ok (), t', ?_, fun _ => isDirectory_of_makeDirectory h⟩
    exact .bind (ends_makeDirectory h) (Action.ends_pure _ t')
  | error e =>
    refine ⟨_, t, .bind (ends_makeDirectory_of_error h) (ends_settle_of_error t path e), ?_⟩
    cases t.isDirectory path <;> simp

/-- A directory is there once it and those around it have been made. -/
theorem exists_ends_makeAll (fuel : Nat) (t : FileTree) (path : String) :
    ∃ r t', (FileStore.makeAll fuel path : Action (StateM FileTree) _).Ends t (.ok r) t' ∧
      (path.isEmpty = false → r = .ok () → t'.isDirectory path = true) := by
  -- by induction on the fuel, where the directory around this one is made with less of it
  induction fuel generalizing t path with
  | zero => exact ⟨_, t, Action.ends_pure _ t, by simp⟩
  | succ fuel ih =>
    unfold FileStore.makeAll
    by_cases hpath : path.isEmpty = true
    · rw [if_pos hpath]
      exact ⟨_, t, Action.ends_pure _ t, by simp [hpath]⟩
    rw [if_neg hpath]
    cases h : t.makeDirectory path with
    | ok t' =>
      refine ⟨_, t', .bind (ends_makeDirectory h) (Action.ends_pure _ t'), fun _ _ => ?_⟩
      exact isDirectory_of_makeDirectory h
    | error e =>
      -- only if the directory around it is missing that one is made first
      by_cases hnotFound : e = .notFound
      · subst hnotFound
        cases hparent : Path.parent? path with
        | none =>
          refine ⟨.error (.other "failed to create whole tree"), t,
            .bind (ends_makeDirectory_of_error h) ?_, by simp⟩
          exact Action.ends_pure _ t
        | some parent =>
          -- whatever comes of the directory around it, what counts is whether this one is there in
          -- the end
          obtain ⟨r, t', hr, -⟩ := ih t parent
          cases r with
          | error e =>
            refine ⟨.error e, t', .bind (ends_makeDirectory_of_error h) ?_, by simp⟩
            exact .bind hr (Action.ends_pure _ t')
          | ok _ =>
            obtain ⟨r, t'', hsettle, hthere⟩ := exists_ends_settle t' path
            refine ⟨r, t'', .bind (ends_makeDirectory_of_error h) ?_, fun _ => hthere⟩
            exact .bind hr hsettle
      · refine ⟨if t.isDirectory path then .ok () else .error e, t,
          .bind (ends_makeDirectory_of_error h) ?_, fun _ => ?_⟩
        · split
          · next heq => exact absurd (Except.error.inj heq) hnotFound
          · exact ends_settle_of_error t path e
        · cases t.isDirectory path <;> simp

/-! ### Files that can be written -/

/-- The directory that a path names for its file is there, if it names one. -/
def ParentThere (t : FileTree) (path : String) : Prop :=
  ∀ parent, (Path.parent? path).filter (!·.isEmpty) = some parent → t.isDirectory parent = true

/-- The directory around a file is there once it has been made. -/
theorem parentThere_of_makeParent
    (h : (makeParent path : Action (StateM FileTree) Unit).Ends t (.ok ()) t') :
    ParentThere t' path := by
  intro parent hparent
  obtain ⟨r, t'', hr, hthere⟩ := exists_ends_makeAll (parent.length + 1) t parent
  unfold makeParent at h
  simp only [hparent] at h
  have hrest := h.rest hr
  -- the run has gone on, so the directories have been made
  cases r with
  | error e => exact nomatch hrest.value_eq
  | ok _ =>
    rw [← hrest.after_eq]
    exact hthere (by simpa using (Option.filter_eq_some_iff.1 hparent).2) rfl

/-- Nothing is made if the directory is there. -/
theorem ParentThere.ends_makeParent (h : ParentThere t path) :
    (makeParent path : Action (StateM FileTree) Unit).Ends t (.ok ()) t := by
  unfold makeParent
  cases hparent : (Path.parent? path).filter (!·.isEmpty) with
  | none => exact Action.ends_pure () t
  | some parent =>
    have hname : parent.isEmpty = false := by
      simpa using (Option.filter_eq_some_iff.1 hparent).2
    have hthere := h parent hparent
    -- the directory is there already, which counts as having been made
    have hmake : (FileStore.makeDirectories parent : Action (StateM FileTree) _).Ends t
        (.ok (.ok ())) t := by
      unfold FileStore.makeDirectories FileStore.makeAll
      rw [if_neg (by simp [hname])]
      refine .bind (ends_makeDirectory_of_error (makeDirectory_of_isDirectory hthere)) ?_
      have hsettle := ends_settle_of_error t parent .alreadyExists
      rwa [if_pos hthere] at hsettle
    exact .bind hmake (Action.ends_pure () t)

/-- The directory of a file can be made, and leaves a place for the file. -/
def Writable (t : FileTree) (path : String) : Prop :=
  ∃ t' target place, (makeParent path : Action (StateM FileTree) Unit).Ends t (.ok ()) t' ∧
    t'.Fits path target place

/-- A file that can be written holds what has been written, and can be written again. -/
theorem Writable.writeFile (h : Writable t path) (text : String)
    (failure : FileError → ConfigError) :
    ∃ t', (writeFile path text failure : Action (StateM FileTree) Unit).Ends t (.ok ()) t' ∧
      t'.lookup path = .ok (.file (.text text)) ∧ Writable t' path := by
  obtain ⟨t', target, place, hparent, hfits⟩ := h
  have hthere : ParentThere (t'.put place (.file (.text text))) path := fun parent hname =>
    isDirectory_put hfits.not_directory (parentThere_of_makeParent hparent parent hname)
  refine ⟨_, hparent.bind ((ends_write (hfits.write_eq _)).bind (Action.ends_pure () _)),
    hfits.lookup_put _, ?_⟩
  exact ⟨_, target, place, hthere.ends_makeParent, hfits.put _⟩

/-- Nothing else can be written and then be found. -/
theorem writable_of_writeFile {text : String} {failure : FileError → ConfigError}
    (h : (writeFile path text failure : Action (StateM FileTree) Unit).Ends t (.ok ()) t')
    (hthere : t'.lookup path = .ok (.file (.text text))) : Writable t path := by
  obtain ⟨_, t₁, hparent, hrest⟩ := h.of_bind_ok
  cases hwritten : t₁.write path (.text text) with
  | error e => exact nomatch (hrest.rest (ends_write_of_error hwritten)).value_eq
  | ok t₂ =>
    have hend : t₂ = t' := (hrest.rest (ends_write hwritten)).after_eq
    subst hend
    -- a sink takes what is written without keeping it
    rcases fits_of_write hwritten with ⟨target, place, hfits⟩ | ⟨hsink, rfl⟩
    · exact ⟨t₁, target, place, hparent, hfits⟩
    · rw [hsink] at hthere
      cases hthere

end

end MetadataFilter.Cli
