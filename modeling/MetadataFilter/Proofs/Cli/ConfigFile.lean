import MetadataFilter.Proofs.Cli.Printing
import MetadataFilter.Proofs.Cli.Writing
import MetadataFilter.Proofs.Grammar.FailFast
import MetadataFilter.Proofs.Settings.Slots
import MetadataFilter.Proofs.Settings.Text

/-!
# Changes of stored settings compose

A run that changes a setting loads the file, changes one slot and writes the file. So a run either
fails and leaves everything as it was, or loading gives the settings before with one slot set; and
after any number of runs every slot holds what the last run that succeeded set it to.

## Key results

- `value_loadSettings_text`: settings that have been written are loaded
- `SetRun.step`: what one run does
- `runAll_step`: what any number of runs do
- `runAll_composes`: which of them succeed, and what they leave behind
-/

namespace MetadataFilter.Cli

open FileTree

/-! ### Settings that are loaded -/

section

variable {t : FileTree} {path : String}

/-- Asking whether a file is there changes no files. -/
theorem ends_isThere (t : FileTree) (path : String) :
    (FileStore.isThere path : Action (StateM FileTree) Bool).Ends t (.ok (t.isThere path)) t :=
  ⟨rfl, rfl⟩

/-- Reading a file changes no files. -/
theorem ends_read (t : FileTree) (path : String) :
    (FileStore.read path : Action (StateM FileTree) _).Ends t
      (.ok (t.content path >>= Content.read)) t :=
  ⟨rfl, rfl⟩

/-- Loading changes no files. -/
theorem after_loadSettings (t : FileTree) (path : String) :
    (loadSettings path : Action (StateM FileTree) Settings).after t = t := by
  unfold loadSettings
  rw [Action.after_bind, (ends_isThere t path).value_eq, (ends_isThere t path).after_eq]
  dsimp only
  split
  · rw [Action.after_bind, (ends_read t path).value_eq, (ends_read t path).after_eq]
    dsimp only
    -- whatever has been read is only looked at
    split
    · rfl
    · split <;> rfl
  · rfl

/-- Settings that have been written are loaded again. -/
theorem value_loadSettings_text {settings : Settings}
    (h : t.lookup path = .ok (.file (.text settings.text))) :
    (loadSettings path : Action (StateM FileTree) Settings).value t = .ok settings := by
  have hthere : t.isThere path = true := by
    unfold isThere
    rw [h]
  have hread : (t.content path >>= Content.read) = .ok settings.text := by
    unfold content
    rw [h]
    rfl
  -- the file is there and has the text, which is read back
  have hends : (loadSettings path : Action (StateM FileTree) Settings).Ends t (.ok settings) t := by
    refine (ends_isThere t path).bind ?_
    rw [if_pos hthere]
    refine (ends_read t path).bind ?_
    rw [hread]
    simp only [Settings.ofText?_text]
    exact Action.ends_pure _ t
  exact hends.value_eq

end

/-! ### Runs that change a setting -/

/-- A run that is to change a setting in the file at a path. -/
structure SetRun (path : String) where
  surroundings : Surroundings
  invocation : Invocation
  key : String
  value : String
  command_eq : invocation.command = .configSet key value
  path_eq : configPath surroundings invocation = .ok path

namespace SetRun

variable {path : String} {t : FileTree} {settings : Settings} {slot : Settings.Slot}

/-- How the run ends. -/
def exitCode (r : SetRun path) (t : FileTree) : Nat :=
  ((run r.surroundings r.invocation : StateM FileTree Outcome).run t).1.exitCode

/-- The files that the run leaves behind. -/
def after (r : SetRun path) (t : FileTree) : FileTree :=
  ((run r.surroundings r.invocation : StateM FileTree Outcome).run t).2

/-- Whether the run is to set a slot, to a value that the slot accepts. -/
def Sets (r : SetRun path) (slot : Settings.Slot) : Prop := r.key = slot.key ∧ slot.Accepts r.value

/-- A run ends as the change of its setting does, and leaves what the change leaves. -/
theorem ends_of_ends {r : SetRun path} {result : Except Failure Unit} {t' : FileTree}
    (h : (changeSetting path r.key r.value : Action (StateM FileTree) Unit).Ends t result t') :
    r.exitCode t = (Outcome.ofResult r.surroundings r.invocation "" result).exitCode ∧
      r.after t = t' := by
  unfold exitCode after
  rw [outcome_eq, after_run]
  simp only [execute, r.command_eq]
  unfold setConfig
  rw [Action.shown_ofExcept_bind, Action.left_ofExcept_bind, r.path_eq]
  show (Outcome.ofShown _ _ (Action.shown (silently _ >>= _) "" t)).exitCode = _ ∧
    Action.left (silently _ >>= _) "" t = t'
  rw [Action.shown_silently_bind, Action.left_silently_bind, h.value_eq, h.after_eq]
  cases result with
  | error f => exact ⟨rfl, rfl⟩
  | ok _ =>
    -- what is said about the change neither fails nor touches a file
    refine ⟨?_, left_said _ t' _ _ _⟩
    cases r.invocation.json <;> cases r.invocation.quiet <;> rfl

/-- Loading ends with its result, and leaves the files as they are. -/
theorem ends_loadSettings {result : Except Failure Settings}
    (hload : (loadSettings path : Action (StateM FileTree) Settings).value t = result) :
    (loadSettings path : Action (StateM FileTree) Settings).Ends t result t :=
  ⟨hload, after_loadSettings t path⟩

/-- If the settings cannot be loaded, the run fails and changes no files. -/
theorem of_not_loaded (r : SetRun path) {f : Failure}
    (hload : (loadSettings path : Action (StateM FileTree) Settings).value t = .error f) :
    r.exitCode t = 5 ∧ r.after t = t := by
  have hends : (changeSetting path r.key r.value : Action (StateM FileTree) Unit).Ends t
      (.error f) t := (ends_loadSettings hload).bind_error
  obtain ⟨hexit, hafter⟩ := ends_of_ends hends
  refine ⟨?_, hafter⟩
  rw [hexit]
  exact Failure.exitCode_eq_five_iff.2 (failsOnly_loadSettings path t f hload)

/-- If the run is to set no slot, it fails and changes no files. -/
theorem of_not_sets (r : SetRun path)
    (hload : (loadSettings path : Action (StateM FileTree) Settings).value t = .ok settings)
    (hsets : ∀ slot, ¬ r.Sets slot) : r.exitCode t = 5 ∧ r.after t = t := by
  cases hchange : settings.change r.key r.value with
  | ok settings' =>
    obtain ⟨slot, hslot⟩ := Settings.accepts_of_change hchange
    exact absurd hslot (hsets slot)
  | error e =>
    have hends : (changeSetting path r.key r.value : Action (StateM FileTree) Unit).Ends t
        (.error (.config (.setting e))) t := by
      refine (ends_loadSettings hload).bind ?_
      simp only [hchange]
      exact Action.ends_throw _ t
    -- a change that is refused is refused before anything is written
    obtain ⟨hexit, hafter⟩ := ends_of_ends hends
    exact ⟨hexit, hafter⟩

/-- If the run is to set a slot, it succeeds, and the settings are loaded with the slot set. -/
theorem of_sets (r : SetRun path) (hwritable : Writable t path)
    (hload : (loadSettings path : Action (StateM FileTree) Settings).value t = .ok settings)
    (hsets : r.Sets slot) :
    r.exitCode t = 0 ∧ Writable (r.after t) path ∧ ∃ settings',
      (loadSettings path : Action (StateM FileTree) Settings).value (r.after t) = .ok settings' ∧
        settings.SetTo settings' slot r.value := by
  obtain ⟨settings', hchange, hset⟩ := settings.change_key hsets.2
  rw [← hsets.1] at hchange
  -- the settings are written whole, so what is loaded afterwards is what has been changed
  obtain ⟨t', hwrite, hthere, hwritable'⟩ := hwritable.writeFile settings'.text .notWritten
  have hends : (changeSetting path r.key r.value : Action (StateM FileTree) Unit).Ends t
      (.ok ()) t' := by
    refine (ends_loadSettings hload).bind ?_
    simp only [hchange]
    exact hwrite
  obtain ⟨hexit, hafter⟩ := ends_of_ends hends
  rw [hafter]
  exact ⟨hexit, hwritable', settings', value_loadSettings_text hthere, hset⟩

/-- A run is to set one slot at most. -/
theorem Sets.slot_unique {r : SetRun path} {other : Settings.Slot} (h : r.Sets slot)
    (h' : r.Sets other) : slot = other :=
  Settings.Slot.key_injective (h.1.symm.trans h'.1)

/-- What one run does: the file can be written and loaded as before, and a slot has changed only if
the run was to set it. -/
theorem step (r : SetRun path) (hwritable : Writable t path)
    (hload : (loadSettings path : Action (StateM FileTree) Settings).value t = .ok settings) :
    Writable (r.after t) path ∧ ∃ settings',
      (loadSettings path : Action (StateM FileTree) Settings).value (r.after t) = .ok settings' ∧
        ∀ slot : Settings.Slot, (r.Sets slot → slot.get settings' = slot.held r.value) ∧
          (¬ r.Sets slot → slot.get settings' = slot.get settings) := by
  by_cases hsets : ∃ slot, r.Sets slot
  · obtain ⟨slot, hslot⟩ := hsets
    obtain ⟨-, hwritable', settings', hload', hset⟩ := r.of_sets hwritable hload hslot
    refine ⟨hwritable', settings', hload', fun other => ⟨fun hother => ?_, fun hother => ?_⟩⟩
    · obtain rfl := hslot.slot_unique hother
      rw [hset slot, if_pos rfl]
    · rw [hset other, if_neg]
      rintro rfl
      exact hother hslot
  -- a run that is refused leaves the files as they are, so nothing is set by it
  · have hnone : ∀ slot, ¬ r.Sets slot := not_exists.1 hsets
    obtain ⟨-, hafter⟩ := r.of_not_sets hload hnone
    rw [hafter]
    exact ⟨hwritable, settings, hload, fun slot => ⟨fun h => absurd h (hnone slot), fun _ => rfl⟩⟩

end SetRun

/-- The files after runs, one after the other. -/
def runAll {path : String} (rs : List (SetRun path)) (t : FileTree) : FileTree :=
  rs.foldl (fun t r => r.after t) t

/-- Settings in which each slot holds what the last run that was to set it set it to. -/
structure LastSet {path : String} (rs : List (SetRun path)) (settings settings' : Settings) :
    Prop where
  set : ∀ before r later slot, rs = before ++ r :: later → r.Sets slot →
    (∀ r' ∈ later, ¬ r'.Sets slot) → slot.get settings' = slot.held r.value
  unchanged : ∀ slot, (∀ r ∈ rs, ¬ r.Sets slot) → slot.get settings' = slot.get settings

section

variable {path : String} {t : FileTree} {settings : Settings}

/-- What runs do, one after the other. -/
theorem runAll_step (rs : List (SetRun path)) (hwritable : Writable t path)
    (hload : (loadSettings path : Action (StateM FileTree) Settings).value t = .ok settings) :
    Writable (runAll rs t) path ∧ ∃ settings',
      (loadSettings path : Action (StateM FileTree) Settings).value (runAll rs t) =
        .ok settings' ∧ LastSet rs settings settings' := by
  -- by induction on the runs: the first one leaves a file that the others can go on with
  induction rs generalizing t settings with
  | nil => exact ⟨hwritable, settings, hload, by simp, fun _ _ => rfl⟩
  | cons r rs ih =>
    obtain ⟨hwritable₁, settings₁, hload₁, hstep⟩ := r.step hwritable hload
    obtain ⟨hwritable', settings', hload', hlast⟩ := ih hwritable₁ hload₁
    refine ⟨hwritable', settings', hload', fun before r₀ later slot hrs hr₀ hlater => ?_,
      fun slot hnone => ?_⟩
    -- the run that sets the slot last is the first run, or one of the others
    · cases before with
      | nil =>
        obtain ⟨rfl, rfl⟩ := List.cons_eq_cons.1 hrs
        rw [hlast.unchanged slot hlater, (hstep slot).1 hr₀]
      | cons _ before => exact hlast.set before r₀ later slot (List.cons_eq_cons.1 hrs).2 hr₀ hlater
    · obtain ⟨hr, hrs⟩ := List.forall_mem_cons.1 hnone
      rw [hlast.unchanged slot hrs, (hstep slot).2 hr]

/-- Runs leave settings that cannot be loaded as they are. -/
theorem runAll_of_not_loaded (rs : List (SetRun path)) {f : Failure}
    (hload : (loadSettings path : Action (StateM FileTree) Settings).value t = .error f) :
    runAll rs t = t := by
  induction rs with
  | nil => rfl
  | cons r rs ih =>
    show runAll rs (r.after t) = t
    rw [(r.of_not_loaded hload).2]
    exact ih

/-- Runs on a file that can be written: if its settings can be loaded, a run succeeds just if it is
to set a slot to a value that the slot accepts, and changes nothing else, and in the end each slot
holds what it was set to last. If they cannot be loaded, every run fails and changes nothing. -/
theorem runAll_composes (hwritable : Writable t path) (rs : List (SetRun path)) :
    (∀ settings, (loadSettings path : Action (StateM FileTree) Settings).value t = .ok settings →
      (∀ before r later, rs = before ++ r :: later →
        (r.exitCode (runAll before t) = 0 ↔ ∃ slot, r.Sets slot) ∧
        (r.exitCode (runAll before t) ≠ 0 → r.exitCode (runAll before t) = 5 ∧
          r.after (runAll before t) = runAll before t)) ∧
      ∃ settings', (loadSettings path : Action (StateM FileTree) Settings).value (runAll rs t) =
        .ok settings' ∧ LastSet rs settings settings') ∧
    ∀ f, (loadSettings path : Action (StateM FileTree) Settings).value t = .error f →
      runAll rs t = t ∧ ∀ before r later, rs = before ++ r :: later →
        r.exitCode (runAll before t) = 5 ∧ r.after (runAll before t) = runAll before t := by
  refine ⟨fun settings hload => ⟨fun before r later _ => ?_, (runAll_step rs hwritable hload).2⟩,
    fun f hload => ⟨runAll_of_not_loaded rs hload, fun before r later _ => ?_⟩⟩
  · obtain ⟨hwritable', settings', hload', -⟩ := runAll_step before hwritable hload
    by_cases hsets : ∃ slot, r.Sets slot
    · obtain ⟨slot, hslot⟩ := hsets
      obtain ⟨hexit, -⟩ := r.of_sets hwritable' hload' hslot
      exact ⟨⟨fun _ => ⟨slot, hslot⟩, fun _ => hexit⟩, fun hne => absurd hexit hne⟩
    · obtain ⟨hexit, hafter⟩ := r.of_not_sets hload' (not_exists.1 hsets)
      refine ⟨⟨fun hzero => ?_, fun h => absurd h hsets⟩, fun _ => ⟨hexit, hafter⟩⟩
      exact absurd (hexit.symm.trans hzero) (by decide)
  -- settings that cannot be loaded stay so, whatever the runs before were
  · rw [runAll_of_not_loaded before hload]
    exact r.of_not_loaded hload

/-- A run on the file `c.toml`. -/
def setRun (key value : String) : SetRun "c.toml" :=
  ⟨.plain, (Command.configSet key value).withFile, key, value, rfl, rfl⟩

/-- Three runs on a file that is there: the second one fails, the third one takes a field out. -/
theorem runAll_composes_of_three :
    ∃ settings', (loadSettings "c.toml" : Action (StateM FileTree) Settings).value
        (runAll [setRun "backend" "SQL", setRun "render.node_alias" " ", setRun "field_map.a" ""]
          (directoryWith "[field_map]\na = \"b\"\n")) = .ok settings' ∧
      LastSet [setRun "backend" "SQL", setRun "render.node_alias" " ", setRun "field_map.a" ""]
        ⟨none, none, none, FieldMap.ofList [("a", "b")]⟩ settings' := by
  have hload : (loadSettings "c.toml" : Action (StateM FileTree) Settings).value
      (directoryWith "[field_map]\na = \"b\"\n") =
        .ok ⟨none, none, none, FieldMap.ofList [("a", "b")]⟩ := by decide +kernel
  have hwrite : (writeFile "c.toml" "" .notWritten : Action (StateM FileTree) Unit).Ends
      (directoryWith "[field_map]\na = \"b\"\n") (.ok ()) _ := ⟨by decide +kernel, rfl⟩
  have hwritable := writable_of_writeFile hwrite (by decide +kernel)
  exact ((runAll_composes hwritable _).1 _ hload).2

end

end MetadataFilter.Cli
