import MetadataFilter.Cli.Run
import MetadataFilter.Files.Tree

/-!
# Steps over files in a state

A step of a command over files that are kept in a state has a value, or fails, and leaves a state
behind: `Action.value` and `Action.after`. The lemmas say how both are put together from the parts
of the step, so that what a step does is an equation about its parts.

## Key results

- `Action.value_bind`, `Action.after_bind`, `Action.Ends.bind`: steps in a row
- `Action.FailsOnly.bind`: what all failures have in common
- `failsOnly_loadSettings`: settings that cannot be loaded are a failure over settings
-/

namespace MetadataFilter.Cli

namespace Action

variable {σ α β : Type}

/-- What an action gives, or why it fails, if it starts in a state. -/
def value (a : Action (StateM σ) α) (t : σ) : Except Failure α := (a.run.run t).1

/-- The state that an action leaves behind. -/
def after (a : Action (StateM σ) α) (t : σ) : σ := (a.run.run t).2

section

variable (t : σ) (r : Except Failure α) (step : StateM σ α) (a : Action (StateM σ) α)
  (k : α → Action (StateM σ) β)

/-- A step that needs no files gives its own result. -/
@[simp] theorem value_ofExcept : (ofExcept r : Action (StateM σ) α).value t = r := rfl

/-- A step on files that cannot break off gives what the step gives. -/
@[simp] theorem value_lift : value (ExceptT.lift step) t = .ok (step.run t).1 := rfl

/-- A step on files leaves what the step leaves. -/
@[simp] theorem after_lift : after (ExceptT.lift step) t = (step.run t).2 := rfl

/-- The second step starts where the first one has ended. -/
theorem value_bind : (a >>= k).value t = a.value t >>= fun x => (k x).value (a.after t) := by
  show ((ExceptT.bindCont _ (a.run.run t).1 : StateM σ _) _).1 = (a.run.run t).1 >>= _
  cases (a.run.run t).1 <;> rfl

/-- Behind a step that fails nothing is left but its own state. -/
theorem after_bind : (a >>= k).after t =
    match a.value t with
    | .ok x => (k x).after (a.after t)
    | .error _ => a.after t := by
  show ((ExceptT.bindCont _ (a.run.run t).1 : StateM σ _) _).2 =
    match (a.run.run t).1 with
    | .ok x => (k x).after (a.after t)
    | .error _ => a.after t
  cases (a.run.run t).1 <;> rfl

variable {t a k}

/-- Steps in a row succeed only if each of them does. -/
theorem value_bind_eq_ok_iff {y : β} : (a >>= k).value t = .ok y ↔
    ∃ x, a.value t = .ok x ∧ (k x).value (a.after t) = .ok y := by
  rw [value_bind]
  cases a.value t <;> simp [bind, Except.bind]

/-- They fail where the first of them does that fails. -/
theorem value_bind_eq_error_iff {f : Failure} : (a >>= k).value t = .error f ↔
    a.value t = .error f ∨ ∃ x, a.value t = .ok x ∧ (k x).value (a.after t) = .error f := by
  rw [value_bind]
  cases a.value t <;> simp [bind, Except.bind]

end

/-- From the state `t` the action comes to the result `r` and leaves the state `t'` behind. -/
structure Ends (a : Action (StateM σ) α) (t : σ) (r : Except Failure α) (t' : σ) : Prop where
  value_eq : a.value t = r
  after_eq : a.after t = t'

section

variable {t t' t'' : σ} {a : Action (StateM σ) α} {k : α → Action (StateM σ) β} {x : α}
  {r : Except Failure β} {f : Failure}

/-- Giving a value changes no state. -/
theorem ends_pure (x : α) (t : σ) : (pure x : Action (StateM σ) α).Ends t (.ok x) t := ⟨rfl, rfl⟩

/-- Breaking off changes no state. -/
theorem ends_throw (f : Failure) (t : σ) : (throw f : Action (StateM σ) α).Ends t (.error f) t :=
  ⟨rfl, rfl⟩

/-- A step on files ends as it does by itself. -/
theorem ends_lift {step : StateM σ α} (h : step.run t = (x, t')) :
    Ends (ExceptT.lift step) t (.ok x) t' := by
  constructor
  · rw [value_lift, h]
  · rw [after_lift, h]

/-- Steps in a row end as the second one does. -/
theorem Ends.bind (h : a.Ends t (.ok x) t') (hk : (k x).Ends t' r t'') :
    (a >>= k).Ends t r t'' := by
  constructor
  · rw [value_bind, h.value_eq, h.after_eq]
    exact hk.value_eq
  · rw [after_bind, h.value_eq, h.after_eq]
    exact hk.after_eq

/-- What is left of a row of steps once the first one has been made. -/
theorem Ends.rest (hbind : (a >>= k).Ends t r t'') (h : a.Ends t (.ok x) t') :
    (k x).Ends t' r t'' := by
  constructor
  · rw [← hbind.value_eq, value_bind, h.value_eq, h.after_eq]
    rfl
  · rw [← hbind.after_eq, after_bind, h.value_eq, h.after_eq]

/-- A row of steps that succeeds has a first step that does. -/
theorem Ends.of_bind_ok {y : β} (hbind : (a >>= k).Ends t (.ok y) t'') :
    ∃ x t', a.Ends t (.ok x) t' ∧ (k x).Ends t' (.ok y) t'' := by
  obtain ⟨x, hx, -⟩ := value_bind_eq_ok_iff.1 hbind.value_eq
  exact ⟨x, a.after t, ⟨hx, rfl⟩, hbind.rest ⟨hx, rfl⟩⟩

/-- A row of steps ends with the first failure. -/
theorem Ends.bind_error (h : a.Ends t (.error f) t') : (a >>= k).Ends t (.error f) t' := by
  constructor
  · rw [value_bind, h.value_eq]
    rfl
  · rw [after_bind, h.value_eq]
    exact h.after_eq

end

/-- Whatever state it starts in, the action fails only for reasons of a kind. -/
def FailsOnly (kind : Failure → Prop) (a : Action (StateM σ) α) : Prop :=
  ∀ t f, a.value t = .error f → kind f

section

variable {kind : Failure → Prop} {a : Action (StateM σ) α} {k : α → Action (StateM σ) β}

/-- Giving a value does not fail. -/
theorem failsOnly_pure (kind : Failure → Prop) (x : α) :
    (pure x : Action (StateM σ) α).FailsOnly kind :=
  nofun

/-- A step on files does not break off. -/
theorem failsOnly_lift (kind : Failure → Prop) (step : StateM σ α) :
    FailsOnly kind (ExceptT.lift step) :=
  nofun

/-- Breaking off fails for the reason that is given. -/
theorem failsOnly_throw {f : Failure} (h : kind f) :
    (throw f : Action (StateM σ) α).FailsOnly kind := by
  rintro t f' hf
  cases hf
  exact h

/-- A step that needs no files fails for its own reasons. -/
theorem failsOnly_ofExcept {r : Except Failure α} (h : ∀ f, r = .error f → kind f) :
    (ofExcept r : Action (StateM σ) α).FailsOnly kind :=
  fun _ f hf => h f hf

/-- Steps in a row fail for the reasons of one of them. -/
theorem FailsOnly.bind (h : a.FailsOnly kind) (hk : ∀ x, (k x).FailsOnly kind) :
    (a >>= k).FailsOnly kind := by
  intro t f hf
  rcases value_bind_eq_error_iff.1 hf with hf | ⟨x, -, hf⟩
  · exact h t f hf
  · exact hk x _ f hf

end

end Action

variable {σ : Type} [FileStore (StateM σ)]

/-- A failure over settings, or over the files that hold them. -/
def Failure.IsConfig (f : Failure) : Prop := ∃ e, f = .config e

/-- Every failure over settings is one. -/
theorem Failure.isConfig (e : ConfigError) : (config e).IsConfig := ⟨e, rfl⟩

/-- The exit code of failures over settings is their own. -/
theorem Failure.exitCode_eq_five_iff {f : Failure} : f.exitCode = 5 ↔ f.IsConfig := by
  cases f <;> simp [exitCode, IsConfig]

/-- Settings that cannot be loaded are a failure over settings. -/
theorem failsOnly_loadSettings (path : String) :
    (loadSettings path : Action (StateM σ) Settings).FailsOnly Failure.IsConfig := by
  refine (Action.failsOnly_lift _ _).bind fun isThere => ?_
  cases isThere with
  | false => exact Action.failsOnly_pure _ _
  | true =>
    refine (Action.failsOnly_lift _ _).bind fun content => ?_
    -- the file has been found and cannot be read, or what is in it are no settings
    cases content with
    | error e => exact Action.failsOnly_throw (Failure.isConfig _)
    | ok text =>
      dsimp only
      split
      · exact Action.failsOnly_pure _ _
      · exact Action.failsOnly_throw (Failure.isConfig _)

/-- Asking for a file gives an answer. -/
@[simp] theorem Action.value_isThere (path : String) (t : σ) :
    (FileStore.isThere path : Action (StateM σ) Bool).value t =
      .ok ((FileStore.isThere path : StateM σ Bool).run t).1 :=
  rfl

/-- Asking for a file leaves what that leaves. -/
@[simp] theorem Action.after_isThere (path : String) (t : σ) :
    (FileStore.isThere path : Action (StateM σ) Bool).after t =
      ((FileStore.isThere path : StateM σ Bool).run t).2 :=
  rfl

/-! ### Small surroundings -/

/-- Surroundings that say nothing. -/
def Surroundings.plain : Surroundings := ⟨none, none, true, .ok ""⟩

/-- A command with settings in the file `c.toml`. -/
def Command.withFile (command : Command) : Invocation :=
  ⟨false, false, false, some "c.toml", command⟩

/-- A working directory that holds nothing but the file `c.toml`. -/
def directoryWith (text : String) : FileTree :=
  FileTree.initial.put (FileTree.workingDirectory ++ ["c.toml"]) (.file (.text text))

end MetadataFilter.Cli
