import MetadataFilter.Proofs.Cli.Printing
import MetadataFilter.Proofs.Render.Failure
import MetadataFilter.Proofs.Render.RoundTrip

/-!
# What can go wrong with a command

Each reason for which a command can fail is said apart from the others, as something that is the
case or not: the input cannot be read, the filter is rejected, the settings are of no use, or the
backend cannot express the filter. A command fails for the first reason that is the case, and
succeeds if none is.

## Key results

- `failure?_bind`, `failure?_mapM`: failures of what is done in a row
- `failure?_drawing`: the tree of a filter can always be drawn
- `failure?_renderFilter`, `failure?_execute`: a command fails for the first reason there is
-/

namespace MetadataFilter

section

variable {ε α β : Type}

/-- What is done in a row fails with the first failure. -/
theorem failure?_bind (x : Except ε α) (f : α → Except ε β) :
    failure? (x >>= f) = (failure? x).or (x.toOption.bind fun a => failure? (f a)) := by
  cases x <;> rfl

/-- What always succeeds does not count. -/
theorem failure?_bind_of_ok {x : Except ε α} {f : α → Except ε β}
    (h : ∀ a, x = .ok a → failure? (f a) = none) : failure? (x >>= f) = failure? x := by
  cases x with
  | error c => rfl
  | ok a => exact h a rfl

/-- A list fails with the failure of the first element that fails. -/
theorem failure?_mapM (f : α → Except ε β) (xs : List α) :
    failure? (xs.mapM f) = xs.findSome? fun x => failure? (f x) := by
  induction xs with
  | nil => rfl
  | cons x xs ih =>
    rw [List.mapM_cons, List.findSome?_cons]
    cases hx : f x with
    | error c => rfl
    | ok y =>
      show failure? (do return y :: (← xs.mapM f)) = _
      rw [failure?_map, ih]
      rfl

/-- The first reason of a list is its head, or the first one of the rest. -/
theorem findSome?_id_cons (x : Option α) (xs : List (Option α)) :
    (x :: xs).findSome? id = x.or (xs.findSome? id) := by
  cases x <;> rfl

end

namespace Cli

/-! ### Reasons to fail -/

/-- The input cannot be read. -/
def inputFault? (s : Surroundings) (c : Command) : Option Failure :=
  if c.readsInput then (failure? s.input).map .input else none

/-- The text of the filter that a command is about, if it can be had. -/
def filterText? (s : Surroundings) (c : Command) : Option String :=
  c.expression?.bind fun expression =>
    if expression = "-" then s.input.toOption.map dropLineEnds else some expression

/-- The filter is rejected, as a whole or for its tokens. -/
def filterFault? (s : Surroundings) (c : Command) : Option Failure :=
  (filterText? s c).bind fun text =>
    match c with
    | .tokens _ => failure? (readTokens text)
    | _ => failure? (parseFilter text)

/-- The file with settings has no path. -/
def pathFault? (s : Surroundings) (i : Invocation) : Option Failure := failure? (configPath s i)

/-- One of the fields that the options map is malformed. -/
def fieldFault? (options : RenderOptions) : Option Failure :=
  options.fields.findSome? fun mapping => failure? (fieldMapping mapping)

section

variable {σ : Type} [FileStore (StateM σ)]

/-- Loading the stored settings. -/
def stored (s : Surroundings) (i : Invocation) : Action (StateM σ) Settings :=
  Action.ofExcept (configPath s i) >>= loadSettings

/-- The file with settings has no path or cannot be loaded. -/
def fileFault? (s : Surroundings) (i : Invocation) (t : σ) : Option Failure :=
  failure? ((stored s i).value t)

/-- The stored backend is unknown. -/
def backendFault? (s : Surroundings) (i : Invocation) (t : σ) : Option Failure :=
  ((stored s i).value t).toOption.bind fun settings => failure? (settingsBackend settings)

/-- There is a file already that must not be replaced. -/
def presentFault? (s : Surroundings) (i : Invocation) (force : Bool) (t : σ) : Option Failure :=
  (configPath s i).toOption.bind fun path =>
    if ((FileStore.isThere path : StateM σ Bool).run t).1 && !force then
      some (.config (.alreadyThere path))
    else none

/-- The file with explanations cannot be written. -/
def initFault? (s : Surroundings) (i : Invocation) (t : σ) : Option Failure :=
  (configPath s i).toOption.bind fun path =>
    failure? ((writeFile path Settings.template .notCreated).value
      ((FileStore.isThere path : StateM σ Bool).run t).2)

/-- The setting cannot be changed. -/
def settingFault? (s : Surroundings) (i : Invocation) (key value : String) (t : σ) :
    Option Failure :=
  ((stored s i).value t).toOption.bind fun settings =>
    (failure? (settings.change key value)).map fun e => .config (.setting e)

/-- The changed settings cannot be written. -/
def saveFault? (s : Surroundings) (i : Invocation) (key value : String) (t : σ) : Option Failure :=
  (configPath s i).toOption.bind fun path =>
    ((stored s i).value t).toOption.bind fun settings =>
      (settings.change key value).toOption.bind fun changed =>
        failure? ((writeFile path changed.text .notWritten).value ((stored s i).after t))

/-- What can go wrong with the settings of a command, in the order in which it is looked at. -/
def configFaults (s : Surroundings) (i : Invocation) (t : σ) : List (Option Failure) :=
  match i.command with
  | .render _ options => [fileFault? s i t, backendFault? s i t, fieldFault? options]
  | .configShow => [fileFault? s i t, backendFault? s i t]
  | .configInit force => [pathFault? s i, presentFault? s i force t, initFault? s i t]
  | .configSet key value =>
    [fileFault? s i t, settingFault? s i key value t, saveFault? s i key value t]
  | .configPath => [pathFault? s i]
  | _ => []

/-- The backend cannot express the filter. -/
def renderFault? (s : Surroundings) (i : Invocation) (t : σ) : Option Failure :=
  match i.command with
  | .render _ options => do
    let text ← filterText? s i.command
    let e ← (parseFilter text).toOption
    let settings ← ((stored s i).value t).toOption
    let (backend, config) ← (resolveOptions options settings).toOption
    (failure? (render backend config e)).map .render
  | _ => none

/-- Everything that can go wrong with a command, in the order in which it is looked at. -/
def faults (s : Surroundings) (i : Invocation) (t : σ) : List (Option Failure) :=
  [inputFault? s i.command, filterFault? s i.command] ++ configFaults s i t ++ [renderFault? s i t]

end

/-! ### Commands on filters -/

section

variable {s : Surroundings} {c : Command} {expression : String}

/-- The text of a filter can be had just if the input does not fail. -/
theorem isSome_filterText? (hc : c.expression? = some expression) :
    (filterText? s c).isSome = (inputFault? s c).isNone := by
  unfold inputFault? filterText? Command.readsInput
  rw [hc]
  by_cases hdash : expression = "-"
  · subst hdash
    cases s.input <;> rfl
  · simp [hdash]

/-- A command reads its filter before anything else. -/
theorem failure?_readFilter_bind (hc : c.expression? = some expression) {α : Type}
    (k : String → Except Failure α) :
    failure? (readFilter s expression >>= k) =
      (inputFault? s c).or ((filterText? s c).bind fun text => failure? (k text)) := by
  unfold readFilter inputFault? filterText? Command.readsInput
  rw [hc]
  by_cases hdash : expression = "-"
  · subst hdash
    cases s.input <;> rfl
  · simp [hdash]
    rfl

/-- A tree cannot be drawn just where the filter cannot be written. -/
theorem failure?_drawLines (colours : Bool) (lead margin : String) (e : Expr) :
    failure? (drawLines colours lead margin e) =
      e.leaves.findSome? fun l => failure? (render .text .standard l.expr) := by
  induction e generalizing lead margin with
  | comparison k op v =>
    rw [Expr.leaves, List.findSome?_singleton]
    exact failure?_map _ _
  | membership k negated vs =>
    rw [Expr.leaves, List.findSome?_singleton]
    exact failure?_map _ _
  | join c left right hl hr =>
    -- the word of a connective is always found
    have hlabel : ∃ own, label colours (.join c left right) = .ok own := by
      cases c <;> exact ⟨_, rfl⟩
    obtain ⟨own, hown⟩ := hlabel
    rw [Expr.leaves, List.findSome?_append, ← hl (margin ++ "├── ") (margin ++ "│   "),
      ← hr (margin ++ "└── ") (margin ++ "    "), ← failure?_bind₂, drawLines, hown]
    rfl
  | group inner ih =>
    rw [Expr.leaves, ← ih (margin ++ "└── ") (margin ++ "    "), drawLines]
    exact failure?_map _ _

/-- A tree can be drawn where the filter can be written. -/
theorem failure?_drawing (colours : Bool) (e : Expr) :
    failure? (drawing colours e) = failure? (render .text .standard e) := by
  rw [failure?_render, ← failure?_drawLines colours "" "" e]
  exact failure?_map _ _

/-- The tree of a filter that has been read has a canonical spelling. -/
theorem failure?_render_of_parseFilter {text : String} {e : Expr}
    (h : parseFilter text = .ok e) : failure? (render .text .standard e) = none := by
  have hparse : Expr.parse text = .ok e := by
    unfold parseFilter at h
    cases hparse : Expr.parse text with
    | error err => rw [hparse] at h; cases h
    | ok e' => rw [hparse] at h; cases h; rfl
  obtain ⟨written, -, hwritten, -⟩ := @render_of_parse .standard rfl _ _ hparse
  rw [render, failure?_mapError]
  show (failure? (FilterText.render .standard e)).map _ = none
  rw [hwritten]
  rfl

variable {σ : Type} (t : σ)

/-- What does not fail does not go wrong. -/
theorem failure?_shown {a : Action (Printing (StateM σ)) Unit} (h : a.NeverFails) {out : String}
    {t : σ} : failure? (a.shown out t) = none :=
  failure?_eq_none_iff.2 (h.exists_shown out t)

/-- Showing a tree goes wrong only over the input or the filter. -/
theorem failure?_showTree (s : Surroundings) (i : Invocation) (expression : String) :
    failure? ((showTree s i expression : Action (Printing (StateM σ)) Unit).shown "" t) =
      (inputFault? s (.parse expression)).or (filterFault? s (.parse expression)) := by
  rw [shown_showTree]
  refine (failure?_readFilter_bind rfl _).trans (congrArg _ (congrArg _ (funext fun text => ?_)))
  refine failure?_bind_of_ok fun e he => ?_
  split
  · rfl
  · split
    · rfl
    · rw [failure?_mapError, failure?_drawing, failure?_render_of_parseFilter he]
      rfl

/-- Checking a filter goes wrong only over the input or the filter. -/
theorem failure?_checkFilter (s : Surroundings) (i : Invocation) (expression : String) :
    failure? ((checkFilter s i expression : Action (Printing (StateM σ)) Unit).shown "" t) =
      (inputFault? s (.check expression)).or (filterFault? s (.check expression)) := by
  rw [shown_checkFilter]
  refine (failure?_readFilter_bind rfl _).trans (congrArg _ (congrArg _ (funext fun text => ?_)))
  refine failure?_bind_of_ok fun e he => ?_
  refine (failure?_bind_of_ok fun canonical _ => ?_).trans ?_
  · split <;> rfl
  · rw [failure?_mapError, failure?_render_of_parseFilter he]
    rfl

/-- Listing tokens goes wrong only over the input or the filter. -/
theorem failure?_showTokens (s : Surroundings) (i : Invocation) (expression : String) :
    failure? ((showTokens s i expression : Action (Printing (StateM σ)) Unit).shown "" t) =
      (inputFault? s (.tokens expression)).or (filterFault? s (.tokens expression)) := by
  rw [shown_showTokens]
  refine (failure?_readFilter_bind rfl _).trans (congrArg _ (congrArg _ (funext fun text => ?_)))
  refine failure?_bind_of_ok fun ts _ => ?_
  split <;> rfl

end

/-! ### Commands on settings -/

section

variable {σ α β : Type} (t : σ) (a : Action (StateM σ) α) (k : α → Action (StateM σ) β)

/-- Steps on files fail with the first failure, in the state where that happens. -/
theorem failure?_value_bind :
    failure? ((a >>= k).value t) = (failure? (a.value t)).or
      ((a.value t).toOption.bind fun x => failure? ((k x).value (a.after t))) := by
  rw [Action.value_bind, failure?_bind]

end

section

variable {σ : Type} [FileStore (StateM σ)] (s : Surroundings) (i : Invocation) (t : σ)

/-- Stored settings are those of the file at the path. -/
theorem value_stored :
    (stored s i : Action (StateM σ) Settings).value t =
      configPath s i >>= fun path => (loadSettings path).value t := by
  rw [stored, Action.value_bind]
  rfl

/-- Loading stored settings leaves what loading the file leaves. -/
theorem after_stored {path : String} (hpath : configPath s i = .ok path) :
    (stored s i : Action (StateM σ) Settings).after t = (loadSettings path).after t := by
  rw [stored, Action.after_bind, Action.value_ofExcept, hpath]
  rfl

/-- Options are resolved unless the stored backend or a mapping is in the way. -/
theorem failure?_resolveOptions (options : RenderOptions) (settings : Settings) :
    failure? (resolveOptions options settings) =
      (failure? (settingsBackend settings)).or (fieldFault? options) := by
  unfold resolveOptions fieldFault?
  rw [← failure?_mapM]
  cases settingsBackend settings with
  | error f => rfl
  | ok backend => exact failure?_map _ _

/-- What is done once there is a tree. -/
def renderTree (options : RenderOptions) (e : Expr) : Except Failure String := do
  let settings ← (stored s i).value t
  let (backend, config) ← resolveOptions options settings
  let output ← (render backend config e).mapError .render
  return rendered i backend output

/-- Rendering reads the filter, and then does what is left to do. -/
theorem shown_renderFilter_eq (expression : String) (options : RenderOptions) :
    (renderFilter s i expression options : Action (Printing (StateM σ)) Unit).shown "" t =
      readFilter s expression >>= fun text => parseFilter text >>= renderTree s i t options := by
  rw [shown_renderFilter, bind_assoc]
  refine congrArg _ (funext fun text => congrArg _ (funext fun e => ?_))
  unfold renderTree
  rw [value_stored, bind_assoc]

/-- What is left to do goes wrong over the file, the backend, the mappings or the rendering, in
this order. -/
theorem failure?_renderTree (options : RenderOptions) (e : Expr) :
    failure? (renderTree s i t options e) = (fileFault? s i t).or
      (((stored s i).value t).toOption.bind fun settings =>
        ((failure? (settingsBackend settings)).or (fieldFault? options)).or
          ((resolveOptions options settings).toOption.bind fun resolved =>
            (failure? (render resolved.1 resolved.2 e)).map .render)) := by
  unfold renderTree fileFault?
  rw [failure?_bind]
  refine congrArg _ (congrArg _ (funext fun settings => ?_))
  rw [failure?_bind, failure?_resolveOptions]
  refine congrArg _ (congrArg _ (funext fun resolved => ?_))
  rw [← failure?_mapError]
  exact failure?_map _ _

/-- Rendering goes wrong over the input, the filter, the file, the stored backend, the mapped fields
or the backend, whichever comes first. -/
theorem failure?_renderFilter {expression : String} {options : RenderOptions}
    (hcommand : i.command = .render expression options) :
    failure?
        ((renderFilter s i expression options : Action (Printing (StateM σ)) Unit).shown "" t) =
      (faults s i t).findSome? id := by
  rw [shown_renderFilter_eq, @failure?_readFilter_bind s i.command _ (by rw [hcommand]; rfl)]
  unfold faults configFaults filterFault? renderFault? backendFault?
  simp only [hcommand]
  have htext := @isSome_filterText? s (.render expression options) expression rfl
  -- each failure is the first one only if those before it are not there
  cases hinput : inputFault? s (.render expression options) with
  | some f => rfl
  | none =>
    rw [hinput] at htext
    obtain ⟨text, htext⟩ := Option.isSome_iff_exists.1 htext
    simp only [htext, Option.none_or, Option.bind_some]
    cases hparse : parseFilter text with
    | error f => rfl
    | ok e =>
      show failure? (renderTree s i t options e) = _
      rw [failure?_renderTree]
      cases hfile : (stored s i).value t with
      | error f => simp [fileFault?, hfile, failure?]
      | ok settings =>
        simp only [Except.toOption, Option.bind_eq_bind, Option.bind_some, hparse, List.cons_append,
          List.nil_append, findSome?_id_cons, List.findSome?_nil, Option.or_none, Option.none_or,
          Option.or_assoc]
        rfl

/-- Showing the settings goes wrong over the file or the stored backend. -/
theorem failure?_showConfig :
    failure? ((showConfig s i : Action (Printing (StateM σ)) Unit).shown "" t) =
      (fileFault? s i t).or (backendFault? s i t) := by
  unfold showConfig fileFault? backendFault?
  rw [Action.shown_ofExcept_bind, value_stored]
  cases configPath s i with
  | error f => rfl
  | ok path =>
    show failure? (Action.shown (silently _ >>= _) "" t) = _
    rw [Action.shown_silently_bind, failure?_bind]
    -- whatever the settings are, only their backend can be in the way
    refine congrArg _ (congrArg _ (funext fun settings => ?_))
    rw [Action.shown_ofExcept_bind]
    exact failure?_bind_of_ok fun backend _ => failure?_shown (neverFails_showSettings s i _ _ _)

/-- Making a file goes wrong over one that is there already, or over writing. -/
theorem failure?_createConfig (path : String) (force : Bool) :
    failure? ((createConfig path force : Action (StateM σ) Unit).value t) =
      Option.or
        (if ((FileStore.isThere path : StateM σ Bool).run t).1 && !force then
          some (.config (.alreadyThere path))
        else none)
        (failure? ((writeFile path Settings.template .notCreated : Action (StateM σ) Unit).value
          ((FileStore.isThere path : StateM σ Bool).run t).2)) := by
  unfold createConfig
  rw [failure?_value_bind, Action.value_isThere, Action.after_isThere]
  show none.or (failure? _) = _
  rw [Option.none_or]
  -- a file in the way is reported, unless it may be replaced
  by_cases hpresent : (((FileStore.isThere path : StateM σ Bool).run t).1 && !force) = true
  · simp only [if_pos hpresent]
    rfl
  · simp only [if_neg hpresent, Option.none_or]

/-- Making a file with settings goes wrong over its path, over one that is there, or over writing. -/
theorem failure?_initConfig (force : Bool) :
    failure? ((initConfig s i force : Action (Printing (StateM σ)) Unit).shown "" t) =
      (pathFault? s i).or ((presentFault? s i force t).or (initFault? s i t)) := by
  unfold initConfig pathFault? presentFault? initFault?
  rw [Action.shown_ofExcept_bind]
  cases configPath s i with
  | error f => rfl
  | ok path =>
    show failure? (Action.shown (silently _ >>= _) "" t) = none.or (Option.or (ite _ _ _) _)
    rw [Action.shown_silently_bind, Option.none_or]
    -- once the file is made, what is said about it does not fail
    refine Eq.trans (failure?_bind_of_ok fun _ _ => failure?_shown ?_)
      (failure?_createConfig t path force)
    exact neverFails_said i _ _

/-- Changing a setting goes wrong over the file, the setting, or writing. -/
theorem failure?_setConfig (key value : String) :
    failure? ((setConfig s i key value : Action (Printing (StateM σ)) Unit).shown "" t) =
      (fileFault? s i t).or ((settingFault? s i key value t).or (saveFault? s i key value t)) := by
  unfold setConfig fileFault? settingFault? saveFault?
  rw [Action.shown_ofExcept_bind]
  cases hpath : configPath s i with
  | error f =>
    rw [value_stored, hpath]
    rfl
  | ok path =>
    have hstored : (stored s i).value t = (loadSettings path).value t := by
      rw [value_stored, hpath]
      rfl
    -- what is changed is what has been loaded from the same path
    rw [hstored, after_stored s i t hpath]
    show failure? (Action.shown (silently _ >>= _) "" t) = _
    rw [Action.shown_silently_bind]
    refine Eq.trans (failure?_bind_of_ok fun _ _ => failure?_shown ?_) ?_
    · exact neverFails_said i _ _
    -- loading comes first, and changing and writing start where it has ended
    refine (failure?_value_bind t _ _).trans ?_
    cases (loadSettings path : Action (StateM σ) Settings).value t with
    | error f => rfl
    | ok settings =>
      show none.or (failure? (Action.value _ _)) = none.or (Option.or _ _)
      rw [Option.none_or, Option.none_or]
      dsimp only [Except.toOption, Option.bind_some]
      cases settings.change key value with
      | error e => rfl
      | ok changed => rfl

/-- Showing the path of the file with settings goes wrong only if it has none. -/
theorem failure?_showConfigPath :
    failure? ((showConfigPath s i : Action (Printing (StateM σ)) Unit).shown "" t) =
      pathFault? s i := by
  unfold showConfigPath
  rw [Action.shown_ofExcept_bind]
  refine failure?_bind_of_ok fun path _ => failure?_shown (neverFails_ite i ?_ ?_)
  · exact (neverFails_isThere path).bind fun _ => Action.neverFails_print _
  · exact Action.neverFails_print _

/-- Commands without a filter fail over their settings only. -/
theorem findSome?_faults_of_config (hcommand : i.command.expression? = none) :
    (faults s i t).findSome? id = (configFaults s i t).findSome? id := by
  have hinput : inputFault? s i.command = none := by
    simp [inputFault?, Command.readsInput, hcommand]
  have hfilter : filterFault? s i.command = none := by
    simp [filterFault?, filterText?, hcommand]
  have hrender : renderFault? s i t = none := by
    unfold renderFault?
    split
    · next hrender => rw [hrender] at hcommand; cases hcommand
    · rfl
  simp [faults, hinput, hfilter, hrender]

/-- A command fails for the first reason there is, and succeeds if there is none. -/
theorem failure?_execute :
    failure? ((execute s i : Action (Printing (StateM σ)) Unit).shown "" t) =
      (faults s i t).findSome? id := by
  unfold execute
  -- each command has the faults of its own, in the order in which it looks at them
  cases hcommand : i.command with
  | render expression options => exact failure?_renderFilter s i t hcommand
  | parse expression =>
    refine (failure?_showTree t s i expression).trans ?_
    simp [faults, configFaults, renderFault?, hcommand, findSome?_id_cons]
  | check expression =>
    refine (failure?_checkFilter t s i expression).trans ?_
    simp [faults, configFaults, renderFault?, hcommand, findSome?_id_cons]
  | tokens expression =>
    refine (failure?_showTokens t s i expression).trans ?_
    simp [faults, configFaults, renderFault?, hcommand, findSome?_id_cons]
  -- the commands from here on have no filter, so only the faults of settings are left
  | configShow =>
    rw [findSome?_faults_of_config s i t (by rw [hcommand]; rfl)]
    refine (failure?_showConfig s i t).trans ?_
    simp [configFaults, hcommand, findSome?_id_cons]
  | configInit force =>
    rw [findSome?_faults_of_config s i t (by rw [hcommand]; rfl)]
    refine (failure?_initConfig s i t force).trans ?_
    simp [configFaults, hcommand, findSome?_id_cons]
  | configSet key value =>
    rw [findSome?_faults_of_config s i t (by rw [hcommand]; rfl)]
    refine (failure?_setConfig s i t key value).trans ?_
    simp [configFaults, hcommand, findSome?_id_cons]
  | configPath =>
    rw [findSome?_faults_of_config s i t (by rw [hcommand]; rfl)]
    refine (failure?_showConfigPath s i t).trans ?_
    simp [configFaults, hcommand]
  | completions shell =>
    rw [findSome?_faults_of_config s i t (by rw [hcommand]; rfl)]
    simp [configFaults, hcommand]
    rfl
  | overview =>
    rw [findSome?_faults_of_config s i t (by rw [hcommand]; rfl)]
    rw [failure?_shown (neverFails_unless i (Action.neverFails_print _))]
    simp [configFaults, hcommand]

end

end Cli

end MetadataFilter
