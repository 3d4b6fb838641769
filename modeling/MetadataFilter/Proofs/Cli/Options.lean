import MetadataFilter.Proofs.Cli.Printing
import MetadataFilter.Proofs.Grammar.FailFast
import MetadataFilter.Proofs.Settings.Text

/-!
# Options win over stored settings

`Settings.AgreeOutside` relates two files with settings that differ only where the options of
rendering say something of their own. Rendering cannot tell them apart, with one exception: a stored
backend is looked up even if an option names another one, so that a name which no backend has is
reported.

## Key results

- `get?_foldl_insert_congr`: names that options map do not depend on the stored map
- `resolveOptions_congr`: the same settings of rendering come out
- `run_render_congr`: the same run comes out, exactly unless a stored backend is unknown
-/

namespace MetadataFilter

/-- A map that entries are put into depends on the map before only at names without an entry. -/
theorem FieldMap.get?_foldl_insert_congr {entries : List (String × String)} {m m' : FieldMap}
    {name : String} (h : name ∈ entries.map (·.1) ∨ m.get? name = m'.get? name) :
    (entries.foldl (fun m e => m.insert e.1 e.2) m).get? name =
      (entries.foldl (fun m e => m.insert e.1 e.2) m').get? name := by
  rw [get?_foldl_insert, get?_foldl_insert]
  rcases h with hmem | hstored
  · have hlookup : (entries.reverse.lookup name).isSome := by
      rw [List.lookup_isSome_iff]
      obtain ⟨e, he, rfl⟩ := List.mem_map.1 hmem
      exact ⟨e, by simpa using he, by simp⟩
    obtain ⟨field, hfield⟩ := Option.isSome_iff_exists.1 hlookup
    rw [hfield, Option.some_or, Option.some_or]
  · rw [hstored]

namespace Cli

/-- Whether the options map a name to a field. -/
def RenderOptions.Maps (options : RenderOptions) (name : String) : Prop :=
  ∃ mapping ∈ options.fields, ∃ field, fieldMapping mapping = .ok (name, field)

/-- Settings that agree in everything that the options say nothing about. -/
structure AgreeOutside (options : RenderOptions) (settings settings' : Settings) : Prop where
  backend : options.backend = none → settings.backend = settings'.backend
  metadataColumn : options.metadataColumn = none →
    settings.metadataColumn = settings'.metadataColumn
  nodeAlias : options.nodeAlias = none → settings.nodeAlias = settings'.nodeAlias
  fieldMap : ∀ name, ¬ options.Maps name →
    settings.fieldMap.get? name = settings'.fieldMap.get? name

/-- Settings whose backends are unknown for the same reason, or neither of them. -/
def FailAlike (settings settings' : Settings) : Prop :=
  ∀ e, settings.backend? = .error e ↔ settings'.backend? = .error e

section

variable {options : RenderOptions} {settings settings' : Settings}

/-- Every well-formed mapping of the options is among the mappings that have been read. -/
theorem RenderOptions.Maps.mem {mappings : List (String × String)} {name : String}
    (h : options.Maps name) (hread : options.fields.mapM fieldMapping = .ok mappings) :
    name ∈ mappings.map (·.1) := by
  obtain ⟨mapping, hmem, field, hmapping⟩ := h
  -- along the mappings as they are read, each of which may be the one
  generalize options.fields = fields at hmem hread
  induction fields generalizing mappings with
  | nil => cases hmem
  | cons first others ih =>
    rw [List.mapM_cons] at hread
    cases hfirst : fieldMapping first with
    | error f => rw [hfirst] at hread; cases hread
    | ok entry =>
      cases hothers : others.mapM fieldMapping with
      | error f => rw [hfirst, hothers] at hread; cases hread
      | ok entries =>
        rw [hfirst, hothers] at hread
        cases hread
        rcases List.mem_cons.1 hmem with rfl | hmem
        · rw [hmapping] at hfirst
          cases hfirst
          exact List.mem_cons_self
        · exact List.mem_cons_of_mem _ (ih hmem hothers)

/-- Where the options say nothing the settings agree, and elsewhere they do not count. -/
theorem AgreeOutside.renderConfig_eq (h : AgreeOutside options settings settings')
    {mappings : List (String × String)}
    (hread : options.fields.mapM fieldMapping = .ok mappings) :
    (⟨mappings.foldl (fun map e => map.insert e.1 e.2) settings.renderConfig.fieldMap,
      options.metadataColumn.getD settings.renderConfig.metadataColumn,
      options.nodeAlias.getD settings.renderConfig.nodeAlias⟩ : RenderConfig) =
    ⟨mappings.foldl (fun map e => map.insert e.1 e.2) settings'.renderConfig.fieldMap,
      options.metadataColumn.getD settings'.renderConfig.metadataColumn,
      options.nodeAlias.getD settings'.renderConfig.nodeAlias⟩ := by
  have hcolumn : options.metadataColumn.getD settings.renderConfig.metadataColumn =
      options.metadataColumn.getD settings'.renderConfig.metadataColumn := by
    cases hcolumn : options.metadataColumn with
    | some column => rfl
    | none => simp only [Settings.renderConfig, h.metadataColumn hcolumn]
  have hnode : options.nodeAlias.getD settings.renderConfig.nodeAlias =
      options.nodeAlias.getD settings'.renderConfig.nodeAlias := by
    cases hnode : options.nodeAlias with
    | some node => rfl
    | none => simp only [Settings.renderConfig, h.nodeAlias hnode]
  have hfields : mappings.foldl (fun map e => map.insert e.1 e.2) settings.fieldMap =
      mappings.foldl (fun map e => map.insert e.1 e.2) settings'.fieldMap := by
    -- a name that an option maps has that field, whatever the map was before
    refine FieldMap.ext_get? fun name => FieldMap.get?_foldl_insert_congr ?_
    by_cases hmaps : options.Maps name
    · exact .inl (hmaps.mem hread)
    · exact .inr (h.fieldMap name hmaps)
  rw [hcolumn, hnode]
  exact congrArg (fun fields => (⟨fields, _, _⟩ : RenderConfig)) hfields

/-- The same backend and settings come out, and the same failure. -/
theorem resolveOptions_congr (h : AgreeOutside options settings settings')
    (halike : FailAlike settings settings') :
    resolveOptions options settings = resolveOptions options settings' := by
  unfold resolveOptions settingsBackend
  -- the stored backend is looked at first, and may be unknown
  cases hbackend : settings.backend? with
  | error e =>
    rw [(halike e).1 hbackend]
    rfl
  | ok stored =>
    cases hbackend' : settings'.backend? with
    | error e => rw [(halike e).2 hbackend'] at hbackend; cases hbackend
    | ok stored' =>
      have hchosen : (options.backend <|> stored) = (options.backend <|> stored') := by
        cases hoption : options.backend with
        -- an option names the backend, so the stored ones do not count
        | some backend => rfl
        | none =>
          have hsame : settings.backend? = settings'.backend? := by
            simp only [Settings.backend?, h.backend hoption]
          rw [hbackend, hbackend'] at hsame
          cases hsame
          rfl
      cases hread : options.fields.mapM fieldMapping with
      | error f => rfl
      | ok mappings =>
        show Except.ok (_, _) = Except.ok (_, _)
        rw [hchosen, h.renderConfig_eq hread]

end

variable {σ : Type} [FileStore (StateM σ)]

/-- Rendering with settings that have been loaded. -/
theorem shown_renderFilter_of_loaded {s : Surroundings} {i : Invocation} {path : String} {t : σ}
    {settings : Settings} (hpath : configPath s i = .ok path)
    (hload : (loadSettings path : Action (StateM σ) Settings).value t = .ok settings)
    (expression : String) (options : RenderOptions) :
    (renderFilter s i expression options : Action (Printing (StateM σ)) Unit).shown "" t = (do
      let e ← readFilter s expression >>= parseFilter
      let (backend, config) ← resolveOptions options settings
      let output ← (render backend config e).mapError .render
      return rendered i backend output) := by
  rw [shown_renderFilter]
  refine congrArg _ (funext fun e => ?_)
  rw [hpath]
  show (loadSettings path).value t >>= _ = _
  rw [hload]
  rfl

/-- Two files with settings that differ only where the options say something give the same run if
their backends are unknown for the same reason or both known, or if the filter is refused. The
name of a stored backend that is unknown is reported, whatever the options say. -/
theorem run_render_congr {s : Surroundings} {i : Invocation} {expression path : String}
    {options : RenderOptions} {t t' : σ} {settings settings' : Settings}
    (hcommand : i.command = .render expression options) (hpath : configPath s i = .ok path)
    (hload : (loadSettings path : Action (StateM σ) Settings).value t = .ok settings)
    (hload' : (loadSettings path : Action (StateM σ) Settings).value t' = .ok settings')
    (hagree : AgreeOutside options settings settings') :
    (FailAlike settings settings' ∨
        (∃ f, (readFilter s expression >>= parseFilter) = .error f) →
      ((run s i : StateM σ Outcome).run t).1 = ((run s i : StateM σ Outcome).run t').1) ∧
    ∀ tree e, (readFilter s expression >>= parseFilter) = .ok tree →
      settings.backend? = .error e →
        ((run s i : StateM σ Outcome).run t).1 =
          .ofResult s i "" (.error (.config (.unknownBackend e))) := by
  simp only [outcome_eq, execute, hcommand, shown_renderFilter_of_loaded hpath hload,
    shown_renderFilter_of_loaded hpath hload']
  constructor
  -- without a tree neither run gets to its settings
  · rintro (halike | ⟨f, hf⟩)
    · rw [resolveOptions_congr hagree halike]
    · rw [hf]
      rfl
  · intro tree e htree hbackend
    have hresolve : resolveOptions options settings = .error (.config (.unknownBackend e)) := by
      simp only [resolveOptions, settingsBackend, hbackend]
      rfl
    rw [htree, hresolve]
    rfl

/-- A stored column and a stored backend that options replace. -/
theorem run_render_congr_column :
    ((run .plain (Command.render "a == 1" ⟨some .sql, [], some "m", none⟩).withFile :
        StateM FileTree Outcome).run
      (directoryWith "backend = \"neo4j\"\n[render]\nmetadata_column = \"old\"\n")).1 =
    ((run .plain (Command.render "a == 1" ⟨some .sql, [], some "m", none⟩).withFile :
        StateM FileTree Outcome).run (directoryWith "")).1 := by
  have hload : (loadSettings "c.toml" : Action (StateM FileTree) Settings).value
      (directoryWith "backend = \"neo4j\"\n[render]\nmetadata_column = \"old\"\n") =
        .ok ⟨some "neo4j", some "old", none, .empty⟩ := by decide +kernel
  have hload' : (loadSettings "c.toml" : Action (StateM FileTree) Settings).value
      (directoryWith "") = .ok .standard := by decide +kernel
  -- the files differ in the backend and the column only, both of which the options name
  have hagree : AgreeOutside ⟨some .sql, [], some "m", none⟩
      ⟨some "neo4j", some "old", none, .empty⟩ .standard :=
    ⟨nofun, nofun, fun _ => rfl, fun _ _ => rfl⟩
  have hbackend : (⟨some "neo4j", some "old", none, .empty⟩ : Settings).backend? =
      .ok (some .neo4j) := by decide +kernel
  have halike : FailAlike ⟨some "neo4j", some "old", none, .empty⟩ .standard := by
    intro e
    rw [hbackend]
    exact ⟨nofun, nofun⟩
  exact (run_render_congr rfl rfl hload hload' hagree).1 (.inl halike)

/-- A stored backend that is unknown is reported although an option names the backend. -/
theorem stored_backend_reported :
    (loadSettings "c.toml" : Action (StateM FileTree) Settings).value
        (directoryWith "backend = \"oracle\"\n") = .ok ⟨some "oracle", none, none, .empty⟩ ∧
    (loadSettings "c.toml" : Action (StateM FileTree) Settings).value
        (directoryWith "backend = \"sql\"\n") = .ok ⟨some "sql", none, none, .empty⟩ ∧
    AgreeOutside ⟨some .sql, [], none, none⟩ ⟨some "oracle", none, none, .empty⟩
      ⟨some "sql", none, none, .empty⟩ ∧
    ((run .plain (Command.render "a == 1" ⟨some .sql, [], none, none⟩).withFile :
        StateM FileTree Outcome).run (directoryWith "backend = \"oracle\"\n")).1 =
      ⟨5, "", "Error: configuration error: unknown backend 'oracle'\n"⟩ ∧
    ((run .plain (Command.render "a == 1" ⟨some .sql, [], none, none⟩).withFile :
        StateM FileTree Outcome).run (directoryWith "backend = \"sql\"\n")).1 =
      ⟨0, "(metadata->>'a')::numeric = 1\n", ""⟩ := by
  refine ⟨by decide +kernel, by decide +kernel, ?_, by decide +kernel, by decide +kernel⟩
  exact ⟨nofun, fun _ => rfl, fun _ => rfl, fun _ _ => rfl⟩

end Cli

end MetadataFilter
