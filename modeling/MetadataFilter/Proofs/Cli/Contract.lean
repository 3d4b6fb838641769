import MetadataFilter.Proofs.Cli.Faults
import MetadataFilter.Proofs.Json.Grammar

/-!
# How a run ends

A run ends in one of two ways: it succeeds and writes to the first stream only, or it fails with the
exit code of the first reason there is and writes to the second stream only. If documents are asked
for, the stream that is written to holds exactly one.

## Key results

- `isConfig_of_mem_configFaults`: what goes wrong over settings is reported as such
- `showsDocument_execute`: commands show documents if they are asked for
- `holds_documentText`: a document that is shown is a text of the JSON grammar
- `contract_run`: how a run ends
-/

namespace MetadataFilter.Cli

/-! ### Kinds of failures -/

section

variable {s : Surroundings} {c : Command} {f : Failure}

/-- What goes wrong over the input is a failure of reading. -/
theorem exists_of_inputFault? (h : inputFault? s c = some f) : ∃ e, f = .input e := by
  unfold inputFault? at h
  split at h
  · obtain ⟨e, -, rfl⟩ := Option.map_eq_some_iff.1 h
    exact ⟨e, rfl⟩
  · cases h

/-- What goes wrong over the filter is a diagnostic. -/
theorem exists_of_filterFault? (h : filterFault? s c = some f) : ∃ d, f = .filter d := by
  obtain ⟨text, -, h⟩ := Option.bind_eq_some_iff.1 h
  split at h
  -- listing tokens stops at the first fault, and all other commands read a tree
  · unfold readTokens at h
    dsimp only at h
    split at h
    · cases h
    · cases h
      exact ⟨_, rfl⟩
  · rw [parseFilter, failure?_mapError] at h
    obtain ⟨e, -, rfl⟩ := Option.map_eq_some_iff.1 h
    exact ⟨_, rfl⟩

/-- A filter is not looked at if the input fails. -/
theorem inputFault?_of_filterFault? (h : filterFault? s c = some f) : inputFault? s c = none := by
  obtain ⟨text, htext, -⟩ := Option.bind_eq_some_iff.1 h
  obtain ⟨expression, hc, -⟩ := Option.bind_eq_some_iff.1 htext
  have hsome := @isSome_filterText? s c expression hc
  rw [htext] at hsome
  exact Option.isNone_iff_eq_none.1 hsome.symm

/-- An unknown backend is a failure over settings. -/
theorem isConfig_of_settingsBackend {settings : Settings}
    (h : failure? (settingsBackend settings) = some f) : f.IsConfig := by
  rw [settingsBackend, failure?_mapError] at h
  obtain ⟨e, -, rfl⟩ := Option.map_eq_some_iff.1 h
  exact Failure.isConfig _

/-- A malformed mapping is a failure over settings. -/
theorem isConfig_of_fieldFault? {options : RenderOptions} (h : fieldFault? options = some f) :
    f.IsConfig := by
  obtain ⟨mapping, -, h⟩ := List.exists_of_findSome?_eq_some h
  rw [failure?_eq_some_iff] at h
  unfold fieldMapping at h
  dsimp only at h
  split at h
  · split at h <;> cases h
    exact Failure.isConfig _
  · cases h
    exact Failure.isConfig _

/-- A missing path is a failure over settings. -/
theorem isConfig_of_configPath {i : Invocation} (h : configPath s i = .error f) : f.IsConfig := by
  unfold configPath at h
  dsimp only at h
  split at h <;> cases h
  exact Failure.isConfig _

end

section

variable {σ : Type} [FileStore (StateM σ)]

/-- A step that makes directories never breaks off. -/
theorem failsOnly_makeAll (kind : Failure → Prop) (fuel : Nat) (path : String) :
    (FileStore.makeAll fuel path : Action (StateM σ) _).FailsOnly kind := by
  -- a directory that has or has not been made is looked for, which gives an answer either way
  have hsettle : ∀ (path : String) (r : Except FileError Unit),
      (FileStore.settle path r : Action (StateM σ) _).FailsOnly kind := by
    intro path r
    cases r with
    | ok _ => exact Action.failsOnly_pure _ _
    | error e => exact (Action.failsOnly_lift _ _).bind fun _ => Action.failsOnly_pure _ _
  induction fuel generalizing path with
  | zero => exact Action.failsOnly_pure _ _
  | succ fuel ih =>
    unfold FileStore.makeAll
    split
    · exact Action.failsOnly_pure _ _
    refine (Action.failsOnly_lift _ _).bind fun outcome => ?_
    split
    · split
      · exact Action.failsOnly_pure _ _
      · refine (ih _).bind fun made => ?_
        split
        · exact Action.failsOnly_pure _ _
        · exact (Action.failsOnly_lift _ _).bind fun _ => hsettle _ _
    · exact hsettle _ _

/-- A file is written unless the file system refuses, which is a failure over settings. -/
theorem failsOnly_writeFile (path text : String) (failure : FileError → ConfigError) :
    (writeFile path text failure : Action (StateM σ) Unit).FailsOnly Failure.IsConfig := by
  have hparent : (makeParent path : Action (StateM σ) Unit).FailsOnly Failure.IsConfig := by
    unfold makeParent
    split
    · exact Action.failsOnly_pure _ _
    · refine (failsOnly_makeAll _ _ _).bind fun made => ?_
      split
      · exact Action.failsOnly_pure _ _
      · exact Action.failsOnly_throw (Failure.isConfig _)
  refine hparent.bind fun _ => (Action.failsOnly_lift _ _).bind fun written => ?_
  split
  · exact Action.failsOnly_pure _ _
  · exact Action.failsOnly_throw (Failure.isConfig _)

variable {s : Surroundings} {i : Invocation} {t : σ} {f : Failure}

/-- What goes wrong over stored settings is a failure over settings. -/
theorem failsOnly_stored (s : Surroundings) (i : Invocation) :
    (stored s i : Action (StateM σ) Settings).FailsOnly Failure.IsConfig :=
  (Action.failsOnly_ofExcept fun _ h => isConfig_of_configPath h).bind failsOnly_loadSettings

/-- A file that cannot be loaded is a failure over settings. -/
theorem isConfig_of_fileFault? (h : fileFault? s i t = some f) : f.IsConfig :=
  failsOnly_stored s i t f (failure?_eq_some_iff.1 h)

/-- A stored backend that is unknown is a failure over settings. -/
theorem isConfig_of_backendFault? (h : backendFault? s i t = some f) : f.IsConfig := by
  obtain ⟨settings, -, h⟩ := Option.bind_eq_some_iff.1 h
  exact isConfig_of_settingsBackend h

/-- A file that is there already is a failure over settings. -/
theorem isConfig_of_presentFault? {force : Bool} (h : presentFault? s i force t = some f) :
    f.IsConfig := by
  obtain ⟨path, -, h⟩ := Option.bind_eq_some_iff.1 h
  split at h <;> cases h
  exact Failure.isConfig _

/-- A file that cannot be made is a failure over settings. -/
theorem isConfig_of_initFault? (h : initFault? s i t = some f) : f.IsConfig := by
  obtain ⟨path, -, h⟩ := Option.bind_eq_some_iff.1 h
  exact failsOnly_writeFile _ _ _ _ f (failure?_eq_some_iff.1 h)

/-- A setting that cannot be changed is a failure over settings. -/
theorem isConfig_of_settingFault? {key value : String}
    (h : settingFault? s i key value t = some f) : f.IsConfig := by
  obtain ⟨settings, -, h⟩ := Option.bind_eq_some_iff.1 h
  obtain ⟨e, -, rfl⟩ := Option.map_eq_some_iff.1 h
  exact Failure.isConfig _

/-- Settings that cannot be saved are a failure over settings. -/
theorem isConfig_of_saveFault? {key value : String} (h : saveFault? s i key value t = some f) :
    f.IsConfig := by
  obtain ⟨path, -, h⟩ := Option.bind_eq_some_iff.1 h
  obtain ⟨settings, -, h⟩ := Option.bind_eq_some_iff.1 h
  obtain ⟨changed, -, h⟩ := Option.bind_eq_some_iff.1 h
  exact failsOnly_writeFile _ _ _ _ f (failure?_eq_some_iff.1 h)

/-- What goes wrong over settings is a failure over settings. -/
theorem isConfig_of_mem_configFaults (h : some f ∈ configFaults s i t) : f.IsConfig := by
  unfold configFaults at h
  -- the commands with settings, each with the reasons that are its own
  split at h <;> simp only [List.mem_cons, List.not_mem_nil, or_false] at h
  · rcases h with h | h | h
    · exact isConfig_of_fileFault? h.symm
    · exact isConfig_of_backendFault? h.symm
    · exact isConfig_of_fieldFault? h.symm
  · rcases h with h | h
    · exact isConfig_of_fileFault? h.symm
    · exact isConfig_of_backendFault? h.symm
  · rcases h with h | h | h
    · exact isConfig_of_configPath (failure?_eq_some_iff.1 h.symm)
    · exact isConfig_of_presentFault? h.symm
    · exact isConfig_of_initFault? h.symm
  · rcases h with h | h | h
    · exact isConfig_of_fileFault? h.symm
    · exact isConfig_of_settingFault? h.symm
    · exact isConfig_of_saveFault? h.symm
  · exact isConfig_of_configPath (failure?_eq_some_iff.1 h.symm)

/-- What a backend cannot express is a failure of rendering. -/
theorem exists_of_renderFault? (h : renderFault? s i t = some f) : ∃ e, f = .render e := by
  unfold renderFault? at h
  split at h
  · obtain ⟨text, -, h⟩ := Option.bind_eq_some_iff.1 h
    obtain ⟨e, -, h⟩ := Option.bind_eq_some_iff.1 h
    obtain ⟨settings, -, h⟩ := Option.bind_eq_some_iff.1 h
    obtain ⟨resolved, -, h⟩ := Option.bind_eq_some_iff.1 h
    obtain ⟨e, -, rfl⟩ := Option.map_eq_some_iff.1 h
    exact ⟨e, rfl⟩
  · cases h

end

/-! ### Documents -/

/-- A stream that holds the text of one document and a line break. -/
def Holds (stream : String) (j : Json) : Prop :=
  ∃ cs, j.Spells cs ∧ stream = String.ofList cs ++ "\n"

/-- A document that is shown is a text of the JSON grammar. -/
theorem holds_documentText (j : Json) : Holds (documentText j) j :=
  ⟨j.pretty.toList, j.spells_pretty, by rw [String.ofList_toList]; rfl⟩

/-- Whether a command shows documents if it is asked to. -/
def Command.ShowsDocuments : Command → Prop
  | .completions _ | .overview => False
  | _ => True

/-- Wherever it starts with nothing printed, the command shows one document if it does not fail. -/
def Action.ShowsDocument {σ : Type} (a : Action (Printing (StateM σ)) Unit) : Prop :=
  ∀ t text, a.shown "" t = .ok text → ∃ j, text = documentText j

section

variable {σ α : Type} {k : α → Action (Printing (StateM σ)) Unit}

/-- A document is printed. -/
theorem showsDocument_print (j : Json) :
    (print (documentText j) : Action (Printing (StateM σ)) Unit).ShowsDocument := by
  rintro t text htext
  cases htext
  exact ⟨j, String.empty_append⟩

/-- A document is shown in place of something for a reader, as it is asked for. -/
theorem Action.ShowsDocument.ite {i : Invocation} {a : Action (Printing (StateM σ)) Unit}
    (h : a.ShowsDocument) (hjson : i.json = true) (other : Action (Printing (StateM σ)) Unit) :
    Action.ShowsDocument (if i.json then a else other) := by
  rw [if_pos hjson]
  exact h

/-- Steps that need no files leave what is shown to the rest of the command. -/
theorem showsDocument_ofExcept_bind (r : Except Failure α) (h : ∀ x, (k x).ShowsDocument) :
    (Action.ofExcept r >>= k).ShowsDocument := by
  intro t text htext
  rw [Action.shown_ofExcept_bind] at htext
  cases r with
  | error f => cases htext
  | ok x => exact h x t text htext

/-- Steps on files leave what is shown to the rest of the command. -/
theorem showsDocument_silently_bind (step : Action (StateM σ) α) (h : ∀ x, (k x).ShowsDocument) :
    (silently step >>= k).ShowsDocument := by
  intro t text htext
  rw [Action.shown_silently_bind] at htext
  cases hstep : step.value t with
  | error f =>
    rw [hstep] at htext
    cases htext
  | ok x =>
    rw [hstep] at htext
    exact h x _ text htext

end

section

variable {σ : Type} [FileStore (StateM σ)]

/-- Commands show documents if they are asked for. -/
theorem showsDocument_execute {s : Surroundings} {i : Invocation} (hjson : i.json = true)
    (hcommand : i.command.ShowsDocuments) :
    (execute s i : Action (Printing (StateM σ)) Unit).ShowsDocument := by
  unfold execute
  cases hi : i.command with
  | parse expression =>
    exact showsDocument_ofExcept_bind _ fun text => showsDocument_ofExcept_bind _ fun e =>
      (showsDocument_print _).ite hjson _
  | check expression =>
    exact showsDocument_ofExcept_bind _ fun text => showsDocument_ofExcept_bind _ fun e =>
      showsDocument_ofExcept_bind _ fun canonical => (showsDocument_print _).ite hjson _
  | tokens expression =>
    exact showsDocument_ofExcept_bind _ fun text => showsDocument_ofExcept_bind _ fun ts =>
      (showsDocument_print _).ite hjson _
  | render expression options =>
    exact showsDocument_ofExcept_bind _ fun e => showsDocument_ofExcept_bind _ fun path =>
      showsDocument_silently_bind _ fun settings => showsDocument_ofExcept_bind _ fun resolved =>
      showsDocument_ofExcept_bind _ fun output => (showsDocument_print _).ite hjson _
  -- to show the settings in a document, the file is looked for once more
  | configShow =>
    refine showsDocument_ofExcept_bind _ fun path => showsDocument_silently_bind _ fun settings =>
      showsDocument_ofExcept_bind _ fun backend => ?_
    refine Action.ShowsDocument.ite ?_ hjson _
    exact showsDocument_silently_bind _ fun isThere => showsDocument_print _
  | configInit force =>
    exact showsDocument_ofExcept_bind _ fun path => showsDocument_silently_bind _ fun _ =>
      (showsDocument_print _).ite hjson _
  | configSet key value =>
    exact showsDocument_ofExcept_bind _ fun path => showsDocument_silently_bind _ fun _ =>
      (showsDocument_print _).ite hjson _
  | configPath =>
    refine showsDocument_ofExcept_bind _ fun path => ?_
    refine Action.ShowsDocument.ite ?_ hjson _
    exact showsDocument_silently_bind _ fun isThere => showsDocument_print _
  -- a script for a shell is no document, nor is the overview
  | completions shell =>
    rw [hi] at hcommand
    cases hcommand
  | overview =>
    rw [hi] at hcommand
    cases hcommand

end

/-! ### Exit codes -/

/-- The exit code is that of the failure, or zero without one. -/
theorem exitCode_ofShown (s : Surroundings) (i : Invocation) (r : Except Failure String) :
    (Outcome.ofShown s i r).exitCode = (failure? r).elim 0 Failure.exitCode := by
  cases r <;> rfl

section

variable {σ : Type} [FileStore (StateM σ)]

/-- The first of the faults, kind by kind. -/
theorem findSome?_faults (s : Surroundings) (i : Invocation) (t : σ) :
    (faults s i t).findSome? id = (inputFault? s i.command).or ((filterFault? s i.command).or
      (((configFaults s i t).findSome? id).or (renderFault? s i t))) := by
  simp [faults, findSome?_id_cons, List.findSome?_append]

/-- The exit code says what kind of reason came first. -/
structure Codes (s : Surroundings) (i : Invocation) (t : σ) (code : Nat) : Prop where
  input : code = 3 ↔ (inputFault? s i.command).isSome
  filter : code = 1 ↔ (filterFault? s i.command).isSome
  config : code = 5 ↔ inputFault? s i.command = none ∧ filterFault? s i.command = none ∧
    ∃ fault ∈ configFaults s i t, fault.isSome
  render : code = 4 ↔ inputFault? s i.command = none ∧ filterFault? s i.command = none ∧
    (∀ fault ∈ configFaults s i t, fault = none) ∧ (renderFault? s i t).isSome
  success : code = 0 ↔ ∀ fault ∈ faults s i t, fault = none

/-- The exit code of the first of four reasons, one of each kind. -/
theorem exitCode_of_kinds {input filter config render : Option Failure}
    (hinput : ∀ f, input = some f → ∃ e, f = .input e)
    (hfilter : ∀ f, filter = some f → ∃ d, f = .filter d)
    (hexclusive : ∀ f, filter = some f → input = none)
    (hconfig : ∀ f, config = some f → f.IsConfig)
    (hrender : ∀ f, render = some f → ∃ e, f = .render e) {code : Nat}
    (hcode : code = (input.or (filter.or (config.or render))).elim 0 Failure.exitCode) :
    (code = 3 ↔ input.isSome) ∧ (code = 1 ↔ filter.isSome) ∧
      (code = 5 ↔ input = none ∧ filter = none ∧ config.isSome) ∧
      (code = 4 ↔ input = none ∧ filter = none ∧ config = none ∧ render.isSome) ∧
      (code = 0 ↔ input.or (filter.or (config.or render)) = none) := by
  subst hcode
  -- the first reason there is gives the code, and the reasons behind it do not count
  cases input with
  | some f =>
    obtain ⟨e, rfl⟩ := hinput f rfl
    -- a filter that is rejected has been read, which rules out a fault of the input
    have hnone : filter = none := by
      cases filter with
      | none => rfl
      | some f => exact nomatch hexclusive f rfl
    subst hnone
    simp [Failure.exitCode]
  | none =>
    cases filter with
    | some f =>
      obtain ⟨d, rfl⟩ := hfilter f rfl
      simp [Failure.exitCode]
    | none =>
      cases config with
      | some f =>
        obtain ⟨e, rfl⟩ := hconfig f rfl
        simp [Failure.exitCode]
      | none =>
        cases render with
        | some f =>
          obtain ⟨e, rfl⟩ := hrender f rfl
          simp [Failure.exitCode]
        | none => simp

/-- The exit code of a command says what kind of reason came first. -/
theorem codes_execute (s : Surroundings) (i : Invocation) (t : σ) :
    Codes s i t (Outcome.ofShown s i
      ((execute s i : Action (Printing (StateM σ)) Unit).shown "" t)).exitCode := by
  -- all faults between the filter and the rendering are about settings
  have hconfig : ∀ f, (configFaults s i t).findSome? id = some f → f.IsConfig := by
    intro f hf
    obtain ⟨fault, hmem, rfl⟩ := List.exists_of_findSome?_eq_some hf
    exact isConfig_of_mem_configFaults hmem
  have hcode : (Outcome.ofShown s i
      ((execute s i : Action (Printing (StateM σ)) Unit).shown "" t)).exitCode = _ :=
    exitCode_ofShown ..
  rw [failure?_execute, findSome?_faults] at hcode
  obtain ⟨h3, h1, h5, h4, h0⟩ := exitCode_of_kinds (fun f => exists_of_inputFault?)
    (fun f => exists_of_filterFault?) (fun f => inputFault?_of_filterFault?) hconfig
    (fun f => exists_of_renderFault?) hcode
  refine ⟨h3, h1, ?_, ?_, ?_⟩
  · rw [h5, List.findSome?_isSome_iff]
    rfl
  · rw [h4, List.findSome?_eq_none_iff]
    rfl
  · rw [h0, ← findSome?_faults, List.findSome?_eq_none_iff]
    rfl

end

/-! ### Outcomes -/

/-- How a run ends: with a code and a stream, for the first reason there is, and with documents if
they are asked for. -/
structure Contract {σ : Type} [FileStore (StateM σ)] (s : Surroundings) (i : Invocation) (t : σ)
    (o : Outcome) : Prop where
  streams : (o.exitCode = 0 ∧ o.stderr = "") ∨
    (o.exitCode ∈ [1, 3, 4, 5] ∧ o.stdout = "" ∧ o.stderr ≠ "")
  codes : Codes s i t o.exitCode
  first : ∀ f, (faults s i t).findSome? id = some f → o = .ofResult s i "" (.error f)
  documents : i.json = true → i.command.ShowsDocuments →
    ∀ stream ∈ [o.stdout, o.stderr], stream ≠ "" → ∃ j, Holds stream j
  diagnostic : i.json = true → o.exitCode = 1 → ∃ d members,
    filterFault? s i.command = some (.filter d) ∧
      Holds o.stderr (.object [("error", .object members)]) ∧
        ("diagnostic", d.document.sorted) ∈ members

section

variable {σ : Type} [FileStore (StateM σ)]

/-- A text with a line break behind it is not empty. -/
theorem append_lineBreak_ne_empty (text : String) : text ++ "\n" ≠ "" := by
  intro h
  have htext := congrArg String.toList h
  simp at htext

/-- The members of a failure in the order of their names. -/
theorem sorted_members (code message diagnostic : Json) :
    (Json.object [("code", code), ("message", message), ("diagnostic", diagnostic)]).sorted =
      .object [("code", code.sorted), ("diagnostic", diagnostic.sorted),
        ("message", message.sorted)] := by
  have hcode : ¬ ("diagnostic" : String) < "code" := by decide +kernel
  have hmessage : ("diagnostic" : String) < "message" := by decide +kernel
  rw [Json.sorted, Json.sortedMembers, Json.sortedMembers, Json.sortedMembers, Json.sortedMembers,
    Json.insertMember, Json.insertMember, if_pos hmessage, Json.insertMember, Json.insertMember,
    if_neg hcode]

/-- The document of a rejected filter names the kind of failure and carries the diagnostic. -/
theorem sorted_document_filter (d : Diagnostic) :
    (Failure.filter d).document.sorted = .object [("error", .object
      [("code", .text "FILTER_ERROR"), ("diagnostic", d.document.sorted),
        ("message", .text d.message)])] := by
  have hdocument : (Failure.filter d).document = .object [("error", .object
      [("code", .text "FILTER_ERROR"), ("message", .text d.message),
        ("diagnostic", d.document)])] := rfl
  rw [hdocument, Json.sorted, Json.sortedMembers, Json.sortedMembers, sorted_members]
  rfl

/-- Asked for documents, a failure is written as one. -/
theorem stderr_of_error (s : Surroundings) {i : Invocation} (hjson : i.json = true) (f : Failure) :
    (Outcome.ofResult s i "" (.error f)).stderr = documentText f.document.sorted :=
  if_pos hjson

/-- A run of any command, with whatever files, input and surroundings, ends in one consistent
way. -/
theorem contract_run (s : Surroundings) (i : Invocation) (t : σ) :
    Contract s i t ((run s i : StateM σ Outcome).run t).1 := by
  rw [outcome_eq]
  have hcodes := codes_execute s i t
  have hfirst : ∀ f, (faults s i t).findSome? id = some f →
      (execute s i : Action (Printing (StateM σ)) Unit).shown "" t = .error f := by
    intro f hf
    rwa [← failure?_execute, failure?_eq_some_iff] at hf
  refine ⟨?_, hcodes, fun f hf => by rw [hfirst f hf]; rfl, ?_, ?_⟩
  -- something is on the second stream just if the command fails
  · cases (execute s i : Action (Printing (StateM σ)) Unit).shown "" t with
    | ok text => exact .inl ⟨rfl, rfl⟩
    | error f =>
      refine .inr ⟨?_, rfl, ?_⟩
      · cases f <;> simp [Outcome.ofShown, Outcome.ofResult, Failure.exitCode]
      · dsimp only [Outcome.ofShown, Outcome.ofResult]
        split <;> exact append_lineBreak_ne_empty _
  -- the stream with something on it holds one document, whichever it is
  · intro hjson hcommand stream hstream hne
    cases hshown : (execute s i : Action (Printing (StateM σ)) Unit).shown "" t with
    | ok text =>
      obtain ⟨j, hj⟩ := showsDocument_execute hjson hcommand t text hshown
      rw [hshown] at hstream
      rcases List.mem_pair.1 hstream with rfl | rfl
      · exact ⟨j, hj ▸ holds_documentText j⟩
      · exact absurd rfl hne
    | error f =>
      rw [hshown] at hstream
      rcases List.mem_pair.1 hstream with rfl | rfl
      · exact absurd rfl hne
      · exact ⟨_, stderr_of_error s hjson f ▸ holds_documentText _⟩
  -- a rejected filter is the first failure, since the input has been read
  · intro hjson hcode
    obtain ⟨f, hf⟩ := Option.isSome_iff_exists.1 (hcodes.filter.1 hcode)
    obtain ⟨d, rfl⟩ := exists_of_filterFault? hf
    have hshown := hfirst (.filter d) (by
      rw [findSome?_faults, inputFault?_of_filterFault? hf, hf]
      rfl)
    rw [hshown, Outcome.ofShown, stderr_of_error s hjson, sorted_document_filter]
    exact ⟨d, _, hf, holds_documentText _, by simp⟩

end

end MetadataFilter.Cli
