import MetadataFilter.Proofs.Cli.Options
import MetadataFilter.Proofs.Cli.Faults
import MetadataFilter.Proofs.Render.OneLine

/-!
# Commands agree on what a filter is

Checking a filter, showing its tree and rendering it as text agree on the text that they are given:
all of them reject it with the same diagnostic, or all of them succeed and show the same canonical
spelling. The spelling can be given to a command again, as a word of the command line or as the
input, and comes out as it is.

## Key results

- `givenBack_of_render`: commands read a canonical spelling as it stands
- `rejected_of_parse`, `accepted_of_parse`: how the commands end on a text
- `commands_agree`: they end alike
-/

namespace MetadataFilter.Cli

/-! ### Giving the canonical spelling back -/

/-- Line breaks behind one line are dropped. -/
theorem dropLineEnds_append {s : String} {ends : List Char}
    (hends : ∀ c ∈ ends, Token.isLineBreak c = true) (hs : FilterText.OneLine s) :
    dropLineEnds (s ++ String.ofList ends) = s := by
  have hreverse : ∀ c ∈ ends.reverse, Token.isLineBreak c = true := by simpa using hends
  have hstop : Text.Ends Token.isLineBreak s.toList.reverse := fun c hc =>
    hs c (List.mem_reverse.1 (List.mem_of_mem_head? hc))
  rw [dropLineEnds, String.toList_append, String.toList_ofList, List.reverse_append,
    hstop.dropWhile_append hreverse, List.reverse_reverse, String.ofList_toList]

/-- A text that commands read as it stands, as a word of the command line and as the input, with
line breaks behind it or without them. -/
structure GivenBack (c : String) : Prop where
  word (s : Surroundings) : readFilter s c = .ok c
  input {s : Surroundings} {ends : List Char} (hends : ∀ b ∈ ends, Token.isLineBreak b = true)
    (hinput : s.input = .ok (c ++ String.ofList ends)) : readFilter s "-" = .ok c
  words : Invocation.ofWords none ["check", c] = .ok ⟨false, false, false, none, .check c⟩

/-- A word that starts with no dash is a value or an operand. -/
theorem Words.add_eq_plain {w : Words} {word : String} (hopen : w.operandsOnly = false)
    (h : word.toList.head? ≠ some '-') : w.add word = w.plain word := by
  have hne : ∀ cs, word.toList ≠ '-' :: cs := by
    intro cs hcs
    rw [hcs] at h
    exact h rfl
  unfold Words.add
  rw [hopen, if_neg Bool.false_ne_true]
  split
  · next hword => exact absurd hword (hne _)
  · next hword => exact absurd hword (hne _)
  · next hword => exact absurd hword (hne _)
  · rfl

/-- A word that starts with no dash is the filter to check. -/
theorem ofWords_check {c : String} (h : c.toList.head? ≠ some '-') :
    Invocation.ofWords none ["check", c] = .ok ⟨false, false, false, none, .check c⟩ := by
  -- the word becomes the operand that is pending, and is taken in at the end
  have hadd : Words.add { level := .check } c =
      .ok { level := .check, count := 1, pending := some (.operand c) } :=
    Words.add_eq_plain rfl h
  have hwords : readWords none { level := .check } [c] =
      .ok [{ level := .check, operands := [c], count := 1 }] := by
    show (do readWords none (← Words.add { level := .check } c) []) = _
    rw [hadd]
    rfl
  have hlevels : readWords none { level := .root } ["check", c] =
      .ok [{ level := .root }, { level := .check, operands := [c], count := 1 }] := by
    show (do
      let rest ← readWords none { level := .check } [c]
      return (← Words.finish none { level := .root }) :: rest) = _
    rw [hwords]
    rfl
  unfold Invocation.ofWords
  rw [hlevels]
  rfl

/-- Commands read a canonical spelling as it stands. -/
theorem givenBack_of_render {e : Expr} {c : String} (h : FilterText.render .standard e = .ok c) :
    GivenBack c := by
  have hdash := FilterText.head?_ne_dash rfl h
  refine ⟨fun s => if_neg ?_, fun {s ends} hends hinput => ?_, ofWords_check hdash⟩
  · rintro rfl
    exact hdash rfl
  · rw [readFilter, if_pos rfl, hinput]
    exact congrArg Except.ok (dropLineEnds_append hends (.render h))

/-! ### How commands end -/

section

variable {σ : Type} [FileStore (StateM σ)]

/-- How a command ends that starts in a state. -/
def outcome (s : Surroundings) (i : Invocation) (t : σ) : Outcome :=
  ((run s i : StateM σ Outcome).run t).1

/-- There is no file with settings where it is looked for. -/
def SettingsAbsent (s : Surroundings) (i : Invocation) (t : σ) : Prop :=
  ∃ path, configPath s i = .ok path ∧ ((FileStore.isThere path : StateM σ Bool).run t).1 = false

/-- What a command says about a filter that is rejected. -/
def diagnosed (s : Surroundings) (i : Invocation) (d : Diagnostic) : String :=
  if i.json then documentText (Failure.filter d).document.sorted
  else (Failure.filter d).text (colours s i) ++ "\n"

/-- What a check says about a filter that is valid. -/
def checked (s : Surroundings) (i : Invocation) (c : String) : String :=
  if i.json then
    documentText (.sorted (.object [("valid", .boolean true), ("canonical", .text c)]))
  else
    let mark := if colours s i then paint true [.green] "✓ valid" else "valid"
    if i.quiet then "" else s!"{mark}: {c}\n"

/-- Every command rejects the filter, whatever its flags and options are. -/
structure Rejected (s : Surroundings) (t : σ) (expression : String) (d : Diagnostic) : Prop where
  check {i : Invocation} (h : i.command = .check expression) :
    outcome s i t = ⟨1, "", diagnosed s i d⟩
  parse {i : Invocation} (h : i.command = .parse expression) :
    outcome s i t = ⟨1, "", diagnosed s i d⟩
  render {i : Invocation} {options : RenderOptions} (h : i.command = .render expression options) :
    outcome s i t = ⟨1, "", diagnosed s i d⟩

/-- Every command accepts the filter, whatever its flags are, and shows the canonical spelling `c`:
a check on its own, the document of the tree beside the tree, and rendering as text as the output,
if no settings are stored and no fields are mapped. -/
structure Accepted (s : Surroundings) (t : σ) (expression : String) (e : Expr) (c : String) :
    Prop where
  check {i : Invocation} (h : i.command = .check expression) :
    outcome s i t = ⟨0, checked s i c, ""⟩
  parse {i : Invocation} (h : i.command = .parse expression) :
    ∃ shown, outcome s i t = ⟨0, shown, ""⟩ ∧ (i.json = true →
      shown = documentText (.object [("canonical", .text c), ("ast", e.document)]))
  render {i : Invocation} {options : RenderOptions} (h : i.command = .render expression options)
    (hbackend : options.backend = some .text) (hfields : options.fields = [])
    (habsent : SettingsAbsent s i t) : outcome s i t = ⟨0, rendered i .text c, ""⟩

variable {s : Surroundings} {t : σ} {expression text : String}

/-- A check ends as reading the filter and writing it in canonical spelling do. -/
theorem outcome_check {i : Invocation} (h : i.command = .check expression) :
    outcome s i t = .ofShown s i
      ((checkFilter s i expression : Action (Printing (StateM σ)) Unit).shown "" t) := by
  rw [outcome, outcome_eq, execute, h]

/-- Showing a tree ends as reading the filter and drawing it do. -/
theorem outcome_parse {i : Invocation} (h : i.command = .parse expression) :
    outcome s i t = .ofShown s i
      ((showTree s i expression : Action (Printing (StateM σ)) Unit).shown "" t) := by
  rw [outcome, outcome_eq, execute, h]

/-- Rendering ends as reading the filter and what is done once there is a tree do. -/
theorem outcome_render {i : Invocation} {options : RenderOptions}
    (h : i.command = .render expression options) :
    outcome s i t = .ofShown s i (readFilter s expression >>= fun text =>
      parseFilter text >>= renderTree s i t options) := by
  rw [outcome, outcome_eq, execute, h, ← shown_renderFilter_eq]

/-- What all commands start with, if the filter is valid. -/
theorem parsed_bind {α : Type} {e : Expr} (hread : readFilter s expression = .ok text)
    (hparse : Expr.parse text = .ok e) (k : Expr → Except Failure α) :
    (readFilter s expression >>= fun text => parseFilter text >>= k) = k e := by
  rw [hread]
  show parseFilter text >>= k = k e
  rw [parseFilter, hparse]
  rfl

/-- What all commands start with, if the filter is rejected. -/
theorem parsed_bind_of_error {α : Type} {error : FilterError}
    (hread : readFilter s expression = .ok text) (hparse : Expr.parse text = .error error)
    (k : Expr → Except Failure α) :
    (readFilter s expression >>= fun text => parseFilter text >>= k) =
      .error (.filter (.ofError error text)) := by
  rw [hread]
  show parseFilter text >>= k = _
  rw [parseFilter, hparse]
  rfl

/-- If the text is no filter, every command rejects it. -/
theorem rejected_of_parse {error : FilterError} (hread : readFilter s expression = .ok text)
    (hparse : Expr.parse text = .error error) :
    Rejected s t expression (.ofError error text) := by
  refine ⟨fun {i} h => ?_, fun {i} h => ?_, fun {i options} h => ?_⟩
  · rw [outcome_check h, shown_checkFilter, parsed_bind_of_error hread hparse]
    rfl
  · rw [outcome_parse h, shown_showTree, parsed_bind_of_error hread hparse]
    rfl
  · rw [outcome_render h, parsed_bind_of_error hread hparse]
    rfl

/-- Without a file the settings are the usual ones. -/
theorem value_loadSettings_of_absent {path : String}
    (h : ((FileStore.isThere path : StateM σ Bool).run t).1 = false) :
    (loadSettings path : Action (StateM σ) Settings).value t = .ok .standard := by
  unfold loadSettings
  rw [Action.value_bind, Action.value_isThere, h]
  rfl

/-- Only the mapped names matter for the canonical spelling. -/
theorem render_text_of_render {config : RenderConfig} {e : Expr} {c : String}
    (hmap : config.fieldMap = .empty) (hrender : FilterText.render .standard e = .ok c) :
    MetadataFilter.render .text config e = .ok c := by
  obtain ⟨fields, column, node⟩ := config
  cases hmap
  show (FilterText.render .standard e).mapError _ = _
  rw [hrender]
  rfl

/-- Without stored settings and mapped fields, rendering as text shows the canonical spelling. -/
theorem renderTree_of_absent {i : Invocation} {options : RenderOptions} {e : Expr} {c : String}
    (hrender : FilterText.render .standard e = .ok c) (hbackend : options.backend = some .text)
    (hfields : options.fields = []) (habsent : SettingsAbsent s i t) :
    renderTree s i t options e = .ok (rendered i .text c) := by
  obtain ⟨path, hpath, hthere⟩ := habsent
  -- no settings are stored, and no option says anything but the backend
  have hstored : (stored s i).value t = .ok Settings.standard := by
    rw [value_stored, hpath]
    exact value_loadSettings_of_absent hthere
  have hresolved : ∃ config, resolveOptions options .standard = .ok (.text, config) ∧
      config.fieldMap = .empty := by
    rw [resolveOptions, hbackend, hfields]
    exact ⟨_, rfl, rfl⟩
  obtain ⟨config, hresolved, hmap⟩ := hresolved
  have hwritten := render_text_of_render hmap hrender
  -- what is left is the text of the filter language under settings without mapped names
  unfold renderTree
  rw [hstored]
  show (resolveOptions options .standard >>= _) = _
  rw [hresolved]
  show ((MetadataFilter.render .text config e).mapError Failure.render >>= _) = _
  rw [hwritten]
  rfl

/-- If the text is a filter, every command accepts it. -/
theorem accepted_of_parse {e : Expr} {c : String} (hread : readFilter s expression = .ok text)
    (hparse : Expr.parse text = .ok e) (hrender : FilterText.render .standard e = .ok c) :
    Accepted s t expression e c := by
  have hwritten := @render_text_of_render .standard e c rfl hrender
  -- one case for each command, which starts with reading and parsing the text
  refine ⟨fun {i} h => ?_, fun {i} h => ?_, fun {i options} h hbackend hfields habsent => ?_⟩
  · have hchecked : (checkFilter s i expression : Action (Printing (StateM σ)) Unit).shown "" t =
        .ok (checked s i c) := by
      rw [shown_checkFilter, parsed_bind hread hparse, hwritten]
      unfold checked
      cases i.json <;> rfl
    rw [outcome_check h, hchecked]
    rfl
  · have hshown := (shown_showTree s i t expression).trans (parsed_bind hread hparse _)
    -- the tree can be drawn, since all its tests can be written
    have hdrawing : failure? (drawing (colours s i) e) = none := by
      rw [failure?_drawing, hwritten]
      rfl
    obtain ⟨lines, hlines⟩ := failure?_eq_none_iff.1 hdrawing
    rw [outcome_parse h, hshown, treeDocument, hwritten, hlines]
    by_cases hjson : i.json = true
    · rw [if_pos hjson]
      exact ⟨_, rfl, fun _ => rfl⟩
    · rw [if_neg hjson]
      by_cases hquiet : i.quiet = true
      · rw [if_pos hquiet]
        exact ⟨_, rfl, fun h => absurd h hjson⟩
      · rw [if_neg hquiet]
        exact ⟨_, rfl, fun h => absurd h hjson⟩
  -- rendering goes on with the settings, of which none are stored here
  · rw [outcome_render h, parsed_bind hread hparse,
      renderTree_of_absent hrender hbackend hfields habsent]
    rfl

/-- The commands agree on every text that they can read: all of them reject it with the same
diagnostic, or all of them accept it and show the same canonical spelling. They read the spelling as
it stands, and accept it with the same canonical spelling. -/
theorem commands_agree (hread : readFilter s expression = .ok text) :
    (∃ error, Expr.parse text = .error error ∧
      Rejected s t expression (.ofError error text)) ∨
    ∃ e c, Expr.parse text = .ok e ∧ Accepted s t expression e c ∧ GivenBack c ∧
      ∃ e', ∀ {s' : Surroundings} {expression' : String} (t' : σ),
        readFilter s' expression' = .ok c → Accepted s' t' expression' e' c := by
  cases hparse : Expr.parse text with
  | error error => exact .inl ⟨error, rfl, rejected_of_parse hread hparse⟩
  | ok e =>
    -- what has been read can be written, and is read and written again as it is
    obtain ⟨c, e', hrender, hparse', -, hrender'⟩ := @render_of_parse .standard rfl _ _ hparse
    exact .inr ⟨e, c, rfl, accepted_of_parse hread hparse hrender, givenBack_of_render hrender, e',
      fun _ hread' => accepted_of_parse hread' hparse' hrender'⟩

end

/-- Surroundings that say nothing but what the input is. -/
def Surroundings.ofInput (text : String) : Surroundings := ⟨none, none, true, .ok text⟩

/-- A filter in needless parentheses, from the input, where no settings are stored. -/
theorem commands_agree_parenthesized :
    readFilter (.ofInput "((a == 1))\n") "-" = .ok "((a == 1))" ∧
    SettingsAbsent (.ofInput "((a == 1))\n")
      (Command.render "-" ⟨some .text, [], none, none⟩).withFile FileTree.initial ∧
    ∃ e, Accepted (.ofInput "((a == 1))\n") FileTree.initial "-" e "a == 1" ∧
      GivenBack "a == 1" := by
  have hread : readFilter (.ofInput "((a == 1))\n") "-" = .ok "((a == 1))" := rfl
  have habsent : SettingsAbsent (.ofInput "((a == 1))\n")
      (Command.render "-" ⟨some .text, [], none, none⟩).withFile FileTree.initial :=
    ⟨"c.toml", rfl, by decide +kernel⟩
  refine ⟨hread, habsent, ?_⟩
  rcases @commands_agree _ _ _ FileTree.initial _ _ hread with
    ⟨error, herror, -⟩ | ⟨e, c, -, haccepted, hgiven, -⟩
  · have hparse : (Expr.parse "((a == 1))").toOption ≠ none := by decide +kernel
    rw [herror] at hparse
    exact absurd rfl hparse
  · -- what rendering shows says which spelling it is
    have hshown := haccepted.render rfl rfl rfl habsent
    have hrun : outcome (.ofInput "((a == 1))\n")
        (Command.render "-" ⟨some .text, [], none, none⟩).withFile FileTree.initial =
        ⟨0, "a == 1\n", ""⟩ := by decide +kernel
    rw [hrun] at hshown
    have htext : "a == 1" ++ "\n" = c ++ "\n" := (Outcome.mk.inj hshown).2.1
    obtain rfl : "a == 1" = c := (String.append_left_inj "\n").1 htext
    exact ⟨e, haccepted, hgiven⟩

end MetadataFilter.Cli
