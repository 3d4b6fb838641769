import MetadataFilter.Proofs.Cli.Outcome

/-!
# What commands print

A command over files in a state prints beside what its steps do: `Action.result`, `Action.printed`
and `Action.left` are what it comes to, what has been printed in the end, and the state it leaves. A
failure does not take back what has been printed. But every command prints only after the last step
that can fail, so one that fails has printed nothing, and how a run ends is decided by what its
command shows.

## Key results

- `Action.result_bind`, `Action.printed_bind`, `Action.left_bind`: steps in a row
- `Action.shown_silently_bind`, `Action.shown_ofExcept_bind`: what is shown, step by step
- `failsSilently_execute`: a command that fails has printed nothing
- `outcome_eq`: how a run ends is decided by what its command shows
- `shown_showTree`, `shown_checkFilter`, `shown_showTokens`, `shown_renderFilter`: what is shown
-/

namespace MetadataFilter.Cli

namespace Action

variable {σ α β : Type}

/-- What a command that can print gives, or why it fails, if `out` has been printed before. -/
def result (a : Action (Printing (StateM σ)) α) (out : String) (t : σ) : Except Failure α :=
  ((a.run.run out).run t).1.1

/-- All that has been printed in the end, also if the command fails. -/
def printed (a : Action (Printing (StateM σ)) α) (out : String) (t : σ) : String :=
  ((a.run.run out).run t).1.2

/-- The state that a command that can print leaves behind. -/
def left (a : Action (Printing (StateM σ)) α) (out : String) (t : σ) : σ :=
  ((a.run.run out).run t).2

/-- All that has been printed in the end, or why the command fails. -/
def shown (a : Action (Printing (StateM σ)) Unit) (out : String) (t : σ) : Except Failure String :=
  (a.result out t).map fun _ => a.printed out t

section

variable (out text : String) (t : σ) (r : Except Failure α) (step : Action (StateM σ) α)
  (a : Action (Printing (StateM σ)) α) (k : α → Action (Printing (StateM σ)) β)

/-- Steps in a row go on with what has been printed and with the state that is left. -/
theorem result_bind : (a >>= k).result out t =
    a.result out t >>= fun x => (k x).result (a.printed out t) (a.left out t) := by
  show (((ExceptT.bindCont k ((a.run.run out).run t).1.1).run _).run _).1.1 =
    ((a.run.run out).run t).1.1 >>= _
  cases ((a.run.run out).run t).1.1 <;> rfl

/-- What has been printed stays if a later step fails. -/
theorem printed_bind : (a >>= k).printed out t =
    match a.result out t with
    | .ok x => (k x).printed (a.printed out t) (a.left out t)
    | .error _ => a.printed out t := by
  show (((ExceptT.bindCont k ((a.run.run out).run t).1.1).run _).run _).1.2 =
    match ((a.run.run out).run t).1.1 with
    | .ok x => (k x).printed (a.printed out t) (a.left out t)
    | .error _ => a.printed out t
  cases ((a.run.run out).run t).1.1 <;> rfl

/-- A step that fails is the last one, and leaves the state that later steps would start in. -/
theorem left_bind : (a >>= k).left out t =
    match a.result out t with
    | .ok x => (k x).left (a.printed out t) (a.left out t)
    | .error _ => a.left out t := by
  show (((ExceptT.bindCont k ((a.run.run out).run t).1.1).run _).run _).2 =
    match ((a.run.run out).run t).1.1 with
    | .ok x => (k x).left (a.printed out t) (a.left out t)
    | .error _ => a.left out t
  cases ((a.run.run out).run t).1.1 <;> rfl

/-- What is shown after a step that prints nothing. -/
theorem shown_silently_bind (k : α → Action (Printing (StateM σ)) Unit) :
    (silently step >>= k).shown out t =
      step.value t >>= fun x => (k x).shown out (step.after t) := by
  have hresult : (silently step).result out t = step.value t := rfl
  rw [shown, result_bind, printed_bind, hresult]
  cases step.value t <;> rfl

/-- What is shown after a step that needs no files. -/
theorem shown_ofExcept_bind (k : α → Action (Printing (StateM σ)) Unit) :
    (ofExcept r >>= k).shown out t = r >>= fun x => (k x).shown out t := by
  have hresult : (ofExcept r : Action (Printing (StateM σ)) α).result out t = r := rfl
  rw [shown, result_bind, printed_bind, hresult]
  cases r <;> rfl

/-- A step that prints nothing leaves the state that the rest starts in. -/
theorem left_silently_bind : (silently step >>= k).left out t =
    match step.value t with
    | .ok x => (k x).left out (step.after t)
    | .error _ => step.after t := by
  have hresult : (silently step).result out t = step.value t := rfl
  rw [left_bind, hresult]
  cases step.value t <;> rfl

/-- A step that needs no files leaves the state as it is. -/
theorem left_ofExcept_bind : (ofExcept r >>= k).left out t =
    match r with
    | .ok x => (k x).left out t
    | .error _ => t := by
  have hresult : (ofExcept r : Action (Printing (StateM σ)) α).result out t = r := rfl
  rw [left_bind, hresult]
  cases r <;> rfl

end

/-! ### Failing before anything is printed -/

/-- Wherever it starts, the command prints nothing. -/
def Silent (a : Action (Printing (StateM σ)) α) : Prop := ∀ out t, a.printed out t = out

/-- Wherever it starts, the command does not fail. -/
def NeverFails (a : Action (Printing (StateM σ)) α) : Prop := ∀ out t, ∃ x, a.result out t = .ok x

/-- Wherever it starts, the command has printed nothing if it fails. -/
def FailsSilently (a : Action (Printing (StateM σ)) α) : Prop :=
  ∀ out t f, a.result out t = .error f → a.printed out t = out

section

variable {a : Action (Printing (StateM σ)) α} {k : α → Action (Printing (StateM σ)) β}

/-- A step on files prints nothing. -/
theorem silent_silently (step : Action (StateM σ) α) : (silently step).Silent := fun _ _ => rfl

/-- A step that needs no files prints nothing. -/
theorem silent_ofExcept (r : Except Failure α) :
    (ofExcept r : Action (Printing (StateM σ)) α).Silent :=
  fun _ _ => rfl

/-- Printing does not fail. -/
theorem neverFails_print (text : String) :
    (print text : Action (Printing (StateM σ)) Unit).NeverFails :=
  fun _ _ => ⟨(), rfl⟩

/-- A command that is over does not fail any more. -/
theorem neverFails_pure (x : α) : (pure x : Action (Printing (StateM σ)) α).NeverFails :=
  fun _ _ => ⟨x, rfl⟩

/-- A step on files that always gives a value does not fail. -/
theorem neverFails_silently {step : Action (StateM σ) α} (h : ∀ t, ∃ x, step.value t = .ok x) :
    (silently step).NeverFails :=
  fun _ t => h t

/-- Steps in a row do not fail if none of them does. -/
theorem NeverFails.bind (h : a.NeverFails) (hk : ∀ x, (k x).NeverFails) :
    (a >>= k).NeverFails := by
  intro out t
  obtain ⟨x, hx⟩ := h out t
  rw [result_bind, hx]
  exact hk x _ _

/-- A command that does not fail may print what it likes. -/
theorem NeverFails.failsSilently (h : a.NeverFails) : a.FailsSilently := by
  intro out t f hf
  obtain ⟨x, hx⟩ := h out t
  rw [hx] at hf
  cases hf

/-- A command that does not fail shows something. -/
theorem NeverFails.exists_shown {a : Action (Printing (StateM σ)) Unit} (h : a.NeverFails)
    (out : String) (t : σ) : ∃ text, a.shown out t = .ok text := by
  obtain ⟨x, hx⟩ := h out t
  exact ⟨a.printed out t, by rw [shown, hx]; rfl⟩

/-- A command may fail after steps that print nothing. -/
theorem Silent.bind (h : a.Silent) (hk : ∀ x, (k x).FailsSilently) : (a >>= k).FailsSilently := by
  intro out t f hf
  rw [result_bind, h] at hf
  rw [printed_bind, h]
  cases hresult : a.result out t with
  | error _ => rfl
  | ok x =>
    rw [hresult] at hf
    exact hk x _ _ f hf

end

end Action

/-! ### Commands that fail before they print -/

section

variable {σ : Type} (s : Surroundings) (i : Invocation)

/-- What is left out by a command that is to be quiet does not make it fail. -/
theorem neverFails_unless (i : Invocation) {a : Action (Printing (StateM σ)) Unit}
    (h : a.NeverFails) : Action.NeverFails (unless i.quiet do a) := by
  cases i.quiet with
  | true => exact Action.neverFails_pure ()
  | false => exact h

/-- A document is shown, or something for a reader, and neither fails. -/
theorem neverFails_ite (i : Invocation) {a b : Action (Printing (StateM σ)) Unit}
    (ha : a.NeverFails) (hb : b.NeverFails) : Action.NeverFails (if i.json then a else b) := by
  cases i.json with
  | true => exact ha
  | false => exact hb

/-- What is said about a step that has been made, in a document or to a reader, does not fail. -/
theorem neverFails_said (i : Invocation) (document text : String) :
    Action.NeverFails (if i.json then print document else unless i.quiet do print text :
      Action (Printing (StateM σ)) Unit) :=
  neverFails_ite i (Action.neverFails_print _) (neverFails_unless i (Action.neverFails_print _))

/-- Showing a tree fails over the input, the filter or the drawing, and only then prints. -/
theorem failsSilently_showTree (expression : String) :
    (showTree s i expression : Action (Printing (StateM σ)) Unit).FailsSilently := by
  refine (Action.silent_ofExcept _).bind fun text => (Action.silent_ofExcept _).bind fun e => ?_
  cases i.json with
  | true => exact (Action.neverFails_print _).failsSilently
  | false =>
    cases i.quiet with
    | true => exact (Action.neverFails_pure ()).failsSilently
    | false =>
      -- the drawing is made before any line of it is printed
      exact (Action.silent_ofExcept _).bind fun _ => (Action.neverFails_print _).failsSilently

variable [FileStore (StateM σ)]

/-- Looking for a file does not fail, whether it is there or not. -/
theorem neverFails_isThere (path : String) :
    Action.NeverFails (silently (FileStore.isThere path : Action (StateM σ) Bool)) :=
  Action.neverFails_silently fun _ => ⟨_, rfl⟩

/-- Settings are shown in several pieces, between which only the file is looked for. -/
theorem neverFails_showSettings (path : String) (settings : Settings) (backend : Backend) :
    (showSettings s i path settings backend : Action (Printing (StateM σ)) Unit).NeverFails := by
  have hprint : ∀ text, (print text : Action (Printing (StateM σ)) Unit).NeverFails :=
    Action.neverFails_print
  have hthere : Action.NeverFails
      (silently (FileStore.isThere path : Action (StateM σ) Bool)) := neverFails_isThere path
  -- a document is printed at once, and the lines for a reader one after the other
  refine neverFails_ite i (hthere.bind fun _ => hprint _) (neverFails_unless i ?_)
  refine (hprint _).bind fun _ => (hprint _).bind fun _ => hthere.bind fun _ => ?_
  refine (hprint _).bind fun _ => (hprint _).bind fun _ => hthere.bind fun isThere => ?_
  cases isThere with
  | true => exact Action.neverFails_pure ()
  | false => exact hprint _

/-- A command that fails has printed nothing: whatever can fail comes before whatever is printed. -/
theorem failsSilently_execute :
    (execute s i : Action (Printing (StateM σ)) Unit).FailsSilently := by
  have hprint : ∀ text, (print text : Action (Printing (StateM σ)) Unit).NeverFails :=
    Action.neverFails_print
  unfold execute
  -- each command first does what can fail, and prints at its end
  cases i.command with
  | parse expression => exact failsSilently_showTree s i expression
  | render expression options =>
    refine (Action.silent_ofExcept _).bind fun e => (Action.silent_ofExcept _).bind fun path =>
      (Action.silent_silently _).bind fun settings => (Action.silent_ofExcept _).bind
      fun resolved => (Action.silent_ofExcept _).bind fun output => ?_
    exact (neverFails_ite i (hprint _) (hprint _)).failsSilently
  | check expression =>
    refine (Action.silent_ofExcept _).bind fun text => (Action.silent_ofExcept _).bind fun e =>
      (Action.silent_ofExcept _).bind fun canonical => ?_
    exact (neverFails_said i _ _).failsSilently
  | tokens expression =>
    refine (Action.silent_ofExcept _).bind fun text => (Action.silent_ofExcept _).bind fun ts => ?_
    exact (neverFails_said i _ _).failsSilently
  | configShow =>
    exact (Action.silent_ofExcept _).bind fun path => (Action.silent_silently _).bind
      fun settings => (Action.silent_ofExcept _).bind
      fun backend => (neverFails_showSettings s i _ _ _).failsSilently
  | configInit force =>
    refine (Action.silent_ofExcept _).bind fun path => (Action.silent_silently _).bind fun _ => ?_
    exact (neverFails_said i _ _).failsSilently
  | configSet key value =>
    refine (Action.silent_ofExcept _).bind fun path => (Action.silent_silently _).bind fun _ => ?_
    exact (neverFails_said i _ _).failsSilently
  | configPath =>
    refine (Action.silent_ofExcept _).bind fun path => ?_
    refine (neverFails_ite i ?_ (hprint _)).failsSilently
    exact (neverFails_isThere path).bind fun _ => hprint _
  | completions shell => exact (hprint _).failsSilently
  | overview => exact (neverFails_unless i (hprint _)).failsSilently

end

/-! ### How runs end -/

section

variable {σ : Type} [FileStore (StateM σ)] (s : Surroundings) (i : Invocation) (t : σ)

/-- How a run ends whose command shows a text and does not fail, or fails and shows nothing. -/
def Outcome.ofShown : Except Failure String → Outcome
  | .ok text => .ofResult s i text (.ok ())
  | .error f => .ofResult s i "" (.error f)

/-- How a run ends is decided by what its command shows. -/
theorem outcome_eq :
    ((run s i : StateM σ Outcome).run t).1 =
      .ofShown s i ((execute s i : Action (Printing (StateM σ)) Unit).shown "" t) := by
  have hrun : ((run s i : StateM σ Outcome).run t).1 =
      .ofResult s i ((execute s i : Action (Printing (StateM σ)) Unit).printed "" t)
        ((execute s i : Action (Printing (StateM σ)) Unit).result "" t) := rfl
  -- nothing has been printed if the command fails, so only its result is left to look at
  have hsilent := failsSilently_execute s i "" t
  rw [hrun, Action.shown]
  cases hresult : (execute s i : Action (Printing (StateM σ)) Unit).result "" t with
  | ok _ => rfl
  | error f =>
    rw [hsilent f hresult]
    rfl

/-- A run leaves the files that its command leaves. -/
theorem after_run :
    ((run s i : StateM σ Outcome).run t).2 =
      (execute s i : Action (Printing (StateM σ)) Unit).left "" t := rfl

end

/-! ### What is shown -/

section

variable {σ : Type} (s : Surroundings) (i : Invocation) (t : σ)

/-- What is said about a step that has been made is the last thing that a command does. -/
theorem left_said (out document text : String) :
    Action.left (if i.json then print document else unless i.quiet do print text :
      Action (Printing (StateM σ)) Unit) out t = t := by
  cases i.json <;> cases i.quiet <;> rfl

/-- The tree of a filter, as a document or drawn. -/
theorem shown_showTree (expression : String) :
    (showTree s i expression : Action (Printing (StateM σ)) Unit).shown "" t = (do
      let text ← readFilter s expression
      let e ← parseFilter text
      if i.json then return documentText (treeDocument e)
      else if i.quiet then return ""
      else (drawing (colours s i) e).mapError .render) := by
  unfold showTree
  simp only [Action.shown_ofExcept_bind]
  refine bind_congr fun text => bind_congr fun e => ?_
  -- the tree as a document, nothing at all, or the drawing, which may fail
  cases i.json with
  | true => rfl
  | false =>
    cases i.quiet with
    | true => rfl
    | false =>
      show Action.shown (Action.ofExcept _ >>= _) "" t = Except.mapError _ _
      rw [Action.shown_ofExcept_bind]
      cases drawing (colours s i) e <;> rfl

/-- The canonical spelling of a filter, in a document or on its own. -/
theorem shown_checkFilter (expression : String) :
    (checkFilter s i expression : Action (Printing (StateM σ)) Unit).shown "" t = (do
      let text ← readFilter s expression
      let e ← parseFilter text
      let canonical ← (render .text .standard e).mapError .render
      if i.json then
        return documentText
          (.sorted (.object [("valid", .boolean true), ("canonical", .text canonical)]))
      else
        let mark := if colours s i then paint true [.green] "✓ valid" else "valid"
        return if i.quiet then "" else s!"{mark}: {canonical}\n") := by
  unfold checkFilter
  simp only [Action.shown_ofExcept_bind]
  refine bind_congr fun text => bind_congr fun e => bind_congr fun canonical => ?_
  cases i.json <;> cases i.quiet <;> rfl

/-- The tokens of a filter, as a document or as a table. -/
theorem shown_showTokens (expression : String) :
    (showTokens s i expression : Action (Printing (StateM σ)) Unit).shown "" t = (do
      let text ← readFilter s expression
      let ts ← readTokens text
      if i.json then return documentText (tokenDocument ts)
      else return if i.quiet then "" else tokenTable (colours s i) ts) := by
  unfold showTokens
  simp only [Action.shown_ofExcept_bind]
  refine bind_congr fun text => bind_congr fun ts => ?_
  cases i.json <;> cases i.quiet <;> rfl

end

/-- What is shown of a filter in the language of a backend. -/
def rendered (i : Invocation) (backend : Backend) (output : String) : String :=
  if i.json then
    documentText (.sorted (.object [("backend", .text backend.name), ("output", .text output)]))
  else output ++ "\n"

/-- Rendering: the filter, the settings, the options and the output, in this order. -/
theorem shown_renderFilter {σ : Type} [FileStore (StateM σ)] (s : Surroundings) (i : Invocation)
    (expression : String) (options : RenderOptions) (t : σ) :
    (renderFilter s i expression options : Action (Printing (StateM σ)) Unit).shown "" t = (do
      let e ← readFilter s expression >>= parseFilter
      let path ← configPath s i
      let settings ← (loadSettings path : Action (StateM σ) Settings).value t
      let (backend, config) ← resolveOptions options settings
      let output ← (render backend config e).mapError .render
      return rendered i backend output) := by
  -- one step after the other, none of which prints anything but the last
  unfold renderFilter
  rw [Action.shown_ofExcept_bind]
  refine bind_congr fun e => ?_
  rw [Action.shown_ofExcept_bind]
  refine bind_congr fun path => ?_
  rw [Action.shown_silently_bind]
  refine bind_congr fun settings => ?_
  rw [Action.shown_ofExcept_bind]
  refine bind_congr fun resolved => ?_
  rw [Action.shown_ofExcept_bind]
  refine bind_congr fun output => ?_
  unfold rendered
  cases i.json <;> rfl

end MetadataFilter.Cli
