import Mathlib.Data.List.Nodup
import MetadataFilter.Proofs.Cache
import MetadataFilter.Proofs.Grammar.Parse

/-!
# Which calls share a tree

A tree that a cache hands out is known by its label. Which calls were given the same tree can be
read off the history: a call shares a tree with an earlier one exactly if its text has stayed in the
cache since it was last taken in, that is, if the cache has been neither cleared nor flushed.

## Key results

- `effect_step`: all that a call can do
- `flushes_iff`: when a call flushes the cache
- `mem_entries_step_iff`, `mem_entries_run_iff`: what is kept stays until the cache is emptied
- `keptSince_of_mem`: what is kept has been taken in, and the cache has not been emptied since
- `sharing_exact`: sharing, flushes and insertions after any history
-/

namespace MetadataFilter.Cache

/-! ### Histories -/

/-- A call and the cache that it meets. -/
structure Moment where
  cache : Cache
  call : Call

namespace Moment

/-- The cache after the call. -/
def after (m : Moment) : Cache := m.cache.step m.call

/-- The shared tree that the call gives, if it asks for one and gets it. -/
def answer? (m : Moment) : Option SharedExpr :=
  match m.call with
  | .parse text => (m.cache.parse text).1.toOption
  | .clear => none

/-- The call takes in a text that was not kept. -/
def Inserts (m : Moment) (text : String) : Prop :=
  m.cache.get? text = none ∧ m.after.get? text ≠ none

/-- The call asks for a text, and some text is lost that was kept. -/
def Flushes (m : Moment) : Prop :=
  m.call ≠ .clear ∧ ∃ text, m.cache.get? text ≠ none ∧ m.after.get? text = none

/-- The call takes away what was kept. -/
def Empties (m : Moment) : Prop := m.call = .clear ∨ m.Flushes

end Moment

/-- The moments of a history. -/
def trace (cache : Cache) : List Call → List Moment
  | [] => []
  | call :: calls => ⟨cache, call⟩ :: (cache.step call).trace calls

/-- Since the text was last taken in, the cache has been neither cleared nor flushed. -/
def KeptSince (text : String) (moments : List Moment) : Prop :=
  ∃ earlier m later, moments = earlier ++ m :: later ∧ m.Inserts text ∧
    ∀ m' ∈ later, ¬ m'.Inserts text ∧ ¬ m'.Empties

/-! ### One call -/

/-- All that a call can do: clear the cache, leave it as it is, or take in the tree of a new text,
in front of the others if there is room, else in their place. -/
inductive Effect (cache : Cache) : Call → Cache → Prop
  | clears : Effect cache .clear cache.clear
  | stays {text : String} (h : ∀ e, Expr.parse text = .ok e → cache.get? text ≠ none) :
      Effect cache (.parse text) cache
  | inserts {text : String} {e : Expr} (new : cache.get? text = none)
      (parses : Expr.parse text = .ok e) (room : cache.size < cache.capacity) :
      Effect cache (.parse text) ⟨cache.capacity,
        (text, ⟨e, cache.nextLabel⟩) :: cache.entries, cache.nextLabel + 1⟩
  | flushes {text : String} {e : Expr} (new : cache.get? text = none)
      (parses : Expr.parse text = .ok e) (full : cache.capacity ≤ cache.size) :
      Effect cache (.parse text) ⟨cache.capacity,
        [(text, ⟨e, cache.nextLabel⟩)], cache.nextLabel + 1⟩

/-- Each call does one of these things. -/
theorem effect_step (cache : Cache) (call : Call) : Effect cache call (cache.step call) := by
  cases call with
  | clear => exact .clears
  | parse text =>
    show Effect cache _ (cache.parse text).2
    -- The three outcomes of asking are the effects that keep or add; taking in splits on whether
    -- there is room.
    obtain ⟨shared, hget, heq⟩ | ⟨e, hparse, heq⟩ | ⟨e, hnew, hparse, heq⟩ := parse_cases cache text
    · rw [heq]
      exact .stays fun _ _ => by simp [hget]
    · rw [heq]
      refine .stays fun e' he' => ?_
      cases hparse.symm.trans he'
    · rw [heq]
      rw [add_of_get?_eq_none hnew]
      by_cases hfull : cache.capacity ≤ cache.size
      · rw [if_pos hfull]
        exact .flushes hnew hparse hfull
      · rw [if_neg hfull]
        exact .inserts hnew hparse (Nat.lt_of_not_le hfull)

/-- A text is kept if it is that of an entry. -/
theorem get?_ne_none_iff {cache : Cache} {text : String} :
    cache.get? text ≠ none ↔ ∃ entry ∈ cache.entries, text = entry.1 := by
  rw [ne_eq, get?, List.lookup_eq_none_iff]
  simp

/-- A call that asks for a text and keeps all entries empties nothing. -/
theorem not_empties_of_subset {cache next : Cache} {text : String}
    (hnext : cache.step (.parse text) = next) (hkeeps : cache.entries ⊆ next.entries) :
    ¬ (Moment.mk cache (.parse text)).Empties := by
  subst hnext
  rintro (⟨⟨⟩⟩ | ⟨-, other, hkept, hlost⟩)
  obtain ⟨entry, hentry, rfl⟩ := get?_ne_none_iff.1 hkept
  exact absurd hlost (get?_ne_none_iff.2 ⟨entry, hkeeps hentry, rfl⟩)

/-- A call flushes the cache exactly if it asks for a filter that is not kept while the cache is
full. -/
theorem flushes_iff {cache : Cache} (h : cache.Sound) (call : Call) :
    (Moment.mk cache call).Flushes ↔ ∃ text e, call = .parse text ∧ Expr.parse text = .ok e ∧
      cache.get? text = none ∧ cache.size = cache.capacity := by
  have heffect := effect_step cache call
  generalize hnext : cache.step call = next at heffect
  cases heffect with
  -- Clearing is no flush, and the two effects that keep all entries are none either.
  | clears => exact iff_of_false (fun hflushes => hflushes.1 rfl) (by simp)
  | @stays text hold =>
    refine iff_of_false (fun hflushes => ?_) ?_
    · exact not_empties_of_subset hnext (List.Subset.refl _) (.inr hflushes)
    · rintro ⟨_, e, ⟨⟩, hparse, hnew, -⟩
      exact hold e hparse hnew
  | @inserts text e hnew hparse hroom =>
    refine iff_of_false (fun hflushes => ?_) ?_
    · exact not_empties_of_subset hnext (List.subset_cons_self _ _) (.inr hflushes)
    · rintro ⟨_, _, ⟨⟩, -, -, hfull⟩
      exact Nat.ne_of_lt hroom hfull
  | @flushes text e hnew hparse hfull =>
    have hsize : cache.size = cache.capacity := Nat.le_antisymm h.size_le hfull
    refine iff_of_true ⟨nofun, ?_⟩ ⟨text, e, rfl, hparse, hnew, hsize⟩
    -- a full cache keeps some text, which is another one than the new text
    have hpos : 0 < cache.entries.length := Nat.lt_of_lt_of_le h.capacity_pos hfull
    obtain ⟨entry, hentry⟩ := List.exists_mem_of_length_pos hpos
    have hkept : cache.get? entry.1 ≠ none := get?_ne_none_iff.2 ⟨entry, hentry, rfl⟩
    refine ⟨entry.1, hkept, ?_⟩
    show (cache.step (.parse text)).get? entry.1 = none
    rw [hnext]
    refine List.lookup_eq_none_iff.2 fun other hother => ?_
    rw [List.mem_singleton.1 hother, bne_iff_ne]
    rintro heq
    exact hkept (heq ▸ hnew)

/-- No call takes back a label. -/
theorem nextLabel_le_step (cache : Cache) (call : Call) :
    cache.nextLabel ≤ (cache.step call).nextLabel := by
  have heffect := effect_step cache call
  generalize cache.step call = next at heffect
  cases heffect with
  | clears | stays => exact Nat.le_refl _
  | inserts | flushes => exact Nat.le_succ _

/-- A tree that has been handed out before is kept after a call exactly if it was kept and the call
does not empty the cache. -/
theorem mem_entries_step_iff {cache : Cache} (h : cache.Sound) (call : Call)
    {entry : String × SharedExpr} (hlabel : entry.2.label < cache.nextLabel) :
    entry ∈ (cache.step call).entries ↔
      entry ∈ cache.entries ∧ ¬ (Moment.mk cache call).Empties := by
  -- a tree that is taken in has a new label, so it is not the one in question
  have hne : ∀ text e, entry ≠ (text, ⟨e, cache.nextLabel⟩) := by
    rintro text e rfl
    exact Nat.lt_irrefl _ hlabel
  have heffect := effect_step cache call
  generalize hnext : cache.step call = next at heffect ⊢
  cases heffect with
  | clears => exact iff_of_false List.not_mem_nil fun hkept => hkept.2 (.inl rfl)
  | @stays text hold =>
    exact (and_iff_left (not_empties_of_subset hnext (List.Subset.refl _))).symm
  | @inserts text e hnew hparse hroom =>
    rw [List.mem_cons, or_iff_right (hne text e)]
    exact (and_iff_left (not_empties_of_subset hnext (List.subset_cons_self _ _))).symm
  | @flushes text e hnew hparse hfull =>
    have hsize : cache.size = cache.capacity := Nat.le_antisymm h.size_le hfull
    rw [List.mem_singleton]
    refine iff_of_false (hne text e) fun hkept => hkept.2 (.inr ?_)
    exact (flushes_iff h _).2 ⟨text, e, rfl, hparse, hnew, hsize⟩

/-- What is kept after a call was kept before, and the call has not emptied the cache, or the call
has taken in its text. -/
theorem mem_entries_or_inserts (cache : Cache) (call : Call) {entry : String × SharedExpr}
    (hentry : entry ∈ (cache.step call).entries) :
    (entry ∈ cache.entries ∧ ¬ (Moment.mk cache call).Inserts entry.1 ∧
      ¬ (Moment.mk cache call).Empties) ∨ (Moment.mk cache call).Inserts entry.1 := by
  have hafter : (cache.step call).get? entry.1 ≠ none := get?_ne_none_iff.2 ⟨entry, hentry, rfl⟩
  -- A text that was not kept before has just been taken in; what is left is a text that was kept.
  by_cases hbefore : cache.get? entry.1 = none
  · exact .inr ⟨hbefore, hafter⟩
  refine .inl ?_
  have hinserts : ¬ (Moment.mk cache call).Inserts entry.1 := fun hinserts => hbefore hinserts.1
  have heffect := effect_step cache call
  generalize hnext : cache.step call = next at heffect hentry
  cases heffect with
  | clears => cases hentry
  | @stays text hold =>
    exact ⟨hentry, hinserts, not_empties_of_subset hnext (List.Subset.refl _)⟩
  | @inserts text e hnew hparse hroom =>
    rcases List.mem_cons.1 hentry with rfl | hentry
    · exact absurd hnew hbefore
    · exact ⟨hentry, hinserts, not_empties_of_subset hnext (List.subset_cons_self _ _)⟩
  | @flushes text e hnew hparse hfull =>
    rw [List.mem_singleton.1 hentry] at hbefore
    exact absurd hnew hbefore

/-! ### Labels -/

/-- The trees that are kept have labels of their own, and the next label is another one. -/
structure Labelled (cache : Cache) : Prop where
  label_lt : ∀ entry ∈ cache.entries, entry.2.label < cache.nextLabel
  eq_of_label_eq : ∀ entry ∈ cache.entries, ∀ other ∈ cache.entries,
    entry.2.label = other.2.label → entry = other

/-- A cache that keeps nothing has given out no label. -/
theorem labelled_withCapacity (capacity : Nat) : (withCapacity capacity).Labelled :=
  ⟨nofun, nofun⟩

/-- Every call leaves all labels different and below the next one. -/
theorem labelled_step {cache : Cache} (h : cache.Labelled) (call : Call) :
    (cache.step call).Labelled := by
  have heffect := effect_step cache call
  generalize cache.step call = next at heffect
  cases heffect with
  | clears => exact ⟨nofun, nofun⟩
  | stays => exact h
  | @inserts text e hnew hparse hroom =>
    refine ⟨fun entry hentry => ?_, fun entry hentry other hother hlabel => ?_⟩
    · rcases List.mem_cons.1 hentry with rfl | hentry
      · exact Nat.lt_succ_self _
      · exact Nat.lt_succ_of_lt (h.label_lt entry hentry)
    · -- the new label is larger than all others
      rcases List.mem_cons.1 hentry with rfl | hentry <;>
        rcases List.mem_cons.1 hother with rfl | hother
      · rfl
      · exact absurd hlabel.symm (Nat.ne_of_lt (h.label_lt other hother))
      · exact absurd hlabel (Nat.ne_of_lt (h.label_lt entry hentry))
      · exact h.eq_of_label_eq entry hentry other hother hlabel
  -- a flush leaves the new entry alone, with the label that comes next
  | flushes =>
    refine ⟨fun entry hentry => ?_, fun entry hentry other hother _ => ?_⟩
    · rw [List.mem_singleton.1 hentry]
      exact Nat.lt_succ_self _
    · rw [List.mem_singleton.1 hentry, List.mem_singleton.1 hother]

/-! ### Whole histories -/

/-- From each moment of a history on, the history is one of the cache after that moment. -/
theorem exists_of_trace_eq {cache : Cache} (h : cache.Sound) (hl : cache.Labelled)
    {calls : List Call} {earlier later : List Moment} {m : Moment}
    (htrace : cache.trace calls = earlier ++ m :: later) :
    ∃ after, cache.run calls = m.after.run after ∧ later = m.after.trace after ∧
      m.after.Sound ∧ m.after.Labelled := by
  -- The induction is on the calls, with the moment in question either the first or further on. Both
  -- invariants are carried along, since the rest of the history starts from them.
  induction calls generalizing cache earlier with
  | nil => simp [trace] at htrace
  | cons call calls ih =>
    have hsound := sound_step h call
    have hlabelled := labelled_step hl call
    cases earlier with
    | nil =>
      obtain ⟨rfl, rfl⟩ := List.cons.inj htrace
      exact ⟨calls, rfl, rfl, hsound, hlabelled⟩
    | cons first earlier => exact ih hsound hlabelled (List.cons.inj htrace).2

/-- No history takes back a label. -/
theorem nextLabel_le_run (cache : Cache) (calls : List Call) :
    cache.nextLabel ≤ (cache.run calls).nextLabel := by
  induction calls generalizing cache with
  | nil => exact Nat.le_refl _
  | cons call calls ih => exact Nat.le_trans (nextLabel_le_step cache call) (ih _)

/-- A tree that has been handed out before is kept after a history exactly if it was kept and the
cache has not been emptied. -/
theorem mem_entries_run_iff {cache : Cache} (h : cache.Sound) (calls : List Call)
    {entry : String × SharedExpr} (hlabel : entry.2.label < cache.nextLabel) :
    entry ∈ (cache.run calls).entries ↔
      entry ∈ cache.entries ∧ ∀ m ∈ cache.trace calls, ¬ m.Empties := by
  induction calls generalizing cache with
  | nil => simp [run, trace]
  | cons call calls ih =>
    have hnext := Nat.lt_of_lt_of_le hlabel (nextLabel_le_step cache call)
    show entry ∈ ((cache.step call).run calls).entries ↔ _
    rw [ih (sound_step h call) hnext, mem_entries_step_iff h call hlabel, trace,
      List.forall_mem_cons, and_assoc]

/-- What is kept after a history has been kept all the time, or it has been taken in at some moment
and kept since then. -/
theorem mem_entries_or_keptSince (cache : Cache) (calls : List Call)
    {entry : String × SharedExpr} (hentry : entry ∈ (cache.run calls).entries) :
    (entry ∈ cache.entries ∧ ∀ m ∈ cache.trace calls, ¬ m.Inserts entry.1 ∧ ¬ m.Empties) ∨
      KeptSince entry.1 (cache.trace calls) := by
  induction calls generalizing cache with
  | nil => exact .inl ⟨hentry, nofun⟩
  | cons call calls ih =>
    rcases ih (cache.step call) hentry with ⟨hstep, hlater⟩ | ⟨earlier, m, later, htrace, hkept⟩
    · rcases mem_entries_or_inserts cache call hstep with ⟨hbefore, hfirst⟩ | hinserts
      · exact .inl ⟨hbefore, List.forall_mem_cons.2 ⟨hfirst, hlater⟩⟩
      · exact .inr ⟨[], ⟨cache, call⟩, _, rfl, hinserts, hlater⟩
    · exact .inr ⟨⟨cache, call⟩ :: earlier, m, later, by rw [trace, htrace]; rfl, hkept⟩

/-! ### Answers -/

/-- In a sound cache no text is kept twice, so what is found is what an entry says. -/
theorem get?_eq_some_iff {cache : Cache} (h : cache.Sound) {text : String} {shared : SharedExpr} :
    cache.get? text = some shared ↔ (text, shared) ∈ cache.entries := by
  refine ⟨mem_entries_of_get?, fun hmem => ?_⟩
  cases hget : cache.get? text with
  | none => exact absurd hget (get?_ne_none_iff.2 ⟨_, hmem, rfl⟩)
  | some other =>
    have heq := List.inj_on_of_nodup_map h.nodup (mem_entries_of_get? hget) hmem rfl
    exact congrArg (fun entry => some entry.2) heq

/-- A tree that a call gives is kept after it for the text that the call asks for. -/
theorem Moment.kept_of_answer {m : Moment} {shared : SharedExpr} (h : m.answer? = some shared) :
    ∃ text, m.call = .parse text ∧ (text, shared) ∈ m.after.entries := by
  obtain ⟨cache, call⟩ := m
  cases call with
  | clear => cases h
  | parse text =>
    refine ⟨text, rfl, mem_entries_of_get? (get?_parse_of_ok ?_)⟩
    -- an error gives no tree, so the text has been answered with one
    unfold answer? at h
    dsimp only at h
    cases hparse : (cache.parse text).1 with
    | error e => simp [hparse, Except.toOption] at h
    | ok other =>
      simp only [hparse, Except.toOption, Option.some.injEq] at h
      rw [h]

/-- A text that is not kept is answered with a new label. -/
theorem parse_of_ok {cache : Cache} {text : String} {e : Expr} (hget : cache.get? text = none)
    (hparse : Expr.parse text = .ok e) :
    cache.parse text = (.ok ⟨e, cache.nextLabel⟩, (cache.add text e).2) := by
  simp only [parse, hget, hparse, add_of_get?_eq_none hget]

/-- A new text is taken in alone if the cache is flushed for it, else besides the others. -/
theorem entries_add {cache : Cache} (h : cache.Sound) {text : String} {e : Expr}
    (hget : cache.get? text = none) (hparse : Expr.parse text = .ok e) :
    ((Moment.mk cache (.parse text)).Flushes →
      (cache.add text e).2.entries = [(text, ⟨e, cache.nextLabel⟩)]) ∧
    (¬ (Moment.mk cache (.parse text)).Flushes →
      (cache.add text e).2.entries = (text, ⟨e, cache.nextLabel⟩) :: cache.entries) := by
  rw [flushes_iff h, add_of_get?_eq_none hget]
  constructor
  · rintro ⟨_, _, -, -, -, hfull⟩
    exact congrArg _ (if_pos (Nat.le_of_eq hfull.symm))
  · intro hroom
    refine congrArg _ (if_neg fun hfull => hroom ?_)
    exact ⟨text, e, rfl, hparse, hget, Nat.le_antisymm h.size_le hfull⟩

/-- A call takes in only the text that it asks for, and gives its tree. -/
theorem Moment.answer_of_inserts {m : Moment} {text : String} (h : m.Inserts text) :
    m.call = .parse text ∧ ∃ shared, m.answer? = some shared ∧
      (text, shared) ∈ m.after.entries := by
  obtain ⟨cache, call⟩ := m
  obtain ⟨hbefore, hafter⟩ := h
  unfold after at hafter ⊢
  dsimp only at hbefore hafter ⊢
  have hanswer : ∀ {new e}, cache.get? new = none → Expr.parse new = .ok e →
      (Moment.mk cache (.parse new)).answer? = some ⟨e, cache.nextLabel⟩ := by
    intro new e hnew hparse
    show (cache.parse new).1.toOption = _
    rw [parse_of_ok hnew hparse]
    rfl
  -- The effects that take nothing in are excluded, since the text is kept only after the call.
  have heffect := effect_step cache call
  generalize cache.step call = next at heffect hafter
  cases heffect with
  | clears => exact absurd rfl hafter
  | stays => exact absurd hbefore hafter
  | @inserts new e hnew hparse =>
    obtain ⟨entry, hentry, rfl⟩ := get?_ne_none_iff.1 hafter
    -- an entry that was there before would have been found before
    rcases List.mem_cons.1 hentry with rfl | hold
    · exact ⟨rfl, _, hanswer hnew hparse, hentry⟩
    · exact absurd hbefore (get?_ne_none_iff.2 ⟨entry, hold, rfl⟩)
  | @flushes new e hnew hparse =>
    obtain ⟨entry, hentry, rfl⟩ := get?_ne_none_iff.1 hafter
    obtain rfl := List.mem_singleton.1 hentry
    exact ⟨rfl, _, hanswer hnew hparse, hentry⟩

/-! ### Sharing -/

section

variable {capacity : Nat} {calls : List Call} {text : String} {shared : SharedExpr}

/-- What is kept after a history has been taken in at some moment and kept since then. -/
theorem keptSince_of_mem (h : (text, shared) ∈ ((withCapacity capacity).run calls).entries) :
    KeptSince text ((withCapacity capacity).trace calls) :=
  (mem_entries_or_keptSince _ calls h).resolve_left fun h => List.not_mem_nil h.1

/-- What has been taken in and kept since then is still there, as it was handed out. -/
theorem mem_of_keptSince (h : KeptSince text ((withCapacity capacity).trace calls)) :
    ∃ m ∈ (withCapacity capacity).trace calls, m.call = .parse text ∧ ∃ shared,
      m.answer? = some shared ∧ (text, shared) ∈ ((withCapacity capacity).run calls).entries := by
  obtain ⟨earlier, m, later, htrace, hinserts, hlater⟩ := h
  obtain ⟨hcall, shared, hanswer, hentry⟩ := Moment.answer_of_inserts hinserts
  refine ⟨m, by rw [htrace]; simp, hcall, shared, hanswer, ?_⟩
  obtain ⟨after, hrun, rfl, hsound, hlabelled⟩ := exists_of_trace_eq
    (sound_withCapacity capacity) (labelled_withCapacity capacity) htrace
  rw [hrun, mem_entries_run_iff hsound after (hlabelled.label_lt _ hentry)]
  exact ⟨hentry, fun m' hm' => (hlater m' hm').2⟩

/-- A tree that comes from an earlier call has been kept since that call, and for the text that is
asked for now. -/
theorem mem_of_label_eq (h : (((withCapacity capacity).run calls).parse text).1 = .ok shared)
    {m : Moment} (hm : m ∈ (withCapacity capacity).trace calls) {other : SharedExpr}
    (hanswer : m.answer? = some other) (hlabel : other.label = shared.label) :
    m.call = .parse text ∧ other = shared ∧
      (text, shared) ∈ ((withCapacity capacity).run calls).entries := by
  obtain ⟨text', hcall, hentry⟩ := Moment.kept_of_answer hanswer
  obtain ⟨earlier, later, htrace⟩ := List.append_of_mem hm
  obtain ⟨after, hrun, -, hsound, hlabelled⟩ := exists_of_trace_eq
    (sound_withCapacity capacity) (labelled_withCapacity capacity) htrace
  have hold : shared.label < m.after.nextLabel := hlabel ▸ hlabelled.label_lt _ hentry
  rw [hrun] at h ⊢
  -- a tree that is made now would have a label that no earlier call has seen
  have hkept : (text, shared) ∈ (m.after.run after).entries := by
    -- Only an answer from the entries fits; a failure gives no tree, and a new tree a label too
    -- late.
    obtain ⟨_, hget, heq⟩ | ⟨_, -, heq⟩ | ⟨_, -, -, heq⟩ := parse_cases (m.after.run after) text
    · rw [heq] at h
      cases h
      exact mem_entries_of_get? hget
    · rw [heq] at h
      cases h
    · rw [heq] at h
      cases h
      exact absurd (nextLabel_le_run m.after after) (Nat.not_le_of_lt hold)
  have hsince := ((mem_entries_run_iff hsound after hold).1 hkept).1
  cases hlabelled.eq_of_label_eq _ hentry _ hsince hlabel
  exact ⟨hcall, rfl, hkept⟩

/-- A text is answered with a tree that an earlier call has got exactly if an earlier call has asked
for it with success, and the cache has been neither cleared nor flushed since it was last taken
in. -/
theorem shares_iff (h : (((withCapacity capacity).run calls).parse text).1 = .ok shared) :
    (∃ m ∈ (withCapacity capacity).trace calls, ∃ other, m.answer? = some other ∧
      other.label = shared.label) ↔
    (∃ m ∈ (withCapacity capacity).trace calls, m.call = .parse text ∧ m.answer?.isSome) ∧
      KeptSince text ((withCapacity capacity).trace calls) := by
  constructor
  · rintro ⟨m, hm, other, hanswer, hlabel⟩
    obtain ⟨hcall, -, hkept⟩ := mem_of_label_eq h hm hanswer hlabel
    exact ⟨⟨m, hm, hcall, by rw [hanswer]; rfl⟩, keptSince_of_mem hkept⟩
  · rintro ⟨-, hsince⟩
    obtain ⟨m, hm, -, other, hanswer, hkept⟩ := mem_of_keptSince hsince
    have hsound := sound_run (sound_withCapacity capacity) calls
    rw [parse_of_get? ((get?_eq_some_iff hsound).2 hkept)] at h
    cases h
    exact ⟨m, hm, _, hanswer, rfl⟩

end

/-- After any history, a text is answered with the very tree that an earlier call has got exactly if
an earlier call has asked for it with success, and the cache has been neither cleared nor flushed
since it was last taken in; then all calls that got this tree have asked for the text. The cache is
flushed exactly if the text of a filter is asked for that is not kept while as many texts are kept
as the capacity says. Then only this text is kept; else a new text is taken in besides the
others. -/
theorem sharing_exact {capacity : Nat} {calls : List Call} {cache : Cache}
    (hcache : (withCapacity capacity).run calls = cache) (text : String) :
    (∀ shared, (cache.parse text).1 = .ok shared →
      ((∃ m ∈ (withCapacity capacity).trace calls, ∃ other, m.answer? = some other ∧
          other.label = shared.label) ↔
        (∃ m ∈ (withCapacity capacity).trace calls, m.call = .parse text ∧ m.answer?.isSome) ∧
          KeptSince text ((withCapacity capacity).trace calls)) ∧
      ∀ m ∈ (withCapacity capacity).trace calls, ∀ other, m.answer? = some other →
        other.label = shared.label → m.call = .parse text ∧ other = shared) ∧
    ((Moment.mk cache (.parse text)).Flushes ↔
      (∃ e, Expr.parse text = .ok e) ∧ cache.get? text = none ∧ cache.size = max capacity 1) ∧
    ∀ e, Expr.parse text = .ok e → cache.get? text = none →
      ∃ shared, (cache.parse text).1 = .ok shared ∧
        ((Moment.mk cache (.parse text)).Flushes →
          (cache.parse text).2.entries = [(text, shared)]) ∧
        (¬ (Moment.mk cache (.parse text)).Flushes →
          (cache.parse text).2.entries = (text, shared) :: cache.entries) := by
  subst hcache
  have hsound := sound_run (sound_withCapacity capacity) calls
  have hcapacity := capacity_run (withCapacity capacity) calls
  refine ⟨fun shared h => ⟨shares_iff h, fun m hm other hanswer hlabel => ?_⟩, ?_, ?_⟩
  -- The three parts are the lemmas above, read at the cache that the history leaves.
  · obtain ⟨hcall, heq, -⟩ := mem_of_label_eq h hm hanswer hlabel
    exact ⟨hcall, heq⟩
  · rw [flushes_iff hsound, hcapacity]
    constructor
    · rintro ⟨_, e, ⟨⟩, hparse, hnew, hfull⟩
      exact ⟨⟨e, hparse⟩, hnew, hfull⟩
    · rintro ⟨⟨e, hparse⟩, hnew, hfull⟩
      exact ⟨text, e, rfl, hparse, hnew, hfull⟩
  · intro e hparse hnew
    rw [parse_of_ok hnew hparse]
    exact ⟨_, rfl, entries_add hsound hnew hparse⟩

/-- A tree that is still kept, and then a flush of a cache with room for two. -/
theorem sharing_exact_full_cache :
    (((withCapacity 2).run [.parse "a == 1", .parse "a ==", .parse "b == 2"]).parse "a == 1").1 =
      .ok ⟨.comparison (.field "a") .equal (.integer 1), 0⟩ ∧
    KeptSince "a == 1" ((withCapacity 2).trace [.parse "a == 1", .parse "a ==", .parse "b == 2"]) ∧
    (Moment.mk ((withCapacity 2).run [.parse "a == 1", .parse "a ==", .parse "b == 2"])
      (.parse "c == 3")).Flushes ∧
    ∃ shared, (((withCapacity 2).run [.parse "a == 1", .parse "a ==", .parse "b == 2"]).parse
      "c == 3").2.entries = [("c == 3", shared)] := by
  have hshared : (((withCapacity 2).run [.parse "a == 1", .parse "a ==", .parse "b == 2"]).parse
      "a == 1").1 = .ok ⟨.comparison (.field "a") .equal (.integer 1), 0⟩ :=
    eq_ok_of_toOption (by decide +kernel)
  have hanswer : (Moment.mk (withCapacity 2) (.parse "a == 1")).answer? =
      some ⟨.comparison (.field "a") .equal (.integer 1), 0⟩ := by
    decide +kernel
  have hparse : Expr.parse "c == 3" = .ok (.comparison (.field "c") .equal (.integer 3)) :=
    eq_ok_of_toOption (by decide +kernel)
  have hnew : ((withCapacity 2).run [.parse "a == 1", .parse "a ==", .parse "b == 2"]).get?
      "c == 3" = none := by
    decide +kernel
  have hfull : ((withCapacity 2).run [.parse "a == 1", .parse "a ==", .parse "b == 2"]).size =
      max 2 1 := by
    decide +kernel
  -- the third text meets a full cache, since the malformed one has not been kept
  have hflushes := (sharing_exact rfl "c == 3").2.1.2 ⟨⟨_, hparse⟩, hnew, hfull⟩
  obtain ⟨shared, -, halone, -⟩ := (sharing_exact rfl "c == 3").2.2 _ hparse hnew
  refine ⟨hshared, ?_, hflushes, shared, halone hflushes⟩
  exact (((sharing_exact rfl "a == 1").1 _ hshared).1.1
    ⟨_, List.mem_cons_self, _, hanswer, rfl⟩).2

end MetadataFilter.Cache
