import MetadataFilter.Cache

/-!
# A cache gives what parsing gives

Whatever a cache has been asked for before, a text is answered with what parsing it anew gives. The
invariant `Sound` carries this along a history of calls: all trees that are kept are those of their
texts, no text is kept twice, and no more texts are kept than the capacity says.

## Key results

- `sound_step`, `sound_run`: every call keeps the invariant, and so does every history
- `answer_parse`: the answer to a text is what parsing it gives
- `parse_transparent`: answers and contents after any history
-/

namespace MetadataFilter

/-- What a cache can be asked to do. -/
inductive Cache.Call where
  | parse (text : String)
  | clear
deriving DecidableEq

namespace Cache

/-- The cache after a call. -/
def step (cache : Cache) : Call → Cache
  | .parse text => (cache.parse text).2
  | .clear => cache.clear

/-- The cache after a history of calls, the earliest first. -/
def run (cache : Cache) (calls : List Call) : Cache := calls.foldl step cache

/-- What is kept is right, and there is room for it. -/
structure Sound (cache : Cache) : Prop where
  parse_eq : ∀ entry ∈ cache.entries, Expr.parse entry.1 = .ok entry.2.expr
  nodup : (cache.entries.map Prod.fst).Nodup
  size_le : cache.size ≤ cache.capacity
  capacity_pos : 0 < cache.capacity

/-- A cache that keeps nothing keeps nothing wrong. -/
theorem sound_withCapacity (capacity : Nat) : (withCapacity capacity).Sound where
  parse_eq := by simp [withCapacity]
  nodup := List.nodup_nil
  size_le := Nat.zero_le _
  capacity_pos := capacity_withCapacity_pos capacity

/-! ### One call -/

/-- A text that is kept is a key of an entry. -/
theorem mem_entries_of_get? {cache : Cache} {text : String} {shared : SharedExpr}
    (h : cache.get? text = some shared) : (text, shared) ∈ cache.entries := by
  obtain ⟨before, after, hentries, -⟩ := List.lookup_eq_some_iff.1 h
  rw [hentries]
  exact List.mem_append_right before List.mem_cons_self

/-- A text that is looked for in vain is no key of an entry. -/
theorem notMem_of_get?_eq_none {cache : Cache} {text : String} (h : cache.get? text = none) :
    text ∉ cache.entries.map Prod.fst := by
  intro hmem
  obtain ⟨entry, hentry, rfl⟩ := List.mem_map.1 hmem
  have hne := List.lookup_eq_none_iff.1 h entry hentry
  simp at hne

/-- All that asking for a text can do: it is kept, it is no filter, or its tree is taken in. -/
theorem parse_cases (cache : Cache) (text : String) :
    (∃ shared, cache.get? text = some shared ∧ cache.parse text = (.ok shared, cache)) ∨
    (∃ e, Expr.parse text = .error e ∧ cache.parse text = (.error e, cache)) ∨
    ∃ expr, cache.get? text = none ∧ Expr.parse text = .ok expr ∧
      cache.parse text = (.ok ⟨expr, cache.nextLabel⟩, (cache.add text expr).2) := by
  cases hget : cache.get? text with
  | some shared => exact .inl ⟨shared, rfl, parse_of_get? hget⟩
  | none =>
    cases hparse : Expr.parse text with
    | error e => exact .inr (.inl ⟨e, rfl, parse_of_error hget hparse⟩)
    | ok expr =>
      refine .inr (.inr ⟨expr, rfl, rfl, ?_⟩)
      simp only [parse, hget, hparse, add_of_get?_eq_none hget]

/-- No call changes the capacity. -/
theorem capacity_step (cache : Cache) (call : Call) :
    (cache.step call).capacity = cache.capacity := by
  cases call with
  | clear => rfl
  | parse text =>
    show (cache.parse text).2.capacity = _
    obtain ⟨_, -, heq⟩ | ⟨_, -, heq⟩ | ⟨_, hnew, -, heq⟩ := parse_cases cache text
    · rw [heq]
    · rw [heq]
    · rw [heq, add_of_get?_eq_none hnew]

/-- A new text is taken in with its tree, after a full cache has been emptied. -/
theorem Sound.add {cache : Cache} (h : cache.Sound) {text : String} {expr : Expr}
    (hnew : cache.get? text = none) (hparse : Expr.parse text = .ok expr) :
    (cache.add text expr).2.Sound := by
  -- the entries besides the new one are all of the old ones, or none of them
  have hkept :
      (if cache.capacity ≤ cache.size then [] else cache.entries).Sublist cache.entries := by
    split
    · exact List.nil_sublist _
    · exact List.Sublist.refl _
  have hsize := size_add_le h.capacity_pos hnew expr
  rw [add_of_get?_eq_none hnew] at hsize ⊢
  refine ⟨?_, ?_, hsize, h.capacity_pos⟩
  · intro entry hentry
    rcases List.mem_cons.1 hentry with rfl | hentry
    · exact hparse
    · exact h.parse_eq entry (hkept.subset hentry)
  -- No text is kept twice: the old entries had none twice, and the new text was not among them.
  · have htexts := hkept.map Prod.fst
    refine List.nodup_cons.2 ⟨?_, htexts.nodup h.nodup⟩
    exact fun hmem => notMem_of_get?_eq_none hnew (htexts.subset hmem)

/-- Every call keeps the invariant. -/
theorem sound_step {cache : Cache} (h : cache.Sound) (call : Call) : (cache.step call).Sound := by
  cases call with
  | clear => exact ⟨by simp [step, clear], List.nodup_nil, Nat.zero_le _, h.capacity_pos⟩
  | parse text =>
    show (cache.parse text).2.Sound
    -- Only where a tree is taken in is there anything to show; the two other answers leave the
    -- cache as it was.
    obtain ⟨_, -, heq⟩ | ⟨_, -, heq⟩ | ⟨expr, hnew, hparse, heq⟩ := parse_cases cache text
    · rw [heq]
      exact h
    · rw [heq]
      exact h
    · rw [heq]
      exact h.add hnew hparse

/-- The answer to a text is what parsing it gives. -/
theorem answer_parse {cache : Cache} (h : cache.Sound) (text : String) :
    (cache.parse text).1.map SharedExpr.expr = Expr.parse text := by
  obtain ⟨shared, hget, heq⟩ | ⟨e, hparse, heq⟩ | ⟨expr, -, hparse, heq⟩ := parse_cases cache text
  · rw [heq, h.parse_eq _ (mem_entries_of_get? hget)]
    rfl
  · rw [heq, hparse]
    rfl
  · rw [heq, hparse]
    rfl

/-- A text that is answered with an error leaves the cache as it was. -/
theorem parse_snd_of_error {cache : Cache} {text : String} {e : FilterError}
    (h : (cache.parse text).1 = .error e) : (cache.parse text).2 = cache := by
  obtain ⟨_, -, heq⟩ | ⟨_, -, heq⟩ | ⟨_, -, -, heq⟩ := parse_cases cache text
  · rw [heq]
  · rw [heq]
  · rw [heq] at h
    cases h

/-- A text that is answered with a tree is kept with that tree. -/
theorem get?_parse_of_ok {cache : Cache} {text : String} {shared : SharedExpr}
    (h : (cache.parse text).1 = .ok shared) : (cache.parse text).2.get? text = some shared := by
  obtain ⟨_, hget, heq⟩ | ⟨_, -, heq⟩ | ⟨expr, hnew, -, heq⟩ := parse_cases cache text
  · rw [heq] at h ⊢
    cases h
    exact hget
  · rw [heq] at h
    cases h
  · rw [heq] at h ⊢
    cases h
    exact get?_add_self hnew expr

/-! ### Histories -/

/-- Every history keeps the invariant. -/
theorem sound_run {cache : Cache} (h : cache.Sound) (calls : List Call) :
    (cache.run calls).Sound := by
  induction calls generalizing cache with
  | nil => exact h
  | cons call calls ih => exact ih (sound_step h call)

/-- No history changes the capacity. -/
theorem capacity_run (cache : Cache) (calls : List Call) :
    (cache.run calls).capacity = cache.capacity := by
  induction calls generalizing cache with
  | nil => rfl
  | cons call calls ih => exact (ih _).trans (capacity_step cache call)

/-- After any history of calls, a text is answered with what parsing it gives, an answer that is an
error changes nothing, and one that is a tree is kept. What is kept are the trees of texts, no text
is kept twice, and no more texts are kept than the capacity says; none count as one. -/
theorem parse_transparent (capacity : Nat) (calls : List Call) :
    (∀ text, (((withCapacity capacity).run calls).parse text).1.map SharedExpr.expr =
      Expr.parse text) ∧
    (∀ text e, (((withCapacity capacity).run calls).parse text).1 = .error e →
      (((withCapacity capacity).run calls).parse text).2 = (withCapacity capacity).run calls) ∧
    (∀ text shared, (((withCapacity capacity).run calls).parse text).1 = .ok shared →
      (((withCapacity capacity).run calls).parse text).2.get? text = some shared) ∧
    (∀ entry ∈ ((withCapacity capacity).run calls).entries,
      Expr.parse entry.1 = .ok entry.2.expr) ∧
    (((withCapacity capacity).run calls).entries.map Prod.fst).Nodup ∧
    ((withCapacity capacity).run calls).size ≤ max capacity 1 ∧
    (((withCapacity capacity).run calls).isEmpty = true ↔
      ((withCapacity capacity).run calls).size = 0) := by
  have hsound := sound_run (sound_withCapacity capacity) calls
  have hcapacity := capacity_run (withCapacity capacity) calls
  -- only what holds after any calls is used from here on
  generalize (withCapacity capacity).run calls = cache at hsound hcapacity ⊢
  refine ⟨answer_parse hsound, fun _ _ => parse_snd_of_error, fun _ _ => get?_parse_of_ok,
    hsound.parse_eq, hsound.nodup, ?_, isEmpty_iff_size⟩
  exact Nat.le_trans hsound.size_le (Nat.le_of_eq hcapacity)

end Cache

end MetadataFilter
