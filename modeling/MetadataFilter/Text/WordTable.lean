/-!
# Tables of words

A table holds words in order, each of them once. A word is looked up by halving: the word in the
middle of the places that are left is the one, or says on which side of it to go on.

Main statements:

* `find?_eq_some_iff`  a word is found at its place
* `contains_eq_mem`    a word is found if and only if the table has it
-/

namespace MetadataFilter.Text

/-- Words in order, each of them once. -/
structure WordTable where
  words : Array String
  /-- Each word is smaller than the next one. -/
  ordered : ∀ p ∈ words.toList.zip words.toList.tail, p.1 < p.2 := by decide +kernel

namespace WordTable

/-- The place of a word, if it has one from `low` up to `high`. -/
def placeBetween (words : Array String) (word : String) (low high : Nat) (h : high ≤ words.size) :
    Option Nat :=
  if hlt : low < high then
    let middle := low + (high - low) / 2
    if words[middle] = word then some middle
    else if words[middle] < word then placeBetween words word (middle + 1) high h
    else placeBetween words word low middle (by omega)
  else none
termination_by high - low

/-- The place of a word. -/
def find? (t : WordTable) (word : String) : Option Nat :=
  placeBetween t.words word 0 t.words.size (Nat.le_refl _)

/-- Whether a table has a word. -/
def contains (t : WordTable) (word : String) : Bool := (t.find? word).isSome

/-- What is found at a place stands there, in whatever order the words are. -/
theorem getElem?_of_placeBetween {words : Array String} {word : String} {low high i : Nat}
    {h : high ≤ words.size} (hi : placeBetween words word low high h = some i) :
    words[i]? = some word := by
  fun_induction placeBetween words word low high h with
  | case1 low high h hlt middle heq =>
    have hmiddle : middle = i := Option.some.inj hi
    rw [← hmiddle, Array.getElem?_eq_getElem (by omega), heq]
  | case2 low high h hlt middle hne hless ih => exact ih hi
  | case3 low high h hlt middle hne hless ih => exact ih hi
  | case4 => cases hi

theorem lt_next (t : WordTable) {i : Nat} (h : i + 1 < t.words.size) :
    t.words[i] < t.words[i + 1] := by
  refine t.ordered (t.words[i], t.words[i + 1]) (List.mem_iff_getElem.2 ⟨i, ?_, ?_⟩)
  · simp
    omega
  · simp

/-- Words at earlier places are smaller ones. -/
theorem lt_of_lt (t : WordTable) {i j : Nat} (hij : i < j) (hj : j < t.words.size) :
    t.words[i] < t.words[j] := by
  induction hij with
  | refl => exact t.lt_next hj
  | @step k hik ih => exact String.lt_trans (ih (by omega)) (t.lt_next hj)

/-- Smaller words are at earlier places, so no word is at two of them. -/
theorem lt_iff_lt (t : WordTable) {i j : Nat} (hi : i < t.words.size) (hj : j < t.words.size) :
    t.words[i] < t.words[j] ↔ i < j := by
  refine ⟨fun hless => ?_, fun hij => t.lt_of_lt hij hj⟩
  rcases Nat.lt_trichotomy i j with hij | rfl | hji
  · exact hij
  · exact absurd hless (String.lt_irrefl _)
  · exact absurd (String.lt_trans hless (t.lt_of_lt hji hi)) (String.lt_irrefl _)

/-- No word is missed: all places that are left out have smaller words, or all have greater ones. -/
theorem placeBetween_getElem (t : WordTable) {low high k : Nat} {h : high ≤ t.words.size}
    (hlow : low ≤ k) (hhigh : k < high) :
    placeBetween t.words t.words[k] low high h = some k := by
  generalize hk : t.words[k] = word
  fun_induction placeBetween t.words word low high h with
  | case1 low high h hlt middle heq =>
    -- the word in the middle is the one looked for, and no other place has it
    have hbefore := t.lt_iff_lt (i := middle) (j := k) (by omega) (by omega)
    have hbehind := t.lt_iff_lt (i := k) (j := middle) (by omega) (by omega)
    rw [heq, hk, iff_false_left (String.lt_irrefl _)] at hbefore hbehind
    exact congrArg some (by omega)
  | case2 low high h hlt middle hne hless ih =>
    -- the words are in order, so the place is behind the middle
    have hmiddle : middle < k := (t.lt_iff_lt (by omega) (by omega)).1 (hk ▸ hless)
    exact ih hmiddle hhigh hk
  | case3 low high h hlt middle hne hless ih =>
    -- otherwise it is in front of the middle
    have hk_le : k ≤ middle := Nat.le_of_not_lt fun hlt =>
      hless (hk ▸ (t.lt_iff_lt (by omega) (by omega)).2 hlt)
    have hk_ne : k ≠ middle := by
      rintro rfl
      exact hne hk
    exact ih hlow (by omega) hk
  | case4 => omega

/-- A word is found at its place. -/
theorem find?_eq_some_iff (t : WordTable) {word : String} {i : Nat} :
    t.find? word = some i ↔ t.words[i]? = some word := by
  refine ⟨getElem?_of_placeBetween, fun h => ?_⟩
  obtain ⟨hi, rfl⟩ := Array.getElem?_eq_some_iff.1 h
  exact t.placeBetween_getElem (Nat.zero_le i) hi

/-- A word is found if and only if the table has it. -/
theorem contains_eq_mem (t : WordTable) (word : String) :
    t.contains word = decide (word ∈ t.words) := by
  rw [Bool.eq_iff_iff, decide_eq_true_iff, contains, Option.isSome_iff_exists,
    Array.mem_iff_getElem?]
  exact exists_congr fun i => t.find?_eq_some_iff

end WordTable

end MetadataFilter.Text
