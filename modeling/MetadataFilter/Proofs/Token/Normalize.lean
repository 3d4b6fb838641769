import MetadataFilter.Proofs.Token.Boundary

/-!
# The word WHERE in front of a filter

A filter is read with the word WHERE in front, which is put there unless it is the first token. What
comes after a token of a filter can be replaced without changing that, nor any token up to it.

## Key results

- `normalize_of_startsWithWhere`, `normalize_of_not_startsWithWhere`: when the word is put in front
- `exists_stream_normalize`: the tokens of a filter start with the word WHERE
- `stream_normalize_replace`: what comes after a token can be replaced without changing the tokens
  up to it
-/

namespace MetadataFilter

open Text

/-! ### The first token -/

/-- The first token of a text is the word WHERE. -/
def StartsWithWhere (cs : List Char) : Prop :=
  ∃ lexeme, Token.front (cs.dropWhile isBlank) = .token .whereWord lexeme

/-- The word WHERE is not put in front twice. -/
theorem normalize_of_startsWithWhere {text : String} (h : StartsWithWhere text.toList) :
    normalize text = text := by
  obtain ⟨lexeme, hfront⟩ := h
  have hnext : (Cursor.ofString text).next =
      (.ok ⟨.whereWord, String.ofList lexeme, (Cursor.ofString text).skipBlank.position⟩,
        (Cursor.ofString text).skipBlank.drop lexeme.length) := by
    have hskip : (Cursor.ofString text).skipBlank.rest = text.toList.dropWhile isBlank := rfl
    simp only [Cursor.next, hskip, hfront]
  unfold normalize
  rw [hnext]
  rfl

/-- Without the word WHERE it is put in front, and the tokens of the text stand behind it. -/
theorem normalize_of_not_startsWithWhere {text : String} (h : ¬ StartsWithWhere text.toList) :
    normalize text = "WHERE " ++ text ∧
      Token.stream (normalize text) =
        .next ⟨.whereWord, "WHERE", .start⟩ (⟨text.toList, ⟨6, 1, 6⟩⟩ : Cursor).stream := by
  -- what comes first is no such token, or is a fault
  have hkind : ∀ t s, (Cursor.ofString text).next = (.ok t, s) → t.kind ≠ .whereWord := by
    intro t s hnext hk
    unfold Cursor.next at hnext
    simp only at hnext
    split at hnext
    · next kind lexeme hfront =>
      cases hnext
      subst hk
      exact h ⟨lexeme, hfront⟩
    · simp at hnext
  refine ⟨?_, Cursor.stream_normalize hkind⟩
  unfold normalize
  split
  · next t s hnext => rw [if_neg (hkind t s hnext)]
  · rfl

/-- The first token of a text tells whether the text starts with the word WHERE. -/
theorem startsWithWhere_iff {s : Cursor} {t : Token} {after : Token.Stream}
    (h : s.stream = .next t after) : StartsWithWhere s.rest ↔ t.kind = .whereWord := by
  obtain ⟨blanks, rest, hleads, -⟩ := Cursor.exists_leads h
  unfold StartsWithWhere
  rw [hleads.text_eq, hleads.ends.dropWhile_append hleads.blank, hleads.front_eq]
  simp

/-- The tokens of a filter start with the word WHERE. -/
theorem exists_stream_normalize (text : String) :
    ∃ (opening : Token) (after : Token.Stream),
      Token.stream (normalize text) = .next opening after ∧ opening.kind = .whereWord := by
  by_cases hwhere : StartsWithWhere text.toList
  · rw [normalize_of_startsWithWhere hwhere]
    obtain ⟨lexeme, hfront⟩ := hwhere
    have hstream := Cursor.stream_eq (Cursor.ofString text)
    have hskip : (Cursor.ofString text).skipBlank.rest = text.toList.dropWhile isBlank := rfl
    simp only [hskip, hfront, reduceCtorEq, if_false] at hstream
    exact ⟨_, _, hstream, rfl⟩
  · exact ⟨_, _, (normalize_of_not_startsWithWhere hwhere).2, rfl⟩

/-! ### What comes after a token -/

/-- What comes after a token of a filter can be replaced by a blank and any other text without
changing the tokens up to it. -/
theorem stream_normalize_replace {text : String} {opening t : Token} {ts : List Token}
    {after : Token.Stream}
    (h : Token.stream (normalize text) = (opening :: ts).foldr .next (.next t after)) :
    ∃ before kept dropped : String, normalize text = before ++ t.lexeme ++ dropped ∧
      t.position = Position.start.advanceBy before.toList ∧ text = kept ++ dropped ∧
      ∀ (blank : Char) (other : String), isBlank blank = true →
        Token.stream (normalize (kept ++ String.singleton blank ++ other)) =
          (opening :: ts).foldr .next (.next t
            (⟨blank :: other.toList, t.position.advanceBy t.lexeme.toList⟩ : Cursor).stream) := by
  by_cases hwhere : StartsWithWhere text.toList
  -- the word WHERE is one of the tokens that stay
  · rw [normalize_of_startsWithWhere hwhere] at h ⊢
    have hopen : opening.kind = .whereWord := (startsWithWhere_iff h).1 hwhere
    obtain ⟨before, rest, htext, hposition, hreplace⟩ := Cursor.exists_replace h
    have htext : text.toList = before ++ (t.lexeme.toList ++ rest) := htext
    refine ⟨String.ofList before, String.ofList before ++ t.lexeme, String.ofList rest,
      ?_, ?_, ?_, fun blank other hblank => ?_⟩
    · simp [← String.toList_inj, htext]
    · rw [hposition, String.toList_ofList]
      rfl
    · simp [← String.toList_inj, htext]
    · have hread := hreplace blank other.toList hblank
      have hnew : (String.ofList before ++ t.lexeme ++ String.singleton blank ++ other).toList =
          before ++ (t.lexeme.toList ++ blank :: other.toList) := by simp
      rw [← hnew] at hread
      rw [normalize_of_startsWithWhere ((startsWithWhere_iff hread).2 hopen)]
      exact hread
  -- the word WHERE is put in front again, as the first token of the text stays
  · obtain ⟨hnormalize, hstream⟩ := normalize_of_not_startsWithWhere hwhere
    rw [hstream] at h
    injection h with hopen h
    obtain ⟨before, rest, htext, hposition, hreplace⟩ := Cursor.exists_replace h
    have htext : text.toList = before ++ (t.lexeme.toList ++ rest) := htext
    have hsix : Position.start.advanceBy "WHERE ".toList = ⟨6, 1, 6⟩ := by decide
    refine ⟨"WHERE " ++ String.ofList before, String.ofList before ++ t.lexeme,
      String.ofList rest, ?_, ?_, ?_, fun blank other hblank => ?_⟩
    · simp [← String.toList_inj, hnormalize, htext]
    · rw [hposition, String.toList_append, Position.advanceBy_append, hsix, String.toList_ofList]
    · simp [← String.toList_inj, htext]
    · have hread := hreplace blank other.toList hblank
      have hnew : (String.ofList before ++ t.lexeme ++ String.singleton blank ++ other).toList =
          before ++ (t.lexeme.toList ++ blank :: other.toList) := by simp
      rw [← hnew] at hread
      have hfirst : ¬ StartsWithWhere
          (String.ofList before ++ t.lexeme ++ String.singleton blank ++ other).toList := by
        -- the first token stays, be it the one before the replacement or an earlier one
        intro hstarts
        cases ts with
        | nil => exact hwhere ((startsWithWhere_iff h).2 ((startsWithWhere_iff hread).1 hstarts))
        | cons u ts =>
          exact hwhere ((startsWithWhere_iff h).2 ((startsWithWhere_iff hread).1 hstarts))
      rw [(normalize_of_not_startsWithWhere hfirst).2, hread, hopen]
      rfl

/-- A filter that has a token after the word WHERE is not blank. -/
theorem not_all_blank_of_stream {text : String} {opening t : Token} {ts : List Token}
    {after : Token.Stream}
    (h : Token.stream (normalize text) = (opening :: ts).foldr .next (.next t after)) :
    text.toList.all isBlank = false := by
  rw [Bool.eq_false_iff]
  intro hblank
  obtain ⟨position, hstream⟩ := Cursor.stream_normalize_of_all_blank (List.all_eq_true.1 hblank)
  rw [hstream] at h
  injection h with _ h
  cases ts <;> cases h

end MetadataFilter
