import MetadataFilter.Expr.Parser
import MetadataFilter.Proofs.Text.Span
import MetadataFilter.Render.Construct

/-!
# Numbers that have been written

All languages with infix operators write numbers alike: a minus sign or none, digits, and for a
decimal a point and digits after it. Without its sign such a number is read back as the value it was
written for.

## Key results

- `toList_integerText`, `toList_text`: what is written
- `isDigit_of_mem_split`, `split_ne_nil`: on both sides of a point are digits
- `numberValue?_digits`, `numberValue?_positional`: what is written is read back
- `Value.render_cases`: what is written for a value
-/

namespace MetadataFilter

/-- The sign in front of a number. -/
def Text.sign (negative : Bool) : List Char := if negative then ['-'] else []

/-- An integer is written as its sign and the digits of its distance from zero. -/
theorem Text.toList_integerText (n : Int) :
    (integerText n).toList = sign (n < 0) ++ digits n.natAbs := by
  unfold integerText sign
  split
  · next h => simp [h]
  · next h => simp [h]

namespace Decimal

/-- There is a digit on both sides of the point, also for zero and for whole numbers. -/
theorem split_ne_nil (d : Decimal) : d.split.1 ≠ [] ∧ d.split.2 ≠ [] := by
  have hpos : 0 < (Text.digits d.coefficient).length :=
    List.length_pos_iff.2 (Text.digits_ne_nil _)
  unfold split
  simp only
  -- a whole number is filled up with zeros and gets one zero behind the point
  split
  · exact ⟨by simp [Text.digits_ne_nil], by simp⟩
  -- otherwise there are more digits than there are places behind the point
  · next h =>
    constructor
    · apply List.ne_nil_of_length_pos
      simp only [List.length_take, List.length_append, List.length_replicate]
      omega
    · apply List.ne_nil_of_length_pos
      simp only [List.length_drop, List.length_append, List.length_replicate]
      omega

/-- On both sides of the point are digits. -/
theorem isDigit_of_mem_split (d : Decimal) :
    (∀ c ∈ d.split.1, c.isDigit = true) ∧ ∀ c ∈ d.split.2, c.isDigit = true := by
  -- zeros are put in front of the digits or after them, and the point somewhere between
  have hdigits : ∀ n, ∀ c ∈ List.replicate n '0' ++ Text.digits d.coefficient,
      c.isDigit = true := by
    intro n c hc
    rcases List.mem_append.1 hc with hc | hc
    · rw [List.eq_of_mem_replicate hc]
      decide
    · exact Text.isDigit_of_mem_digits hc
  unfold split
  simp only
  split
  -- a whole number, whose fraction is a single zero
  · constructor
    · intro c hc
      rcases List.mem_append.1 hc with hc | hc
      · exact Text.isDigit_of_mem_digits hc
      · rw [List.eq_of_mem_replicate hc]
        decide
    · intro c hc
      rw [List.mem_singleton.1 hc]
      decide
  -- both parts are cut out of the same digits
  · exact ⟨fun c hc => hdigits _ c (List.mem_of_mem_take hc),
      fun c hc => hdigits _ c (List.mem_of_mem_drop hc)⟩

end Decimal

/-- A double is written as its sign and the digits of the shortest decimal for it. -/
theorem Double.toList_text (negative : Bool) (rank : Fin ranks) :
    (finite negative rank).text.toList =
      Text.sign negative ++ (Decimal.shortest .up rank).positional := by
  cases negative <;> simp [text, signed, Text.sign]

namespace Expr.Parser

/-! ### Reading back -/

/-- An integer is read back from its digits and its sign. -/
theorem numberValue?_digits (n : Int64) :
    numberValue? .integer (n.toInt < 0) (Text.digits n.toInt.natAbs) = some (.integer n) := by
  -- the range of the type bounds what is written, so the reader's check passes
  have hmin := n.minValue_le_toInt
  have hmax := n.toInt_le
  -- the sign and the distance from zero make up the number
  have hsigned : (if decide (n.toInt < 0) = true then -(n.toInt.natAbs : Int)
      else n.toInt.natAbs) = n.toInt := by
    by_cases h : n.toInt < 0
    · rw [if_pos (decide_eq_true h)]
      omega
    · rw [if_neg (by simpa using h)]
      omega
  unfold numberValue?
  simp only [if_pos, Text.ofDigits_digits, hsigned]
  rw [if_pos ⟨hmin, hmax⟩, Int64.ofInt_toInt]

/-- A decimal is read back from its digits and its sign. -/
theorem numberValue?_positional (negative : Bool) (rank : Fin Double.ranks) :
    numberValue? .decimal negative (Decimal.shortest .up rank).positional =
      some (.decimal (.finite negative rank)) := by
  -- only the rank of the shortest decimal matters from here on
  have hrank : (Decimal.shortest .up rank).rank = rank := Decimal.rank_shortest _ _
  generalize Decimal.shortest .up rank = d at hrank ⊢
  obtain ⟨hwhole, hfraction⟩ := d.isDigit_of_mem_split
  -- the point separates the digits again
  have hpoint : Text.Ends Char.isDigit ('.' :: d.split.2) := Text.Ends.cons (by decide) _
  have htake : d.positional.takeWhile Char.isDigit = d.split.1 := hpoint.takeWhile_append hwhole
  have hdrop : d.positional.dropWhile Char.isDigit = '.' :: d.split.2 :=
    hpoint.dropWhile_append hwhole
  have hvalue : (Decimal.ofPlain d.split.1 d.split.2).toDouble negative =
      .finite negative rank := by
    rw [Decimal.toDouble, Decimal.rank_ofPlain_split, hrank, Double.ofRank_of_lt rank.isLt]
  -- the branch for integers is not taken, and the value is finite
  unfold numberValue?
  rw [if_neg (by decide)]
  simp only [htake, hdrop, List.drop_succ_cons, List.drop_zero, hvalue, Double.isFinite, if_true]

end Expr.Parser

/-! ### Numbers in front of a text -/

namespace Text

/-- Digits, or digits around a point. -/
inductive IsNumeral : List Char → Prop
  | whole {ds : List Char} (ne_nil : ds ≠ []) (isDigit : ∀ c ∈ ds, c.isDigit = true) : IsNumeral ds
  | fraction {ds es : List Char} (ne_nil : ds ≠ []) (isDigit : ∀ c ∈ ds, c.isDigit = true)
      (isDigit_fraction : ∀ c ∈ es, c.isDigit = true) : IsNumeral (ds ++ '.' :: es)

/-- The digits at the front of a text, with a point among them or not, and what is left. -/
def readNumeral (cs : List Char) : List Char × List Char :=
  match cs.dropWhile Char.isDigit with
  | '.' :: rest =>
    (cs.takeWhile Char.isDigit ++ '.' :: rest.takeWhile Char.isDigit, rest.dropWhile Char.isDigit)
  | rest => (cs.takeWhile Char.isDigit, rest)

/-- The value of digits with their sign: an integer without a point, a decimal with one. -/
def numeralValue? (negative : Bool) (ds : List Char) : Option Value :=
  Expr.Parser.numberValue? (if '.' ∈ ds then .decimal else .integer) negative ds

/-- A numeral starts with a digit. -/
theorem IsNumeral.exists_cons {ds : List Char} (h : IsNumeral ds) :
    ∃ c cs, ds = c :: cs ∧ c.isDigit = true := by
  cases h with
  | whole ne_nil isDigit =>
    obtain ⟨c, cs, rfl⟩ := List.exists_cons_of_ne_nil ne_nil
    exact ⟨c, cs, rfl, isDigit c (by simp)⟩
  | fraction ne_nil isDigit =>
    obtain ⟨c, cs, rfl⟩ := List.exists_cons_of_ne_nil ne_nil
    exact ⟨c, _, rfl, isDigit c (by simp)⟩

/-- A number is found whole in front of what does not carry it on. -/
theorem IsNumeral.readNumeral_append {ds rest : List Char} (h : IsNumeral ds)
    (hrest : Ends (fun c => c.isDigit || c == '.') rest) :
    readNumeral (ds ++ rest) = (ds, rest) := by
  have hdigits : Ends Char.isDigit rest := fun c hc => (Bool.or_eq_false_iff.1 (hrest c hc)).1
  unfold readNumeral
  cases h with
  -- without a point the digits go up to what follows, which is no point either
  | whole ne_nil isDigit =>
    rw [hdigits.takeWhile_append isDigit, hdigits.dropWhile_append isDigit]
    split
    · next tail =>
      have := hrest '.' rfl
      simp at this
    · rfl
  | @fraction ds es ne_nil isDigit isDigit_fraction =>
    -- the digits before the point end at the point
    have hpoint : Ends Char.isDigit ('.' :: (es ++ rest)) := Ends.cons (by decide) _
    rw [List.append_assoc, List.cons_append, hpoint.takeWhile_append isDigit,
      hpoint.dropWhile_append isDigit]
    simp only [hdigits.takeWhile_append isDigit_fraction,
      hdigits.dropWhile_append isDigit_fraction]

end Text

/-- What has been written for a value: a number with its sign, a truth value, or what a language
writes for a string. -/
theorem Value.render_cases {text : String → Rendered String} {v : Value} {s : String}
    (h : v.render text = .ok s) :
    (∃ negative ds, s.toList = Text.sign negative ++ ds ∧ Text.IsNumeral ds ∧
      Text.numeralValue? negative ds = some v) ∨
    (∃ b, v = .boolean b ∧ s = if b then "true" else "false") ∨
    ∃ t, v = .text t ∧ text t = .ok s := by
  cases v with
  -- an integer has digits only, so it is read without a point
  | integer n =>
    cases h
    have hpoint : '.' ∉ Text.digits n.toInt.natAbs := by
      intro h
      exact absurd (Text.isDigit_of_mem_digits h) (by decide)
    refine .inl ⟨_, _, Text.toList_integerText _, .whole (Text.digits_ne_nil _) ?_, ?_⟩
    · exact fun c hc => Text.isDigit_of_mem_digits hc
    · rw [Text.numeralValue?, if_neg hpoint]
      exact Expr.Parser.numberValue?_digits n
  | decimal x =>
    cases x with
    -- a decimal has a point even if it is a whole number
    | finite negative rank =>
      cases h
      obtain ⟨hwhole, hfraction⟩ := (Decimal.shortest .up rank).isDigit_of_mem_split
      -- the point among the digits makes them a decimal
      have hpoint : '.' ∈ (Decimal.shortest .up rank).positional := by simp [Decimal.positional]
      refine .inl ⟨negative, _, Double.toList_text _ _, .fraction (Decimal.split_ne_nil _).1 hwhole
        hfraction, ?_⟩
      show Text.numeralValue? negative (Decimal.shortest .up rank).positional = _
      rw [Text.numeralValue?, if_pos hpoint]
      exact Expr.Parser.numberValue?_positional negative rank
    -- a decimal that is not finite is not written at all
    | infinite negative => cases h
    | notANumber => cases h
  | text t => exact .inr (.inr ⟨t, rfl, h⟩)
  | boolean b =>
    cases h
    exact .inr (.inl ⟨b, rfl, rfl⟩)

end MetadataFilter
