import MetadataFilter.Proofs.Text.Span
import MetadataFilter.Text.Quoted

/-!
# Reading text with doubled quotes

What stands between quotes that are written twice inside of them.

## Key results

- `readDoubled_double`: a text is read back from between quotes
-/

namespace MetadataFilter.Text

/-- What stands between quotes of which the first has been read, and what is left after them. -/
def readDoubled (quote : Char) : List Char → Option (List Char × List Char)
  | [] => none
  | [c] => if c = quote then some ([], []) else none
  | c :: d :: rest =>
    if c = quote then
      if d = quote then (readDoubled quote rest).map fun r => (quote :: r.1, r.2)
      else some ([], d :: rest)
    else (readDoubled quote (d :: rest)).map fun r => (c :: r.1, r.2)

/-- A text is read back from between quotes, in front of anything but another quote. -/
theorem readDoubled_double {quote : Char} {rest : List Char}
    (hrest : Ends (· == quote) rest) (cs : List Char) :
    readDoubled quote (double quote cs ++ quote :: rest) = some (cs, rest) := by
  induction cs with
  | nil =>
    cases rest with
    | nil => simp [double, readDoubled]
    | cons c rest =>
      have hc : c ≠ quote := by simpa using hrest c rfl
      simp [double, readDoubled, hc]
  | cons c cs ih =>
    -- at least the closing quote follows, so the text is read two characters at a time
    obtain ⟨d, tail, htail⟩ : ∃ d tail, double quote cs ++ quote :: rest = d :: tail :=
      List.exists_cons_of_ne_nil (by simp)
    -- a quote has been doubled, and any other character stands for itself
    by_cases hc : c = quote
    · have hdouble : double quote (c :: cs) = c :: c :: double quote cs := by simp [double, hc]
      rw [hdouble, hc]
      show readDoubled quote (quote :: quote :: (double quote cs ++ quote :: rest)) = _
      rw [readDoubled, if_pos rfl, if_pos rfl, ih]
      rfl
    · have hdouble : double quote (c :: cs) = c :: double quote cs := by simp [double, hc]
      rw [hdouble, List.cons_append]
      rw [htail] at ih ⊢
      rw [readDoubled, if_neg hc, ih]
      rfl

/-- What is written between quotes, as characters. -/
theorem toList_quoteDoubled (quote : Char) (s : String) :
    (quoteDoubled quote s).toList = quote :: (double quote s.toList ++ [quote]) := by
  simp [quoteDoubled]

end MetadataFilter.Text
