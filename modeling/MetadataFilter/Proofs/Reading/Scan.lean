import Mathlib.Data.List.Forall2
import MetadataFilter.Proofs.Text.Numeral

/-!
# Cutting texts of other languages into lexemes

What has been written in another language is read back in two steps, of which the first one is
this: `scan front` cuts a text into lexemes, where `front` says which lexeme stands at the front
and what is left after it. The second step is in `Reading.Climb`.

## Key results

- `Scans.append`: pieces that are cut apart from each other
- `Scans.lexeme`: a lexeme that is found in front of anything that does not carry it on
- `Scans.run`, `Scans.word`, `Scans.numeral`: runs of characters, words and numbers
- `Scans.intercalate`: pieces with commas between them
-/

namespace MetadataFilter.Reading

open Text

/-- What stands at the front of a text, and what is left after it. -/
abbrev Front (τ : Type) := List Char → Option (τ × List Char)

variable {τ : Type} {front : Front τ}

/-- The lexemes of a text, with blanks between them. -/
def scan (front : Front τ) (cs : List Char) : Option (List τ) :=
  match cs with
  | [] => some []
  | c :: cs =>
    if c.isWhitespace then scan front cs
    else
      match front (c :: cs) with
      | none => none
      | some (t, rest) =>
        if rest.length < (c :: cs).length then (scan front rest).map (t :: ·) else none
termination_by cs.length
decreasing_by
  · exact Nat.lt_succ_self _
  · assumption

/-- In front of anything that does not start with a character of the class `stop`, the piece `cs` is
cut into the lexemes `ts`. -/
def Scans (front : Front τ) (stop : Char → Bool) (cs : List Char) (ts : List τ) : Prop :=
  ∀ rest, Ends stop rest → scan front (cs ++ rest) = (scan front rest).map (ts ++ ·)

/-- Some characters have no digits among them. -/
theorem contains_of_isDigit {chars : List Char} (h : chars.any Char.isDigit = false) {c : Char}
    (hc : c.isDigit = true) : chars.contains c = false := by
  rw [Bool.eq_false_iff]
  intro hmem
  exact List.any_eq_false.1 h c (List.contains_iff_mem.1 hmem) hc

/-- All characters but some. -/
def allBut (others : List Char) (c : Char) : Bool := !others.contains c

namespace Scans

variable {stop stop' : Char → Bool} {cs ds : List Char} {ts us : List τ}

/-- Nothing at all is cut into no lexemes. -/
theorem nil : Scans front stop [] [] := by
  intro rest _
  simp

/-- A piece that more can follow. -/
theorem mono (h : Scans front stop cs ts) (hstop : ∀ c, stop c = true → stop' c = true) :
    Scans front stop' cs ts := by
  intro rest hrest
  -- what stops more is followed by less
  refine h rest fun c hc => Bool.eq_false_iff.2 fun hstopped => ?_
  have := hrest c hc
  rw [hstop c hstopped] at this
  cases this

/-- A piece that ends before each of some characters. -/
theorem allBut {others : List Char} (h : Scans front stop cs ts)
    (hstop : others.any stop = false) : Scans front (allBut others) cs ts := by
  refine h.mono fun c hc => ?_
  by_cases hmem : c ∈ others
  · exact absurd hc (List.any_eq_false.1 hstop c hmem)
  · simp [Reading.allBut, hmem]

/-- A piece in front of one that does not carry it on. -/
theorem append {c : Char} (h : Scans front stop cs ts) (hc : stop c = false)
    (h' : Scans front stop' (c :: ds) us) : Scans front stop' (cs ++ c :: ds) (ts ++ us) := by
  intro rest hrest
  -- the second piece is what follows the first one, and its first character ends it
  rw [List.append_assoc, List.cons_append, h _ (Ends.cons hc _), ← List.cons_append,
    h' rest hrest, Option.map_map]
  congr 1
  funext vs
  simp

/-- A blank in front does not count. -/
theorem blank (h : Scans front stop cs ts) : Scans front stop (' ' :: cs) ts := by
  intro rest hrest
  rw [List.cons_append, scan, if_pos (by decide)]
  exact h rest hrest

/-- A lexeme that is found in front of anything that does not carry it on. -/
theorem lexeme {c : Char} {t : τ}
    (hfront : ∀ rest, Ends stop rest → front (c :: cs ++ rest) = some (t, rest))
    (hc : c.isWhitespace = false) : Scans front stop (c :: cs) [t] := by
  intro rest hrest
  have hfound := hfront rest hrest
  rw [List.cons_append] at hfound ⊢
  rw [scan, if_neg (by simp [hc])]
  simp only [hfound]
  -- a lexeme takes at least one character, so cutting goes on with a shorter text
  rw [if_pos (by rw [List.length_cons, List.length_append]; omega)]
  rfl

/-- A lexeme of one character, whatever follows it. -/
theorem mark {c : Char} {t : τ} (hfront : ∀ rest, front (c :: rest) = some (t, rest))
    (hc : c.isWhitespace = false) (h : Scans front stop cs ts) :
    Scans front stop (c :: cs) (t :: ts) := by
  intro rest hrest
  have hmark : Scans front (fun _ => false) [c] [t] := lexeme (fun rest _ => hfront rest) hc
  have := hmark (cs ++ rest) fun _ _ => rfl
  rw [List.cons_append, ← List.singleton_append, this, h rest hrest, Option.map_map]
  rfl

/-- A run of characters of one class, where the whole run is found. -/
theorem run {isChar : Char → Bool} {lex : List Char → τ} {c : Char}
    (hfront : ∀ cs, front (c :: cs) =
      some (lex ((c :: cs).takeWhile isChar), (c :: cs).dropWhile isChar))
    (hall : ∀ d ∈ c :: cs, isChar d = true) (hc : c.isWhitespace = false) :
    Scans front isChar (c :: cs) [lex (c :: cs)] := by
  refine lexeme (fun rest hrest => ?_) hc
  rw [List.cons_append, hfront, ← List.cons_append, hrest.takeWhile_append hall,
    hrest.dropWhile_append hall]

/-- A word, where the run of its characters is found. -/
theorem word {lex : String → τ} (hfront : ∀ c cs, Token.isWordStart c = true →
      front (c :: cs) = some (lex (String.ofList ((c :: cs).takeWhile Token.isWordChar)),
        (c :: cs).dropWhile Token.isWordChar))
    {w : String} (h : Token.isWord w = true) : Scans front Token.isWordChar w.toList [lex w] := by
  obtain ⟨c, cs, htext, hc, hall⟩ := isWord_iff.1 h
  have hw : String.ofList (c :: cs) = w := by rw [← htext, String.ofList_toList]
  let lexRun (cs : List Char) : τ := lex (String.ofList cs)
  have hrun : Scans front Token.isWordChar (c :: cs) [lexRun (c :: cs)] :=
    run (fun cs => hfront c cs hc) hall (isWhitespace_of_isBlank (isBlank_of_isWordStart hc))
  rw [htext, ← hw]
  exact hrun

/-- A number, where the digits around its point are found. -/
theorem numeral {lex : List Char → τ} (hfront : ∀ c cs, c.isDigit = true →
      front (c :: cs) = some (lex (readNumeral (c :: cs)).1, (readNumeral (c :: cs)).2))
    {ds : List Char} (h : IsNumeral ds) :
    Scans front (fun c => c.isDigit || c == '.') ds [lex ds] := by
  obtain ⟨c, cs, rfl, hc⟩ := h.exists_cons
  refine lexeme (fun rest hrest => ?_) (isWhitespace_of_isBlank (isBlank_of_isDigit hc))
  rw [List.cons_append, hfront c _ hc, ← List.cons_append, h.readNumeral_append hrest]

/-- Pieces with commas between them. -/
theorem intercalate (comma : τ) (hcomma : ∀ rest, front (',' :: rest) = some (comma, rest))
    (hstop : stop ',' = false) {texts : List String} {tss : List (List τ)}
    (h : List.Forall₂ (fun s ts => Scans front stop s.toList ts) texts tss) :
    Scans front stop (", ".intercalate texts).toList ([comma].intercalate tss) := by
  induction h with
  | nil => exact nil
  | @cons s ts texts tss hs hrest ih =>
    cases hrest with
    | nil => simpa using hs
    | @cons s' ts' texts tss hs' hrest =>
      -- the comma stands in front of the pieces after the first one
      have htail := ih.blank.mark hcomma (by decide)
      simpa [List.append_assoc] using hs.append hstop htail

/-- The lexemes of a whole text. -/
theorem scan_eq (h : Scans front stop cs ts) : scan front cs = some ts := by
  have := h [] (Ends.nil _)
  rw [List.append_nil] at this
  rw [this]
  simp [scan]

end Scans

end MetadataFilter.Reading
