import MetadataFilter.Proofs.Reading.Climb
import MetadataFilter.Proofs.Reading.Scan
import MetadataFilter.Proofs.Text.Numeral

/-!
# Languages that are read back

A `Language` is a way to cut texts into lexemes together with the operators of its expressions.
`Language.Written p cs x` says that the text `cs` is read as `x` wherever it stands as an operand of
operators that bind at most as tightly as `p`, so that texts can be put together from their parts.

## Key results

- `Written.numeral`, `Written.enclosed`: numbers with their signs, and parentheses
- `Written.operator`, `Written.unary`: operators between operands and in front of them
- `Written.exists_enumerated`: lists with commas
- `Written.read_eq`: a whole text
-/

namespace MetadataFilter.Reading

open Text

/-- A language of expressions with operators and parentheses. -/
structure Language (τ β : Type) extends Operators τ β where
  front : Front τ
  opening : τ
  closing : τ
  front_opening : ∀ rest, front ('(' :: rest) = some (opening, rest)
  front_closing : ∀ rest, front (')' :: rest) = some (closing, rest)
  operand_opening : ∀ {inner ts x rest}, inner 1 ts = some (x, closing :: rest) →
    operand inner (opening :: ts) = some (x, rest)
  binding_closing : ∀ rest, binding (closing :: rest) = 0

/-- The characters that may carry a piece of text on: after it may come a blank, a comma, or a
closing parenthesis. -/
def mayCarryOn : Char → Bool := allBut [' ', ',', ')']

namespace Language

variable {τ β : Type} (lang : Language τ β)

/-- Reads a whole text. -/
def read (s : String) : Option β := (scan lang.front s.toList).bind lang.toOperators.read

/-- The text `cs` is read as `x` as an operand of operators that bind at most as tightly as `p`. -/
def Written (p : Nat) (cs : List Char) (x : β) : Prop :=
  ∃ ts, Scans lang.front mayCarryOn cs ts ∧ lang.toOperators.Reads p ts x

namespace Written

variable {lang} {p q : Nat} {cs ds : List Char} {x y : β}

/-- What is read as an operand of tight operators is one of looser operators too. -/
theorem loosen (hle : q ≤ p) (h : lang.Written p cs x) : lang.Written q cs x := by
  obtain ⟨ts, hscan, hreads⟩ := h
  exact ⟨ts, hscan, hreads.loosen hle⟩

/-- An operator with blanks around it, between operands of which the right one binds more
tightly. -/
theorem operator {word : List Char} {t : τ} {f : β → β → β} {stop : Char → Bool}
    (hword : Scans lang.front stop word [t]) (hstop : stop ' ' = false)
    (hbinding : ∀ rest, lang.binding (t :: rest) = p)
    (hextend : ∀ inner x rest, lang.extend inner x (t :: rest) =
      (inner (p + 1) rest).map fun r => (f x r.1, r.2))
    (hx : lang.Written p cs x) (hy : lang.Written (p + 1) ds y) :
    lang.Written p (cs ++ ' ' :: (word ++ ' ' :: ds)) (f x y) := by
  obtain ⟨ts, hscan, hreads⟩ := hx
  obtain ⟨us, hscan', hreads'⟩ := hy
  refine ⟨ts ++ t :: us, ?_, hreads.operator hbinding hextend hreads'⟩
  exact hscan.append (by decide) (hword.append hstop hscan'.blank).blank

/-- An operator in front of its operand, which binds more tightly. -/
theorem unary {word : List Char} {t : τ} {f : β → β} {stop : Char → Bool}
    (hword : Scans lang.front stop word [t]) (hstop : stop ' ' = false)
    (hoperand : ∀ inner rest, lang.operand inner (t :: rest) =
      (inner (p + 1) rest).map fun r => (f r.1, r.2))
    (hx : lang.Written (p + 1) cs x) : lang.Written p (word ++ ' ' :: cs) (f x) := by
  obtain ⟨ts, hscan, hreads⟩ := hx
  exact ⟨t :: ts, hword.append hstop hscan.blank, hreads.unary hoperand⟩

/-- A number with its sign, in front of what ends numbers. -/
theorem exists_numeral {number minus : τ} {constant : Value → β} {stop stop' : Char → Bool}
    {negative : Bool} {ds : List Char} {v : Value} (p : Nat) (hds : IsNumeral ds)
    (hvalue : numeralValue? negative ds = some v)
    (hnumber : Scans lang.front stop ds [number])
    (hminus : Scans lang.front stop' ['-'] [minus])
    (hdigit : ∀ c : Char, c.isDigit = true → stop' c = false)
    (hpositive : ∀ inner rest, lang.operand inner (number :: rest) =
      (numeralValue? false ds).map fun v => (constant v, rest))
    (hnegative : ∀ inner rest, lang.operand inner (minus :: number :: rest) =
      (numeralValue? true ds).map fun v => (constant v, rest)) :
    ∃ ts, Scans lang.front stop (sign negative ++ ds) ts ∧
      lang.toOperators.Reads p ts (constant v) := by
  cases negative with
  | false =>
    refine ⟨[number], hnumber, .operand p fun depth rest _ => ?_⟩
    rw [List.singleton_append, hpositive, hvalue]
    rfl
  | true =>
    -- the first digit ends the operator that the sign is
    obtain ⟨d, tail, rfl, hd⟩ := hds.exists_cons
    refine ⟨[minus] ++ [number], hminus.append (hdigit d hd) hnumber, ?_⟩
    refine .operand p fun depth rest _ => ?_
    rw [List.append_assoc, List.singleton_append, List.singleton_append, hnegative, hvalue]
    rfl

/-- A number with its sign. -/
theorem numeral {number minus : τ} {constant : Value → β} {stop stop' : Char → Bool}
    {negative : Bool} {ds : List Char} {v : Value} (p : Nat) (hds : IsNumeral ds)
    (hvalue : numeralValue? negative ds = some v)
    (hnumber : Scans lang.front stop ds [number]) (hstop : [' ', ',', ')'].any stop = false)
    (hminus : Scans lang.front stop' ['-'] [minus])
    (hdigit : ∀ c : Char, c.isDigit = true → stop' c = false)
    (hpositive : ∀ inner rest, lang.operand inner (number :: rest) =
      (numeralValue? false ds).map fun v => (constant v, rest))
    (hnegative : ∀ inner rest, lang.operand inner (minus :: number :: rest) =
      (numeralValue? true ds).map fun v => (constant v, rest)) :
    lang.Written p (sign negative ++ ds) (constant v) := by
  obtain ⟨ts, hscan, hreads⟩ :=
    exists_numeral p hds hvalue hnumber hminus hdigit hpositive hnegative
  exact ⟨ts, hscan.allBut hstop, hreads⟩

/-- An expression in parentheses is an operand, whatever follows it. -/
theorem exists_enclosed (p : Nat) (stop : Char → Bool) (h : lang.Written 1 cs x) :
    ∃ ts, Scans lang.front stop ('(' :: (cs ++ [')'])) ts ∧ lang.toOperators.Reads p ts x := by
  obtain ⟨ts, hscan, hreads⟩ := h
  refine ⟨lang.opening :: (ts ++ [lang.closing]), ?_, ?_⟩
  · have hlast : Scans lang.front stop [')'] [lang.closing] :=
      Scans.nil.mark lang.front_closing (by decide)
    exact (hscan.append (by decide) hlast).mark lang.front_opening (by decide)
  · refine Operators.Reads.operand p fun depth rest hdepth => ?_
    rw [List.length_cons, List.length_append, List.length_singleton] at hdepth
    have hbinding : lang.binding (lang.closing :: rest) < 1 := by
      rw [lang.binding_closing]
      exact Nat.one_pos
    -- the closing parenthesis is no operator, so the expression inside ends in front of it
    have hinner := hreads.expr_eq (show ts.length < depth by omega) (Nat.le_refl _) hbinding
    rw [List.cons_append, List.append_assoc]
    exact lang.operand_opening hinner

/-- An expression in parentheses is read as an operand of any operator. -/
theorem enclosed (p : Nat) (h : lang.Written 1 cs x) :
    lang.Written p ('(' :: (cs ++ [')'])) x :=
  h.exists_enclosed p mayCarryOn

/-- The lexemes of texts that are read one by one. -/
theorem exists_list {stop : Char → Bool} {xs : List β} {texts : List String}
    (h : List.Forall₂ (fun x s => ∃ ts, Scans lang.front stop s.toList ts ∧
      lang.toOperators.Reads p ts x) xs texts) :
    ∃ tss, List.Forall₂ (fun s ts => Scans lang.front stop s.toList ts) texts tss ∧
      List.Forall₂ (fun x ts => lang.toOperators.Reads p ts x) xs tss := by
  induction h with
  | nil => exact ⟨[], .nil, .nil⟩
  | cons hx _ ih =>
    obtain ⟨ts, hscan, hreads⟩ := hx
    obtain ⟨tss, hscans, hreadss⟩ := ih
    exact ⟨ts :: tss, .cons hscan hscans, .cons hreads hreadss⟩

/-- Expressions with commas between them, up to a closing mark, whatever follows it. -/
theorem exists_enumerated [DecidableEq τ] {comma close : τ} {stop : Char → Bool} (mark : Char)
    (stop' : Char → Bool) (hne : comma ≠ close)
    (hcomma : (∀ rest, lang.front (',' :: rest) = some (comma, rest)) ∧
      ∀ rest, lang.binding (comma :: rest) = 0)
    (hclose : (∀ rest, lang.front (mark :: rest) = some (close, rest)) ∧
      ∀ rest, lang.binding (close :: rest) = 0)
    (hmark : mark.isWhitespace = false) (hstop : stop ',' = false ∧ stop mark = false)
    {xs : List β} {texts : List String}
    (h : List.Forall₂ (fun x s => ∃ ts, Scans lang.front stop s.toList ts ∧
      lang.toOperators.Reads 1 ts x) xs texts) (hxs : xs ≠ []) :
    ∃ ts, Scans lang.front stop' ((", ".intercalate texts).toList ++ [mark]) ts ∧
      ∀ depth rest, ts.length ≤ depth →
        Operators.list comma close (lang.expr depth 1) (ts ++ rest) = some (xs, rest) := by
  obtain ⟨tss, hscans, hreads⟩ := exists_list h
  have hscan := Scans.intercalate comma hcomma.1 hstop.1 hscans
  have hlast : Scans lang.front stop' [mark] [close] := Scans.nil.mark hclose.1 hmark
  refine ⟨[comma].intercalate tss ++ [close], hscan.append hstop.2 hlast, ?_⟩
  intro depth rest hdepth
  rw [List.length_append, List.length_singleton] at hdepth
  -- the expressions are read one by one, each up to the comma after it
  rw [List.append_assoc, List.singleton_append]
  exact Operators.Reads.list_eq hne hcomma.2 hclose.2 (Nat.le_refl 1) hreads hxs
    (by omega) rest

/-- A whole text. -/
theorem read_eq {s : String} (h : lang.Written 1 s.toList x) : lang.read s = some x := by
  obtain ⟨ts, hscan, hreads⟩ := h
  rw [read, hscan.scan_eq]
  exact hreads.read_eq (Nat.le_refl _)

end Written

end Language

end MetadataFilter.Reading
