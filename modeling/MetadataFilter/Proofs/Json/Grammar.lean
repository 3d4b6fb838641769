import Mathlib.Data.List.Forall2
import MetadataFilter.Json.Reader
import MetadataFilter.Proofs.Text.Numeral

/-!
# The grammar of JSON texts

`Spells j cs` says that the text `cs` is a value of the JSON grammar (RFC 8259), with any space that
the grammar allows, and that its value is the document `j`. What is written for a document over
several lines is such a text.

## Key results

- `numeral_compact`: the shortest digits of a decimal are a number
- `spells_quote`: strings are quoted as the grammar asks for
- `elements_of_items`, `members_of_items`: items on lines of their own
- `spells_prettyAt`, `spells_pretty`: documents over several lines
-/

namespace MetadataFilter.Json

/-! ### The grammar -/

/-- Space between the pieces of a document. -/
def IsSpace (w : List Char) : Prop := ∀ c ∈ w, Reader.isSpace c = true

/-- One or more digits. -/
structure IsDigits (ds : List Char) : Prop where
  ne_nil : ds ≠ []
  isDigit : ∀ c ∈ ds, c.isDigit = true

/-- The digits of a whole number: no zero stands in front of others. -/
structure IsWhole (ds : List Char) : Prop extends IsDigits ds where
  leading : ds.head? = some '0' → ds = ['0']

/-- The end of a number that has a point, and the digits after it. -/
inductive Fraction : List Char → List Char → Prop
  | absent : Fraction [] []
  | present {ds : List Char} (h : IsDigits ds) : Fraction ('.' :: ds) ds

/-- The end of a number that has a power of ten, and the power. -/
inductive Power : List Char → Int → Prop
  | absent : Power [] 0
  | unsigned {e : Char} {ds : List Char} (he : e = 'e' ∨ e = 'E') (h : IsDigits ds) :
      Power (e :: ds) (Text.ofDigits ds)
  | plus {e : Char} {ds : List Char} (he : e = 'e' ∨ e = 'E') (h : IsDigits ds) :
      Power (e :: '+' :: ds) (Text.ofDigits ds)
  | minus {e : Char} {ds : List Char} (he : e = 'e' ∨ e = 'E') (h : IsDigits ds) :
      Power (e :: '-' :: ds) (-Text.ofDigits ds)

/-- A number without its sign, and its value. -/
inductive Numeral : List Char → Decimal → Prop
  | mk {ds fs es ps : List Char} {power : Int} (whole : IsWhole ds) (fraction : Fraction fs es)
      (exponent : Power ps power) :
      Numeral (ds ++ fs ++ ps) ⟨Text.ofDigits (ds ++ es), power - es.length⟩

/-- What stands between the quotes of a string, and the characters of the string. -/
inductive Body : List Char → List Char → Prop
  | nil : Body [] []
  | plain {c : Char} {cs s : List Char} (control : 0x20 ≤ c.toNat) (quote : c ≠ '\x22')
      (backslash : c ≠ '\\') (rest : Body cs s) : Body (c :: cs) (c :: s)
  | escape {e c : Char} {cs s : List Char} (h : Reader.shortEscape? e = some c)
      (rest : Body cs s) : Body ('\\' :: e :: cs) (c :: s)
  | unit {a b c d : Char} {n : Nat} {cs s : List Char}
      (digits : Text.Reader.ofDigits? 16 [a, b, c, d] = some n)
      (leading : Reader.isLeading n = false) (trailing : Reader.isTrailing n = false)
      (rest : Body cs s) : Body ('\\' :: 'u' :: a :: b :: c :: d :: cs) (Char.ofNat n :: s)
  | pair {a b c d a' b' c' d' : Char} {high low : Nat} {cs s : List Char}
      (digits : Text.Reader.ofDigits? 16 [a, b, c, d] = some high)
      (digits' : Text.Reader.ofDigits? 16 [a', b', c', d'] = some low)
      (leading : Reader.isLeading high = true) (trailing : Reader.isTrailing low = true)
      (rest : Body cs s) :
      Body ('\\' :: 'u' :: a :: b :: c :: d :: '\\' :: 'u' :: a' :: b' :: c' :: d' :: cs)
        (Reader.pairCharacter high low :: s)

/-- A text as a string of the grammar. -/
inductive Quoted : String → List Char → Prop
  | mk {s : String} {cs : List Char} (body : Body cs s.toList) :
      Quoted s ('\x22' :: cs ++ ['\x22'])

/-- Items between brackets, with a comma after each of them but the last one. -/
inductive Items {α : Type} (Item : α → List Char → Prop) : List α → List Char → Prop
  | nil {w : List Char} (space : IsSpace w) : Items Item [] w
  | last {a : α} {w cs w' : List Char} (space : IsSpace w) (item : Item a cs)
      (space' : IsSpace w') : Items Item [a] (w ++ cs ++ w')
  | more {a a' : α} {as : List α} {w cs w' rest : List Char} (space : IsSpace w) (item : Item a cs)
      (space' : IsSpace w') (others : Items Item (a' :: as) rest) :
      Items Item (a :: a' :: as) (w ++ cs ++ w' ++ ',' :: rest)

mutual

/-- A text that is one value of the grammar, and the document that it stands for. There is no number
for what is not finite, which `null` stands for. -/
inductive Spells : Json → List Char → Prop
  | null : Spells .null "null".toList
  | boolean (b : Bool) : Spells (.boolean b) (if b then "true" else "false").toList
  | integer {ds : List Char} (negative : Bool) (h : IsWhole ds) :
      Spells (.integer (if negative then -Text.ofDigits ds else Text.ofDigits ds))
        (Text.sign negative ++ ds)
  | decimal {d : Decimal} {cs : List Char} (negative : Bool) (h : Numeral cs d) :
      Spells (.decimal (d.toDouble negative)) (Text.sign negative ++ cs)
  | notFinite {x : Double} (h : x.isFinite = false) : Spells (.decimal x) "null".toList
  | text {s : String} {cs : List Char} (h : Quoted s cs) : Spells (.text s) cs
  | array {js : List Json} {cs : List Char} (h : Items Spells js cs) :
      Spells (.array js) ('[' :: cs ++ [']'])
  | object {ms : List (String × Json)} {cs : List Char} (h : Items Member ms cs) :
      Spells (.object ms) ('\x7b' :: cs ++ ['\x7d'])

/-- A name and its value in an object. -/
inductive Member : String × Json → List Char → Prop
  | mk {name : String} {j : Json} {ns w w' cs : List Char} (quoted : Quoted name ns)
      (space : IsSpace w) (space' : IsSpace w') (value : Spells j cs) :
      Member (name, j) (ns ++ w ++ ':' :: w' ++ cs)

end

/-! ### Numbers -/

/-- The digits of a number are digits, and there is one at least. -/
theorem isDigits_digits (n : Nat) : IsDigits (Text.digits n) :=
  ⟨Text.digits_ne_nil n, fun _ => Text.isDigit_of_mem_digits⟩

/-- Only zero is written with a zero in front. -/
theorem head?_digits {n : Nat} (h : (Text.digits n).head? = some '0') : n = 0 := by
  have hdigit : ∀ m < 10, Nat.digitChar m = '0' → m = 0 := by decide
  -- The last digit is split off, so the induction is on the size of the number and not on its
  -- digits.
  induction n using Nat.strongRecOn with
  | ind n ih =>
    unfold Text.digits at h ih
    by_cases hsmall : n < 10
    · rw [Nat.toDigits_of_lt_base hsmall] at h
      exact hdigit n hsmall (by simpa using h)
    · -- the digits of a tenth stand in front
      have hne : Nat.toDigits 10 (n / 10) ≠ [] := Nat.toDigits_ne_nil
      rw [Nat.toDigits_of_base_le (by decide) (by omega)] at h
      obtain ⟨c, cs, hcs⟩ := List.exists_cons_of_ne_nil hne
      have := ih (n / 10) (by omega) (by simpa [hcs] using h)
      omega

/-- The digits of a number have no zero in front. -/
theorem isWhole_digits (n : Nat) : IsWhole (Text.digits n) where
  toIsDigits := isDigits_digits n
  leading h := by
    rw [head?_digits h]
    rfl

/-- In front of the point stand the digits of a whole number, unless zero is written with a power of
ten. -/
theorem isWhole_split {d : Decimal} (h : d.coefficient = 0 → d.exponent = 0) :
    IsWhole d.split.1 where
  ne_nil := d.split_ne_nil.1
  isDigit := d.isDigit_of_mem_split.1
  leading hhead := by
    obtain ⟨c, cs, hcs⟩ := List.exists_cons_of_ne_nil (Text.digits_ne_nil d.coefficient)
    unfold Decimal.split at hhead ⊢
    dsimp only at hhead ⊢
    by_cases hexponent : 0 ≤ d.exponent
    · rw [if_pos hexponent] at hhead ⊢
      have hzero : d.coefficient = 0 := head?_digits (by simpa [hcs] using hhead)
      rw [h hzero, hzero]
      rfl
    rw [if_neg hexponent] at hhead ⊢
    -- Below one there are as many zeros in front as make one digit left of the point, else none.
    generalize hplaces : (-d.exponent).toNat = places at hhead ⊢
    by_cases hpadded : (Text.digits d.coefficient).length ≤ places
    · -- one of the zeros that have been put in front is left of the point
      obtain ⟨k, hk⟩ : ∃ k, places + 1 - (Text.digits d.coefficient).length = k + 1 :=
        ⟨places - (Text.digits d.coefficient).length, by omega⟩
      have hone : (List.replicate (places + 1 - (Text.digits d.coefficient).length) '0' ++
          Text.digits d.coefficient).length - places = 1 := by
        rw [List.length_append, List.length_replicate]
        omega
      rw [hone, hk, List.replicate_succ]
      rfl
    · -- no zeros have been put in front, so the number does not start with one
      have hnone : places + 1 - (Text.digits d.coefficient).length = 0 := by omega
      rw [hnone, List.replicate_zero, List.nil_append] at hhead
      obtain ⟨k, hk⟩ : ∃ k, (Text.digits d.coefficient).length - places = k + 1 :=
        ⟨(Text.digits d.coefficient).length - places - 1, by omega⟩
      rw [hk, hcs, List.take_succ_cons] at hhead
      have hzero : d.coefficient = 0 := head?_digits (by rw [hcs]; exact hhead)
      exact absurd (h hzero ▸ Int.le_refl 0) hexponent

/-- Digits around a point are a number. -/
theorem numeral_positional {d : Decimal} (h : d.coefficient = 0 → d.exponent = 0) :
    Numeral d.positional (.ofPlain d.split.1 d.split.2) := by
  have hfraction : Fraction ('.' :: d.split.2) d.split.2 :=
    .present ⟨d.split_ne_nil.2, d.isDigit_of_mem_split.2⟩
  have hnumeral := Numeral.mk (isWhole_split h) hfraction .absent
  rw [List.append_nil, Int.zero_sub] at hnumeral
  exact hnumeral

/-- A power of ten with its sign is one of the grammar. -/
theorem power_of_int (power : Int) :
    Power ('e' :: (if power < 0 then '-' else '+') :: Text.digits power.natAbs) power := by
  have hdigits := isDigits_digits power.natAbs
  by_cases h : power < 0
  · have hpower := Power.minus (.inl rfl) hdigits
    rw [Text.ofDigits_digits, show -(power.natAbs : Int) = power by omega] at hpower
    rwa [if_pos h]
  · have hpower := Power.plus (.inl rfl) hdigits
    rw [Text.ofDigits_digits, show (power.natAbs : Int) = power by omega] at hpower
    rwa [if_neg h]

/-- One digit in front of the point and a power of ten are a number of the same value. -/
theorem numeral_scientific {d : Decimal} (h : d.coefficient ≠ 0) : Numeral d.scientific d := by
  obtain ⟨hne, hdigit⟩ := isDigits_digits d.coefficient
  have hvalue : Text.ofDigits (Text.digits d.coefficient) = d.coefficient :=
    Text.ofDigits_digits _
  have hhead : (Text.digits d.coefficient).head? ≠ some '0' := fun hzero => h (head?_digits hzero)
  unfold Decimal.scientific
  dsimp only
  generalize Text.digits d.coefficient = ds at *
  have hpower := power_of_int (d.exponent + ds.length - 1)
  -- the point stands after the first digit, if there are others
  match ds with
  | [] => exact absurd rfl hne
  | [first] =>
    have hwhole : IsWhole [first] := ⟨⟨hne, hdigit⟩, fun h => absurd h hhead⟩
    have hnumeral := Numeral.mk hwhole .absent hpower
    have hexponent : d.exponent + ([first].length : Nat) - 1 - ([] : List Char).length =
        d.exponent := by simp
    rw [hexponent, List.append_nil, hvalue] at hnumeral
    exact hnumeral
  -- the digits after the point move it, which the power of ten makes up for
  | first :: second :: rest =>
    have hwhole : IsWhole [first] :=
      ⟨⟨by simp, fun c hc => hdigit c (by simp_all)⟩, fun h => absurd h hhead⟩
    have hfraction : Fraction ('.' :: second :: rest) (second :: rest) :=
      .present ⟨by simp, fun c hc => hdigit c (.tail _ hc)⟩
    have hnumeral := Numeral.mk hwhole hfraction hpower
    have hexponent : d.exponent + ((first :: second :: rest).length : Nat) - 1 -
        (second :: rest).length = d.exponent := by simp; omega
    have hcoefficient : Text.ofDigits ([first] ++ second :: rest) = d.coefficient := hvalue
    rw [hexponent, hcoefficient] at hnumeral
    exact hnumeral

/-- The shortest digits of a decimal are a number of its rank. -/
theorem numeral_compact {d : Decimal} (h : d.coefficient = 0 → d.exponent = 0) :
    ∃ d', Numeral d.compact d' ∧ d'.rank = d.rank := by
  unfold Decimal.compact
  dsimp only
  split
  · exact ⟨_, numeral_positional h, d.rank_ofPlain_split⟩
  · next hlarge =>
    have hne : d.coefficient ≠ 0 := fun hzero => hlarge (by simp [hzero])
    exact ⟨d, numeral_scientific hne, rfl⟩

/-- Zero is written as zero. -/
theorem exponent_shortest {tie : Decimal.Tie} {rank : Nat}
    (h : (Decimal.shortest tie rank).coefficient = 0) :
    (Decimal.shortest tie rank).exponent = 0 := by
  have hrank := Decimal.rank_shortest tie rank
  have hzero : rank = 0 := by
    rw [← hrank, Decimal.rank, h]
    simp [Double.nearestRank_zero]
  rw [hzero]
  rfl

/-- An integer is written as one. -/
theorem spells_integerText (n : Int) : Spells (.integer n) (Text.integerText n).toList := by
  have hspells := Spells.integer (n < 0) (isWhole_digits n.natAbs)
  rw [Text.toList_integerText]
  have hvalue : (if decide (n < 0) = true then -(Text.ofDigits (Text.digits n.natAbs) : Int)
      else Text.ofDigits (Text.digits n.natAbs)) = n := by
    rw [Text.ofDigits_digits]
    by_cases h : n < 0
    · simp only [h, decide_true, if_true]
      omega
    · simp only [h, decide_false, Bool.false_eq_true, if_false]
      omega
  rwa [hvalue] at hspells

/-- A decimal is written as one, or as `null` if it is not finite. -/
theorem spells_decimalText (x : Double) : Spells (.decimal x) (decimalText x).toList := by
  cases x with
  | infinite negative => exact .notFinite rfl
  | notANumber => exact .notFinite rfl
  | finite negative rank =>
    obtain ⟨d, hnumeral, hrank⟩ := numeral_compact (@exponent_shortest .toEven rank)
    have hspells := Spells.decimal negative hnumeral
    rw [Decimal.toDouble, hrank, Decimal.rank_shortest, Double.ofRank_of_lt rank.isLt] at hspells
    have htext : (decimalText (.finite negative rank)).toList =
        -- The sign is the only part that the digits do not say.
        Text.sign negative ++ (Decimal.shortest .toEven rank).compact := by
      cases negative <;> simp [decimalText, Double.compact?, Double.signed, Text.sign]
    rwa [htext]

/-! ### Strings -/

/-- A character is written as itself or as an escape of it. -/
theorem body_escapeChar (c : Char) {cs s : List Char} (rest : Body cs s) :
    Body (escapeChar c ++ cs) (c :: s) := by
  -- control characters without a short escape have four digits, of which the first two are zero
  have hunit : ∀ n < 0x20, Text.Reader.ofDigits? 16
      ['0', '0', Nat.digitChar (n / 16), Nat.digitChar (n % 16)] = some n := by
    decide
  unfold escapeChar
  -- Short escapes are escapes of the grammar; what is left is either a control character or plain.
  split
  case h_8 hquote hbackslash _ _ _ _ _ =>
    split
    · next hcontrol =>
      have hleading : Reader.isLeading c.toNat = false := by simp [Reader.isLeading]; omega
      have htrailing : Reader.isTrailing c.toNat = false := by simp [Reader.isTrailing]; omega
      have hbody := Body.unit (hunit c.toNat hcontrol) hleading htrailing rest
      rwa [Char.ofNat_toNat] at hbody
    · next hcontrol => exact .plain (by omega) hquote hbackslash rest
  all_goals exact .escape rfl rest

/-- What is written between the quotes says the characters of the text. -/
theorem body_escape (s : List Char) : Body (s.flatMap escapeChar) s := by
  induction s with
  | nil => exact .nil
  | cons c s ih =>
    rw [List.flatMap_cons]
    exact body_escapeChar c ih

/-- A text is quoted as the grammar asks for. -/
theorem quoted_quote (s : String) : Quoted s (quote s).toList := by
  rw [quote, String.toList_ofList]
  exact .mk (body_escape s.toList)

/-! ### Documents over several lines -/

/-- Nothing at all is space. -/
theorem isSpace_nil : IsSpace [] := by simp [IsSpace]

/-- A blank is space. -/
theorem isSpace_blank : IsSpace [' '] := by simp [IsSpace, Reader.isSpace]

/-- A line feed and the blanks that indent the next line are space. -/
theorem isSpace_newline (depth : Nat) : IsSpace (newline depth).toList := by
  intro c hc
  rw [newline, String.toList_ofList] at hc
  rcases List.mem_cons.1 hc with rfl | hc
  · rfl
  · rw [List.eq_of_mem_replicate hc]
    rfl

/-- Items with commas and space between them. -/
theorem items_intercalate {α : Type} {Item : α → List Char → Prop} {w w' : String}
    (hw : IsSpace w.toList) (hw' : IsSpace w'.toList) {a : α} {as : List α} {items : List String}
    (h : List.Forall₂ (fun a item => Item a item.toList) (a :: as) items) :
    Items Item (a :: as) (w.toList ++ (("," ++ w).intercalate items).toList ++ w'.toList) := by
  -- along the items: the last one ends the list, any other one is followed by a comma
  induction as generalizing a items with
  | nil =>
    obtain ⟨item, _, hitem, hrest, rfl⟩ := List.forall₂_cons_left_iff.1 h
    obtain rfl := List.forall₂_nil_left_iff.1 hrest
    rw [String.intercalate_singleton]
    exact .last hw hitem hw'
  | cons b bs ih =>
    obtain ⟨item, others, hitem, hrest, rfl⟩ := List.forall₂_cons_left_iff.1 h
    have hothers := ih hrest
    obtain ⟨other, rest, -, -, rfl⟩ := List.forall₂_cons_left_iff.1 hrest
    have hitems := Items.more hw hitem isSpace_nil hothers
    rw [String.intercalate_cons_cons]
    simpa using hitems

/-- Items on lines of their own between brackets. -/
theorem items_block {α : Type} {Item : α → List Char → Prop} {as : List α} {items : List String}
    (h : List.Forall₂ (fun a item => Item a item.toList) as items) (opening closing : String)
    (depth : Nat) :
    ∃ cs, (block opening closing depth items).toList =
      opening.toList ++ cs ++ closing.toList ∧ Items Item as cs := by
  cases as with
  | nil =>
    obtain rfl := List.forall₂_nil_left_iff.1 h
    exact ⟨[], by simp [block], .nil isSpace_nil⟩
  | cons a as =>
    refine ⟨_, ?_, items_intercalate (isSpace_newline (depth + 1)) (isSpace_newline depth) h⟩
    obtain ⟨item, others, -, -, rfl⟩ := List.forall₂_cons_left_iff.1 h
    simp [block]

mutual

/-- What is written for a document over several lines is a text of it. -/
-- Recursion on the document; arrays and objects are brackets around blocks of items.
theorem spells_prettyAt (depth : Nat) : ∀ j : Json, Spells j (j.prettyAt depth).toList
  | .null => .null
  | .boolean b => .boolean b
  | .integer n => spells_integerText n
  | .decimal x => spells_decimalText x
  | .text s => .text (quoted_quote s)
  | .array elements => by
    obtain ⟨cs, hcs, hitems⟩ :=
      items_block (spells_prettyElements (depth + 1) elements) "[" "]" depth
    unfold prettyAt
    rw [hcs]
    exact .array hitems
  | .object members => by
    obtain ⟨cs, hcs, hitems⟩ :=
      items_block (member_prettyMembers (depth + 1) members) "\x7b" "\x7d" depth
    unfold prettyAt
    rw [hcs]
    exact .object hitems

/-- Every element is a text of its document. -/
theorem spells_prettyElements (depth : Nat) : ∀ js : List Json,
    List.Forall₂ (fun j item => Spells j item.toList) js (prettyElements depth js)
  | [] => .nil
  | j :: js => .cons (spells_prettyAt depth j) (spells_prettyElements depth js)

/-- Every member is a name and a text of its value. -/
theorem member_prettyMembers (depth : Nat) : ∀ ms : List (String × Json),
    List.Forall₂ (fun m item => Member m item.toList) ms (prettyMembers depth ms)
  | [] => .nil
  | (name, j) :: ms => by
    refine .cons ?_ (member_prettyMembers depth ms)
    have hmember := Member.mk (quoted_quote name) isSpace_nil isSpace_blank
      (spells_prettyAt depth j)
    simpa using hmember

end

/-- A document over several lines is a text of it, and nothing else. -/
theorem spells_pretty (j : Json) : Spells j j.pretty.toList := spells_prettyAt 0 j

end MetadataFilter.Json
