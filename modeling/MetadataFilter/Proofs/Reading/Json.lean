import MetadataFilter.Proofs.Json.Grammar
import MetadataFilter.Proofs.Reading.JsonPath

/-!
# Reading documents without spaces

A document without spaces is read from its front. The first character says what it is; a number
goes up to the first character that numbers do not have, and it is an integer unless it has more
than a sign and digits. So documents with finite decimals are told apart by their texts.

## Key results

- `decimalOf_eq`: the value of a number is what the grammar says
- `number_integerText`, `number_decimalText`: the two kinds of numbers are told apart
- `read_compact`: a document is read back in front of any rest that does not carry on a number
- `compact_injective`: documents of the same text are the same
-/

namespace MetadataFilter.Json

open Text

/-! ### Numbers -/

/-- The characters of numbers. -/
def isNumberChar (c : Char) : Bool := c.isDigit || "+-.eE".toList.contains c

/-- The power of ten at the end of a number. -/
def powerOf : List Char → Int
  | _ :: '-' :: ds => -ofDigits ds
  | _ :: '+' :: ds => ofDigits ds
  | _ :: ds => ofDigits ds
  | [] => 0

/-- The decimal that a number without its sign is. -/
def decimalOf (cs : List Char) : Decimal :=
  let whole := cs.takeWhile Char.isDigit
  match cs.dropWhile Char.isDigit with
  | '.' :: rest =>
    let fraction := rest.takeWhile Char.isDigit
    ⟨ofDigits (whole ++ fraction), powerOf (rest.dropWhile Char.isDigit) - fraction.length⟩
  | rest => ⟨ofDigits whole, powerOf rest⟩

/-- The number that a text is. -/
def number (cs : List Char) : Json :=
  let negative := cs.head? == some '-'
  let ds := if negative then cs.drop 1 else cs
  if ds.all Char.isDigit then .integer (if negative then -ofDigits ds else ofDigits ds)
  else .decimal ((decimalOf ds).toDouble negative)

/-- Digits are characters of numbers. -/
theorem isNumberChar_of_isDigit {c : Char} (h : c.isDigit = true) : isNumberChar c = true := by
  simp [isNumberChar, h]

/-- The power that is read is that of the grammar. -/
theorem powerOf_eq {ps : List Char} {power : Int} (h : Power ps power) : powerOf ps = power := by
  cases h with
  | absent => rfl
  | @unsigned e ds he h =>
    -- the digits start with no sign
    obtain ⟨d, ds, rfl⟩ := List.exists_cons_of_ne_nil h.ne_nil
    have hd := h.isDigit d List.mem_cons_self
    rw [powerOf]
    · rintro _ ⟨⟩
      exact absurd hd (by decide)
    · rintro _ ⟨⟩
      exact absurd hd (by decide)
  | plus => rfl
  | minus => rfl

/-- A power carries on neither digits nor what a point starts. -/
theorem ends_power {ps : List Char} {power : Int} (h : Power ps power) :
    Ends (fun c => c.isDigit || c == '.') ps := by
  cases h with
  | absent => exact .nil _
  | unsigned he | plus he | minus he =>
    refine .cons ?_ _
    rcases he with rfl | rfl <;> decide

/-- A sign is a character of numbers. -/
theorem isNumberChar_of_mem_sign {negative : Bool} {c : Char} (h : c ∈ sign negative) :
    isNumberChar c = true := by
  cases negative with
  | false => cases h
  | true =>
    rw [List.mem_singleton.1 h]
    decide

/-- A number of the grammar has the value that the grammar says. -/
theorem decimalOf_eq {cs : List Char} {d : Decimal} (h : Numeral cs d) : decimalOf cs = d := by
  obtain ⟨whole, fraction, exponent⟩ := h
  have hpower := powerOf_eq exponent
  have hend : Ends Char.isDigit _ :=
    fun c hc => (Bool.or_eq_false_iff.1 (ends_power exponent c hc)).1
  unfold decimalOf
  -- Without a point the digits go up to the power; with one they go up to the point, and those
  -- behind it up to the power.
  cases fraction with
  | absent =>
    rw [List.append_nil, hend.takeWhile_append whole.isDigit, hend.dropWhile_append whole.isDigit]
    split
    · exact absurd (ends_power exponent '.' rfl) (by decide)
    · simp [hpower]
  | present h =>
    have hpoint := Ends.cons (p := Char.isDigit) (c := '.') (by decide)
    rw [List.append_assoc, List.cons_append, (hpoint _).takeWhile_append whole.isDigit,
      (hpoint _).dropWhile_append whole.isDigit]
    simp only [hend.takeWhile_append h.isDigit, hend.dropWhile_append h.isDigit, hpower]

/-- A sign in front of a number is told from its digits. -/
theorem number_sign (negative : Bool) {d : Char} {ds : List Char} (hd : d.isDigit = true) :
    number (sign negative ++ d :: ds) =
      if (d :: ds).all Char.isDigit then
        .integer (if negative then -ofDigits (d :: ds) else ofDigits (d :: ds))
      else .decimal ((decimalOf (d :: ds)).toDouble negative) := by
  have hne : (d == '-') = false := beq_eq_false_iff_ne.2 (ne_of_class hd (by decide))
  cases negative with
  | false => simp [number, sign, hne]
  | true => simp [number, sign]

/-- An integer is read as one, with its value. -/
theorem number_integerText (n : Int) : number (integerText n).toList = .integer n := by
  obtain ⟨d, ds, hds⟩ := List.exists_cons_of_ne_nil (digits_ne_nil n.natAbs)
  have hdigit : ∀ c ∈ d :: ds, c.isDigit = true :=
    fun c hc => isDigit_of_mem_digits (hds ▸ hc)
  have hall : (d :: ds).all Char.isDigit = true := List.all_eq_true.2 hdigit
  rw [toList_integerText, hds, number_sign _ (hdigit d List.mem_cons_self), if_pos hall, ← hds,
    ofDigits_digits]
  congr 1
  by_cases h : n < 0
  · simp only [h, decide_true, if_true]
    omega
  · simp only [h, decide_false, Bool.false_eq_true, if_false]
    omega

/-- A decimal has a point or a power of ten. -/
theorem exists_mem_compact (d : Decimal) : ∃ c ∈ d.compact, c.isDigit = false := by
  unfold Decimal.compact
  dsimp only
  split
  · exact ⟨'.', by simp [Decimal.positional], by decide⟩
  · exact ⟨'e', by simp [Decimal.scientific], by decide⟩

/-- A finite decimal is written with its sign and its shortest digits. -/
theorem toList_decimalText (negative : Bool) (rank : Fin Double.ranks) :
    (decimalText (.finite negative rank)).toList =
      sign negative ++ (Decimal.shortest .toEven rank).compact := by
  cases negative <;> simp [decimalText, Double.compact?, Double.signed, sign]

/-- A number without its sign starts with a digit. -/
theorem Numeral.exists_cons {cs : List Char} {d : Decimal} (h : Numeral cs d) :
    ∃ c rest, cs = c :: rest ∧ c.isDigit = true := by
  obtain ⟨whole, -, -⟩ := h
  obtain ⟨c, ds, rfl⟩ := List.exists_cons_of_ne_nil whole.ne_nil
  exact ⟨c, _, rfl, whole.isDigit c List.mem_cons_self⟩

/-- The characters of numbers are what numbers consist of. -/
theorem Numeral.isNumberChar {cs : List Char} {d : Decimal} (h : Numeral cs d) :
    ∀ c ∈ cs, isNumberChar c = true := by
  obtain ⟨whole, fraction, exponent⟩ := h
  have hdigits : ∀ {ds}, IsDigits ds → ∀ c ∈ ds, Json.isNumberChar c = true :=
    fun h c hc => isNumberChar_of_isDigit (h.isDigit c hc)
  -- the whole part, the fraction and the exponent, each of which may be missing but the first
  intro c hc
  rcases List.mem_append.1 hc with hc | hc
  · rcases List.mem_append.1 hc with hc | hc
    · exact hdigits whole.toIsDigits c hc
    · cases fraction with
      | absent => cases hc
      | present h =>
        rcases List.mem_cons.1 hc with rfl | hc
        · decide
        · exact hdigits h c hc
  · cases exponent with
    | absent => cases hc
    | unsigned he h =>
      rcases List.mem_cons.1 hc with rfl | hc
      · rcases he with rfl | rfl <;> decide
      · exact hdigits h c hc
    | plus he h | minus he h =>
      rcases List.mem_cons.1 hc with rfl | hc
      · rcases he with rfl | rfl <;> decide
      rcases List.mem_cons.1 hc with rfl | hc
      · decide
      · exact hdigits h c hc

/-- A finite decimal is read as one, with its value. -/
theorem number_decimalText {x : Double} (h : x.isFinite = true) :
    number (decimalText x).toList = .decimal x := by
  cases x with
  | finite negative rank =>
    obtain ⟨d, hnumeral, hrank⟩ := numeral_compact (@exponent_shortest .toEven rank)
    obtain ⟨c, hc, hdigit⟩ := exists_mem_compact (.shortest .toEven rank)
    have hvalue := decimalOf_eq hnumeral
    obtain ⟨first, rest, hcs, hfirst⟩ := hnumeral.exists_cons
    rw [toList_decimalText, hcs, number_sign negative hfirst, ← hcs, if_neg, hvalue,
      Decimal.toDouble, hrank, Decimal.rank_shortest, Double.ofRank_of_lt rank.isLt]
    -- A text of digits alone would be an integer, but a decimal has another character among them.
    intro hall
    rw [List.all_eq_true.1 hall c hc] at hdigit
    cases hdigit
  | infinite => cases h
  | notANumber => cases h

/-! ### Documents -/

mutual

/-- Whether all decimals of a document are finite, so that they can be told from `null`. -/
def IsFinite : Json → Prop
  | decimal x => x.isFinite = true
  | array elements => ElementsFinite elements
  | object members => MembersFinite members
  | _ => True

/-- Whether all decimals of some documents are finite. -/
def ElementsFinite : List Json → Prop
  | [] => True
  | j :: js => j.IsFinite ∧ ElementsFinite js

/-- Whether all decimals of the members of an object are finite. -/
def MembersFinite : List (String × Json) → Prop
  | [] => True
  | (_, j) :: ms => j.IsFinite ∧ MembersFinite ms

end

/-- Reads a word if it stands at the front. -/
def readWord (word : String) (j : Json) (cs : List Char) : Option (Json × List Char) :=
  if word.toList.isPrefixOf cs then some (j, cs.drop word.toList.length) else none

mutual

/-- Reads a document at the front of a text. Every level and every item uses up one unit of
fuel. -/
def read : Nat → List Char → Option (Json × List Char)
  | fuel + 1, c :: cs =>
    if c = '\x22' then (Reader.stringTail none cs).map fun r => (.text (String.ofList r.1), r.2)
    else if c = '[' then
      if cs.head? = some ']' then some (.array [], cs.drop 1)
      else (readElements fuel cs).map fun r => (.array r.1, r.2)
    else if c = '\x7b' then
      if cs.head? = some '\x7d' then some (.object [], cs.drop 1)
      else (readMembers fuel cs).map fun r => (.object r.1, r.2)
    else if c = 'n' then readWord "null" .null (c :: cs)
    else if c = 't' then readWord "true" (.boolean true) (c :: cs)
    else if c = 'f' then readWord "false" (.boolean false) (c :: cs)
    else if isNumberChar c then
      some (number ((c :: cs).takeWhile isNumberChar), (c :: cs).dropWhile isNumberChar)
    else none
  | _, _ => none

/-- Reads the elements of an array and its closing bracket. -/
def readElements : Nat → List Char → Option (List Json × List Char)
  | 0, _ => none
  | fuel + 1, cs => do
    let (j, cs) ← read fuel cs
    match cs with
    | ',' :: rest => (readElements fuel rest).map fun r => (j :: r.1, r.2)
    | ']' :: rest => some ([j], rest)
    | _ => none

/-- Reads the members of an object and its closing brace. -/
def readMembers : Nat → List Char → Option (List (String × Json) × List Char)
  | fuel + 1, '\x22' :: cs => do
    let (name, cs) ← Reader.stringTail none cs
    match cs with
    | ':' :: cs =>
      let (j, cs) ← read fuel cs
      match cs with
      | ',' :: rest =>
        (readMembers fuel rest).map fun r => ((String.ofList name, j) :: r.1, r.2)
      | '\x7d' :: rest => some ([(String.ofList name, j)], rest)
      | _ => none
    | _ => none
  | _, _ => none

end

/-! ### Enough fuel -/

/-- What holds with enough fuel. -/
def Fueled (P : Nat → Prop) : Prop := ∃ n, ∀ fuel, n ≤ fuel → P fuel

namespace Fueled

variable {P Q : Nat → Prop}

/-- What holds with one unit more than any holds with enough fuel. -/
theorem of_succ (h : ∀ fuel, P (fuel + 1)) : Fueled P := by
  refine ⟨1, fun fuel hfuel => ?_⟩
  obtain ⟨fuel, rfl⟩ : ∃ m, fuel = m + 1 := ⟨fuel - 1, by omega⟩
  exact h fuel

/-- One more unit of fuel. -/
theorem step (h : Fueled P) (hstep : ∀ fuel, P fuel → Q (fuel + 1)) : Fueled Q := by
  obtain ⟨n, hn⟩ := h
  refine ⟨n + 1, fun fuel hfuel => ?_⟩
  obtain ⟨fuel, rfl⟩ : ∃ m, fuel = m + 1 := ⟨fuel - 1, by omega⟩
  exact hstep fuel (hn fuel (by omega))

/-- Two things that hold with enough fuel hold together with the larger amount. -/
theorem and (hP : Fueled P) (hQ : Fueled Q) : Fueled fun fuel => P fuel ∧ Q fuel := by
  obtain ⟨n, hn⟩ := hP
  obtain ⟨m, hm⟩ := hQ
  exact ⟨max n m, fun fuel hfuel => ⟨hn fuel (by omega), hm fuel (by omega)⟩⟩

end Fueled

/-! ### Reading what has been written -/

/-- A document is read back from its text in front of any rest that carries on no number. -/
def ReadsBack (j : Json) : Prop :=
  Fueled fun fuel => ∀ rest, Ends isNumberChar rest →
    read fuel (j.compact.toList ++ rest) = some (j, rest)

/-- The elements of an array are read back up to the closing bracket. -/
def ElementsReadBack (js : List Json) : Prop :=
  Fueled fun fuel => ∀ rest,
    readElements fuel ((",".intercalate (compactElements js)).toList ++ ']' :: rest) =
      some (js, rest)

/-- The members of an object are read back up to the closing brace. -/
def MembersReadBack (ms : List (String × Json)) : Prop :=
  Fueled fun fuel => ∀ rest,
    readMembers fuel ((",".intercalate (compactMembers ms)).toList ++ '\x7d' :: rest) =
      some (ms, rest)

/-- The word `null` is read back. -/
theorem readsBack_null : ReadsBack .null :=
  Fueled.of_succ fun fuel rest _ => by simp [compact, read, readWord]

/-- The two truth values are read back. -/
theorem readsBack_boolean (b : Bool) : ReadsBack (.boolean b) :=
  Fueled.of_succ fun fuel rest _ => by cases b <;> simp [compact, read, readWord]

/-- A string is read back, whatever follows it. -/
theorem readsBack_text (s : String) : ReadsBack (.text s) := by
  refine Fueled.of_succ fun fuel rest _ => ?_
  have htext : (compact (.text s)).toList ++ rest =
      '\x22' :: (s.toList.flatMap escapeChar ++ '\x22' :: rest) := by
    simp [compact, quote]
  rw [htext, read, if_pos rfl, Reader.stringTail_quote]
  simp

/-- A number is read back up to the first character that numbers do not have. -/
theorem ReadsBack.of_number {j : Json} (hnumber : number j.compact.toList = j) {negative : Bool}
    {ds : List Char} (htext : j.compact.toList = sign negative ++ ds) (hds : ds ≠ [])
    (hchars : ∀ d ∈ ds, isNumberChar d = true) : ReadsBack j := by
  have hall : ∀ d ∈ j.compact.toList, isNumberChar d = true := by
    intro d hd
    rw [htext] at hd
    rcases List.mem_append.1 hd with hd | hd
    · exact isNumberChar_of_mem_sign hd
    · exact hchars d hd
  refine Fueled.of_succ fun fuel rest hrest => ?_
  obtain ⟨c, cs, hcs⟩ : ∃ c cs, j.compact.toList = c :: cs :=
    List.exists_cons_of_ne_nil (by simp [htext, hds])
  rw [hcs] at hall hnumber ⊢
  have hc := hall c List.mem_cons_self
  have hne : ∀ d, isNumberChar d = false → c ≠ d := fun d hd => ne_of_class hc hd
  -- No other document starts like a number.
  rw [List.cons_append, read, if_neg (hne _ (by decide)), if_neg (hne _ (by decide)),
    if_neg (hne _ (by decide)), if_neg (hne _ (by decide)), if_neg (hne _ (by decide)),
    if_neg (hne _ (by decide)), if_pos hc, ← List.cons_append, hrest.takeWhile_append hall,
    hrest.dropWhile_append hall, hnumber]

/-- An integer is read back. -/
theorem readsBack_integer (n : Int) : ReadsBack (.integer n) :=
  .of_number (number_integerText n) (toList_integerText n) (digits_ne_nil _)
    fun _ hc => isNumberChar_of_isDigit (isDigit_of_mem_digits hc)

/-- A finite decimal is read back. -/
theorem readsBack_decimal {x : Double} (h : x.isFinite = true) : ReadsBack (.decimal x) := by
  cases x with
  | finite negative rank =>
    obtain ⟨d, hnumeral, -⟩ := numeral_compact (@exponent_shortest .toEven rank)
    refine .of_number (number_decimalText h) (toList_decimalText negative rank) ?_
      hnumeral.isNumberChar
    obtain ⟨c, rest, hcs, -⟩ := hnumeral.exists_cons
    simp [hcs]
  | infinite => cases h
  | notANumber => cases h

/-- One element is read back up to the bracket. -/
theorem ElementsReadBack.single {j : Json} (h : ReadsBack j) : ElementsReadBack [j] := by
  refine h.step fun fuel hread rest => ?_
  rw [compactElements, compactElements, String.intercalate_singleton, readElements,
    hread _ (.cons (by decide) _)]
  rfl

/-- One more element in front, behind which a comma stands. -/
theorem ElementsReadBack.cons {j j' : Json} {js : List Json} (h : ReadsBack j)
    (hs : ElementsReadBack (j' :: js)) : ElementsReadBack (j :: j' :: js) := by
  refine (h.and hs).step fun fuel hread rest => ?_
  have htext : (",".intercalate (compactElements (j :: j' :: js))).toList ++ ']' :: rest =
      j.compact.toList ++
        ',' :: ((",".intercalate (compactElements (j' :: js))).toList ++ ']' :: rest) := by
    simp [compactElements, String.intercalate_cons_cons]
  rw [htext, readElements, hread.1 _ (.cons (by decide) _)]
  simp only [Option.bind_eq_bind, Option.bind_some]
  rw [hread.2]
  rfl

/-- An array is read back if its elements are. -/
theorem ElementsReadBack.array {js : List Json} (h : ElementsReadBack js) :
    ReadsBack (.array js) := by
  refine h.step fun fuel hread rest _ => ?_
  have hread := hread rest
  have htext : (compact (.array js)).toList ++ rest =
      '[' :: ((",".intercalate (compactElements js)).toList ++ ']' :: rest) := by
    simp [compact]
  -- no element starts with the closing bracket
  have hhead : ((",".intercalate (compactElements js)).toList ++ ']' :: rest).head? ≠
      some ']' := by
    intro hhead
    obtain ⟨tail, htail⟩ := List.head?_eq_some_iff.1 hhead
    rw [htail] at hread
    cases fuel with
    | zero => simp [readElements] at hread
    | succ fuel => cases fuel <;> simp [readElements, read, isNumberChar] at hread
  rw [htext, read, if_neg (by decide), if_pos rfl, if_neg hhead, hread]
  rfl

/-- A member starts with a quote, the name and a colon. -/
theorem toList_member (name : String) (j : Json) (rest : List Char) :
    (quote name ++ ":" ++ j.compact).toList ++ rest =
      '\x22' ::
        (name.toList.flatMap escapeChar ++ '\x22' :: ':' :: (j.compact.toList ++ rest)) := by
  simp [quote]

/-- One member is read back up to the brace. -/
theorem MembersReadBack.single {name : String} {j : Json} (h : ReadsBack j) :
    MembersReadBack [(name, j)] := by
  refine h.step fun fuel hread rest => ?_
  rw [compactMembers, compactMembers, String.intercalate_singleton, toList_member, readMembers,
    Reader.stringTail_quote]
  simp [hread ('\x7d' :: rest) (.cons (by decide) _)]

/-- One more member in front, behind which a comma stands. -/
theorem MembersReadBack.cons {name : String} {j : Json} {m : String × Json}
    {ms : List (String × Json)} (h : ReadsBack j) (hs : MembersReadBack (m :: ms)) :
    MembersReadBack ((name, j) :: m :: ms) := by
  -- Name, colon and value are read with the same fuel as the members behind them.
  refine (h.and hs).step fun fuel hread rest => ?_
  have htext : (",".intercalate (compactMembers ((name, j) :: m :: ms))).toList ++
      '\x7d' :: rest = (quote name ++ ":" ++ j.compact).toList ++
        ',' :: ((",".intercalate (compactMembers (m :: ms))).toList ++ '\x7d' :: rest) := by
    simp [compactMembers, String.intercalate_cons_cons]
  rw [htext, toList_member, readMembers, Reader.stringTail_quote]
  simp only [Option.bind_eq_bind, Option.bind_some]
  rw [hread.1 _ (.cons (by decide) _)]
  simp only [Option.bind_some]
  rw [hread.2]
  simp

/-- An object is read back if its members are. -/
theorem MembersReadBack.object {ms : List (String × Json)} (h : MembersReadBack ms) :
    ReadsBack (.object ms) := by
  refine h.step fun fuel hread rest _ => ?_
  have hread := hread rest
  have htext : (compact (.object ms)).toList ++ rest =
      '\x7b' :: ((",".intercalate (compactMembers ms)).toList ++ '\x7d' :: rest) := by
    simp [compact]
  -- no member starts with the closing brace
  have hhead : ((",".intercalate (compactMembers ms)).toList ++ '\x7d' :: rest).head? ≠
      some '\x7d' := by
    intro hhead
    obtain ⟨tail, htail⟩ := List.head?_eq_some_iff.1 hhead
    rw [htail] at hread
    cases fuel <;> simp [readMembers] at hread
  rw [htext, read, if_neg (by decide), if_neg (by decide), if_pos rfl, if_neg hhead, hread]
  rfl

/-- An empty array and an empty object are read back. -/
theorem readsBack_empty : ReadsBack (.array []) ∧ ReadsBack (.object []) :=
  ⟨Fueled.of_succ fun fuel rest _ => by simp [compact, compactElements, read],
    Fueled.of_succ fun fuel rest _ => by simp [compact, compactMembers, read]⟩

mutual

/-- A document with finite decimals is read back. -/
-- Recursion on the document. Empty arrays and objects are read without looking for items.
theorem read_compact : ∀ j : Json, j.IsFinite → ReadsBack j
  | .null, _ => readsBack_null
  | .boolean b, _ => readsBack_boolean b
  | .integer n, _ => readsBack_integer n
  | .decimal _, h => readsBack_decimal h
  | .text s, _ => readsBack_text s
  | .array elements, h => by
    by_cases hnil : elements = []
    · rw [hnil]
      exact readsBack_empty.1
    · exact (readElements_compact elements h hnil).array
  | .object members, h => by
    by_cases hnil : members = []
    · rw [hnil]
      exact readsBack_empty.2
    · exact (readMembers_compact members h hnil).object

/-- Elements with finite decimals are read back. -/
theorem readElements_compact : ∀ js : List Json, ElementsFinite js → js ≠ [] → ElementsReadBack js
  | [], _, hne => absurd rfl hne
  | [j], h, _ => .single (read_compact j h.1)
  | j :: j' :: js, h, _ =>
    .cons (read_compact j h.1) (readElements_compact (j' :: js) h.2 (List.cons_ne_nil _ _))

/-- Members with finite decimals are read back. -/
theorem readMembers_compact : ∀ ms : List (String × Json), MembersFinite ms → ms ≠ [] →
    MembersReadBack ms
  | [], _, hne => absurd rfl hne
  | [(_, j)], h, _ => .single (read_compact j h.1)
  | (_, j) :: m :: ms, h, _ =>
    .cons (read_compact j h.1) (readMembers_compact (m :: ms) h.2 (List.cons_ne_nil _ _))

end

/-- Documents with finite decimals are told apart by their texts. -/
theorem compact_injective {j j' : Json} (hj : j.IsFinite) (hj' : j'.IsFinite)
    (h : j.compact = j'.compact) : j = j' := by
  obtain ⟨n, hn⟩ := (read_compact j hj).and (read_compact j' hj')
  obtain ⟨hread, hread'⟩ := hn n (Nat.le_refl n)
  have hsame := hread [] (.nil _)
  rw [h, hread' [] (.nil _)] at hsame
  cases hsame
  rfl

end MetadataFilter.Json
