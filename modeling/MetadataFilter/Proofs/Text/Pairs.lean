import MetadataFilter.Proofs.Text.Span
import MetadataFilter.Text.Quoted

/-!
# Pairs of parentheses in a text

The parentheses of a text that stand outside of its strings are matched with a stack: each of them
gets the number of its pair, and pairs are numbered in the order in which they are opened. What
stands in strings is no parenthesis, whatever the characters are.

## Key results

- `numbered_induction`: induction along a text whose parentheses have partners
- `map_fst_numbered`: the numbers are put to the text as it is
- `isPair_of_mem_pairs`: a number is that of a parenthesis and of its partner
- `Inert.append`, `inert_quote`: texts without parentheses outside of strings
-/

namespace MetadataFilter.Text

/-- Where a character stands: outside of strings, inside of one with the given delimiter, or inside
of one behind a backslash. -/
inductive Spot where
  | outside
  | inside (delimiter : Char)
  | escaped (delimiter : Char)
deriving DecidableEq

/-- Where the next character stands. -/
def Spot.next : Spot → Char → Spot
  | outside, c => if Token.isDelimiter c then inside c else outside
  | inside delimiter, c =>
    if c = '\\' then escaped delimiter else if c = delimiter then outside else inside delimiter
  | escaped delimiter, _ => inside delimiter

/-- A character, with the number of its pair if it is a parenthesis outside of strings. -/
abbrev Numbered := Char × Option Nat

/-- The characters of a text with the numbers of their pairs, of which the next one to be opened has
the number `opened`; those in `pending` are open, the innermost first. There is no result if some
parenthesis has no partner. -/
def numbered (spot : Spot) (opened : Nat) (pending : List Nat) :
    List Char → Option (List Numbered)
  | [] => if pending.isEmpty then some [] else none
  | c :: cs =>
    if spot = .outside ∧ c = '(' then
      (numbered .outside (opened + 1) (opened :: pending) cs).map ((c, some opened) :: ·)
    else if spot = .outside ∧ c = ')' then
      match pending with
      | [] => none
      | k :: pending => (numbered .outside opened pending cs).map ((c, some k) :: ·)
    else (numbered (spot.next c) opened pending cs).map ((c, none) :: ·)

/-- The characters of a text with the numbers of their pairs. -/
def pairs (s : String) : Option (List Numbered) := numbered .outside 0 [] s.toList

/-- What is left without the parentheses of those pairs that `drop` holds of. -/
def withoutPairs (drop : Nat → Bool) (ms : List Numbered) : List Char :=
  (ms.filter fun m => !m.2.any drop).map Prod.fst

/-- The pair with the number `k`: a parenthesis that is opened and one after it that closes it. The
number stands nowhere else. -/
def IsPair (ms : List Numbered) (k : Nat) : Prop :=
  ∃ before inside after, ms = before ++ ('(', some k) :: (inside ++ (')', some k) :: after) ∧
    ∀ c, (c, some k) ∉ before ++ inside ++ after

/-! ### Partners -/

variable {spot : Spot} {opened : Nat} {pending : List Nat} {cs : List Char} {ms : List Numbered}

/-- What is kept by parentheses that open and close and by all other characters holds of every text
whose parentheses have partners. -/
theorem numbered_induction {Q : Nat → List Nat → List Char → List Numbered → Prop}
    (nil : ∀ {opened}, Q opened [] [] [])
    (opening : ∀ {opened pending cs ms}, Q (opened + 1) (opened :: pending) cs ms →
      Q opened pending ('(' :: cs) (('(', some opened) :: ms))
    (closing : ∀ {opened k pending cs ms}, Q opened pending cs ms →
      Q opened (k :: pending) (')' :: cs) ((')', some k) :: ms))
    (other : ∀ {opened pending c cs ms}, Q opened pending cs ms →
      Q opened pending (c :: cs) ((c, none) :: ms))
    (h : numbered spot opened pending cs = some ms) : Q opened pending cs ms := by
  -- by induction on the text, with one case for each way in which `numbered` goes on
  induction cs generalizing spot opened pending ms with
  | nil =>
    unfold numbered at h
    split at h
    · next hnone =>
      cases h
      rw [List.isEmpty_iff.1 hnone]
      exact nil
    · cases h
  | cons c cs ih =>
    unfold numbered at h
    split at h
    · next hopen =>
      obtain ⟨ms, hms, rfl⟩ := Option.map_eq_some_iff.1 h
      rw [hopen.2]
      exact opening (ih hms)
    split at h
    · next hclose =>
      split at h
      · cases h
      · obtain ⟨ms, hms, rfl⟩ := Option.map_eq_some_iff.1 h
        rw [hclose.2]
        exact closing (ih hms)
    · obtain ⟨ms, hms, rfl⟩ := Option.map_eq_some_iff.1 h
      exact other (ih hms)

/-- Numbers are put to the characters of a text, which stay what they are. -/
theorem map_fst_numbered (h : numbered spot opened pending cs = some ms) :
    ms.map Prod.fst = cs :=
  numbered_induction (Q := fun _ _ cs ms => ms.map Prod.fst = cs) rfl
    (fun ih => congrArg _ ih) (fun ih => congrArg _ ih) (fun ih => congrArg _ ih) h

/-- Only parentheses have a number. -/
theorem eq_of_mem_numbered (h : numbered spot opened pending cs = some ms) {c : Char} {k : Nat}
    (hmem : (c, some k) ∈ ms) : c = '(' ∨ c = ')' := by
  refine numbered_induction (Q := fun _ _ _ ms => (c, some k) ∈ ms → c = '(' ∨ c = ')')
    ?_ ?_ ?_ ?_ h hmem
  · simp
  · intro opened pending cs ms ih hmem
    rcases List.mem_cons.1 hmem with heq | hmem
    · cases heq
      exact .inl rfl
    · exact ih hmem
  · intro opened k' pending cs ms ih hmem
    rcases List.mem_cons.1 hmem with heq | hmem
    -- the parenthesis that closes has the number of the one that it closes
    · cases heq
      exact .inr rfl
    · exact ih hmem
  · intro opened pending c' cs ms ih hmem
    simpa using ih (List.mem_of_ne_of_mem (by simp) hmem)

/-- Every pair that is open or will be opened is closed. -/
theorem count_closing (h : numbered spot opened pending cs = some ms) (k : Nat) :
    ms.count (')', some k) = ms.count ('(', some k) + pending.count k := by
  refine numbered_induction
    (Q := fun _ pending _ ms => ms.count (')', some k) = ms.count ('(', some k) + pending.count k)
    ?_ ?_ ?_ ?_ h
  · simp
  -- a pair that is opened now counts among those that are open
  · intro opened pending cs ms ih
    simp [List.count_cons] at ih ⊢
    omega
  · intro opened k' pending cs ms ih
    simp [List.count_cons] at ih ⊢
    omega
  · intro opened pending c cs ms ih
    simpa [List.count_cons] using ih

/-- A pair is opened once, and only after those that have been opened. -/
theorem count_opening (h : numbered spot opened pending cs = some ms) (k : Nat) :
    ms.count ('(', some k) ≤ 1 ∧ (k < opened → ms.count ('(', some k) = 0) := by
  refine numbered_induction
    (Q := fun opened _ _ ms =>
      ms.count ('(', some k) ≤ 1 ∧ (k < opened → ms.count ('(', some k) = 0)) ?_ ?_ ?_ ?_ h
  · simp
  · intro opened pending cs ms ih
    by_cases hk : opened = k
    · -- no number is given twice, since the next one is larger
      have hnone := ih.2 (by omega)
      simp [hk, hnone]
    -- another number is neither given nor taken away
    · simp only [List.count_cons]
      simp [hk]
      exact ⟨ih.1, fun hlt => ih.2 (by omega)⟩
  · intro opened k' pending cs ms ih
    simpa [List.count_cons] using ih
  · intro opened pending c cs ms ih
    simpa [List.count_cons] using ih

/-- What is open is closed, and what is opened is closed after that. -/
theorem closing_after_opening (h : numbered spot opened pending cs = some ms) :
    (∀ k ∈ pending, (')', some k) ∈ ms) ∧
      ∀ k, ('(', some k) ∈ ms →
        ∃ before after, ms = before ++ ('(', some k) :: after ∧ (')', some k) ∈ after := by
  refine numbered_induction
    (Q := fun _ pending _ ms => (∀ k ∈ pending, (')', some k) ∈ ms) ∧
      ∀ k, ('(', some k) ∈ ms →
        ∃ before after, ms = before ++ ('(', some k) :: after ∧ (')', some k) ∈ after)
    ?_ ?_ ?_ ?_ h
  · simp
  · intro opened pending cs ms ih
    refine ⟨fun k hk => ?_, fun k hk => ?_⟩
    · exact List.mem_cons_of_mem _ (ih.1 k (List.mem_cons_of_mem _ hk))
    · rcases List.mem_cons.1 hk with heq | hk
      -- the pair that is opened now is closed later, as it is then among those that are open
      · cases heq
        exact ⟨[], ms, rfl, ih.1 opened List.mem_cons_self⟩
      · obtain ⟨before, after, rfl, hafter⟩ := ih.2 k hk
        exact ⟨_ :: before, after, rfl, hafter⟩
  -- the pair that is closed is the innermost one that is open
  · intro opened k' pending cs ms ih
    refine ⟨fun k hk => ?_, fun k hk => ?_⟩
    · rcases List.mem_cons.1 hk with rfl | hk
      · exact List.mem_cons_self
      · exact List.mem_cons_of_mem _ (ih.1 k hk)
    · obtain ⟨before, after, rfl, hafter⟩ := ih.2 k (List.mem_of_ne_of_mem (by simp) hk)
      exact ⟨_ :: before, after, rfl, hafter⟩
  -- any other character belongs to no pair
  · intro opened pending c cs ms ih
    refine ⟨fun k hk => List.mem_cons_of_mem _ (ih.1 k hk), fun k hk => ?_⟩
    obtain ⟨before, after, rfl, hafter⟩ := ih.2 k (List.mem_of_ne_of_mem (by simp) hk)
    exact ⟨_ :: before, after, rfl, hafter⟩

/-- Every parenthesis of a text that has a number belongs to a pair. -/
theorem isPair_of_mem_pairs {s : String} (h : pairs s = some ms) {c : Char} {k : Nat}
    (hmem : (c, some k) ∈ ms) : IsPair ms k := by
  have hcount := count_closing h k
  have hone := (count_opening h k).1
  have hpos := List.count_pos_iff.2 hmem
  rw [List.count_nil] at hcount
  -- the pair is opened, also if the parenthesis is the one that closes it
  have hopen : ('(', some k) ∈ ms := by
    rcases eq_of_mem_numbered h hmem with rfl | rfl
    · exact hmem
    · exact List.count_pos_iff.1 (by omega)
  obtain ⟨before, rest, hms, hclose⟩ := (closing_after_opening h).2 k hopen
  obtain ⟨inside, after, rfl⟩ := List.append_of_mem hclose
  refine ⟨before, inside, after, hms, fun d hd => ?_⟩
  -- there is one of each kind, so no other one has the number
  have hpos' := List.count_pos_iff.2 hd
  rw [hms] at hcount hone
  simp only [List.count_append, List.count_cons] at hcount hone hpos'
  have hms' : (d, some k) ∈ ms := by
    rw [hms]
    simp only [List.mem_append, List.mem_cons] at hd ⊢
    rcases hd with (hd | hd) | hd <;> simp [hd]
  rcases eq_of_mem_numbered h hms' with rfl | rfl
  · simp at hcount hone
    omega
  · simp at hcount hone
    omega

/-! ### Texts without parentheses -/

/-- Characters that are no parentheses. -/
def unnumbered (cs : List Char) : List Numbered := cs.map (·, none)

/-- A text with no parenthesis outside of its strings, which all end in it. -/
def Inert (cs : List Char) : Prop :=
  ∀ opened pending rest, numbered .outside opened pending (cs ++ rest) =
    (numbered .outside opened pending rest).map (unnumbered cs ++ ·)

/-- A text without numbers has no pairs to leave out. -/
theorem withoutPairs_unnumbered (drop : Nat → Bool) (cs : List Char) :
    withoutPairs drop (unnumbered cs) = cs := by
  simp [withoutPairs, unnumbered, List.filter_map, Function.comp_def]

/-- Leaving out pairs goes along the text. -/
theorem withoutPairs_append (drop : Nat → Bool) (ms ns : List Numbered) :
    withoutPairs drop (ms ++ ns) = withoutPairs drop ms ++ withoutPairs drop ns := by
  simp [withoutPairs]

/-- A character that is no parenthesis outside of a string gets no number. -/
theorem numbered_cons_of_ne {c : Char} (hopen : spot = .outside → c ≠ '(')
    (hclose : spot = .outside → c ≠ ')') :
    numbered spot opened pending (c :: cs) =
      (numbered (spot.next c) opened pending cs).map ((c, none) :: ·) := by
  rw [numbered.eq_def]
  exact (if_neg fun h => hopen h.1 h.2).trans (if_neg fun h => hclose h.1 h.2)

namespace Inert

/-- No text has no parentheses. -/
theorem nil : Inert [] := fun opened pending rest => by
  cases h : numbered .outside opened pending rest <;> simp [unnumbered, h]

/-- Texts without parentheses make one text without parentheses. -/
theorem append {ds : List Char} (hcs : Inert cs) (hds : Inert ds) : Inert (cs ++ ds) := by
  intro opened pending rest
  rw [List.append_assoc, hcs, hds, Option.map_map]
  congr 1
  funext ms
  simp [unnumbered]

/-- A character that is neither a parenthesis nor a delimiter. -/
theorem cons {c : Char} (hopen : c ≠ '(') (hclose : c ≠ ')')
    (hdelimiter : Token.isDelimiter c = false) (hcs : Inert cs) : Inert (c :: cs) := by
  intro opened pending rest
  have hnext : Spot.outside.next c = .outside := by simp [Spot.next, hdelimiter]
  rw [List.cons_append, numbered_cons_of_ne (fun _ => hopen) (fun _ => hclose), hnext, hcs,
    Option.map_map]
  rfl

end Inert

/-- Whether a character has a meaning for the pairs of a text. -/
def isMark (c : Char) : Bool := c == '(' || c == ')' || Token.isDelimiter c

/-- A text without marks is passed over. -/
theorem inert_of_isMark (h : cs.any isMark = false) : Inert cs := by
  induction cs with
  | nil => exact .nil
  | cons c cs ih =>
    simp only [List.any_cons, isMark, Bool.or_eq_false_iff, beq_eq_false_iff_ne] at h
    obtain ⟨⟨⟨hopen, hclose⟩, hdelimiter⟩, hcs⟩ := h
    exact .cons hopen hclose hdelimiter (ih hcs)

/-- Characters of a class without parentheses and delimiters. -/
theorem inert_of_class {p : Char → Bool}
    (hp : p '(' = false ∧ p ')' = false ∧ p '\'' = false ∧ p '\x22' = false)
    (h : ∀ c ∈ cs, p c = true) : Inert cs := by
  refine inert_of_isMark (List.any_eq_false.2 fun c hc => ?_)
  simp [isMark, Token.isDelimiter, ne_of_class (h c hc), hp]

/-- What has been escaped is passed over up to the closing delimiter. -/
theorem numbered_escape {delimiter : Char} (hslash : delimiter ≠ '\\') (cs : List Char)
    (opened : Nat) (pending : List Nat) (rest : List Char) :
    numbered (.inside delimiter) opened pending (escape delimiter cs ++ delimiter :: rest) =
      (numbered .outside opened pending rest).map
        (unnumbered (escape delimiter cs ++ [delimiter]) ++ ·) := by
  -- no character inside of a string is a parenthesis
  have hstep : ∀ (spot : Spot) (c : Char) (cs : List Char), spot ≠ .outside →
      numbered spot opened pending (c :: cs) =
        (numbered (spot.next c) opened pending cs).map ((c, none) :: ·) :=
    fun spot c cs h => numbered_cons_of_ne (fun h' => absurd h' h) fun h' => absurd h' h
  induction cs with
  | nil =>
    show numbered _ _ _ (delimiter :: rest) = _
    rw [hstep _ _ _ (by simp), Spot.next, if_neg hslash, if_pos rfl]
    rfl
  | cons c cs ih =>
    unfold escape
    split
    -- a backslash and the character behind it are passed over together
    · simp only [List.cons_append]
      rw [hstep _ _ _ (by simp), Spot.next, if_pos rfl, hstep _ _ _ (by simp), Spot.next, ih,
        Option.map_map, Option.map_map]
      rfl
    · next hplain =>
      rw [not_or] at hplain
      simp only [List.cons_append]
      rw [hstep _ _ _ (by simp), Spot.next, if_neg hplain.1, if_neg hplain.2, ih, Option.map_map]
      rfl

/-- A text between delimiters holds no parentheses, whatever the text is. -/
theorem inert_quote {delimiter : Char} (hd : Token.isDelimiter delimiter = true) (cs : List Char) :
    Inert (quote delimiter cs) := by
  have hslash : delimiter ≠ '\\' := ne_of_class hd (by decide)
  have hopen : delimiter ≠ '(' := ne_of_class hd (by decide)
  have hclose : delimiter ≠ ')' := ne_of_class hd (by decide)
  intro opened pending rest
  have hnext : Spot.outside.next delimiter = .inside delimiter := by simp [Spot.next, hd]
  rw [quote, List.cons_append, List.cons_append, List.append_assoc, List.singleton_append,
    numbered_cons_of_ne (fun _ => hopen) (fun _ => hclose), hnext, numbered_escape hslash,
    Option.map_map]
  rfl

end MetadataFilter.Text
