import MetadataFilter.Toml.Writer

/-!
# Strings and names are read back

Each form of a string is read back in front of any rest, as long as the text holds nothing that the
form cannot hold. The forms over several lines allow two delimiters in a row, which are read as a
part of the closing delimiter if they come last; so what is read back is stated with the delimiters
in front that have not been decided about yet.

## Key results

- `basicTail_escape`, `literalTail_append`: forms on one line
- `multiBasicTail_escape_run`, `multiLiteralTail_append_run`: forms over several lines
- `string_writeString`, `name_writeName`: what has been written is read back
-/

namespace MetadataFilter.Toml

open Text.Reader

/-! ### Escapes -/

/-- The digits of an escape stand for their character. -/
theorem ofHex?_hexDigit {c : Char} (h : c.toNat < 0x80) :
    ofHex? ['0', '0', hexDigit (c.toNat / 16), hexDigit (c.toNat % 16)] = some c := by
  have hunit : ∀ n < 0x80, ofHex? ['0', '0', hexDigit (n / 16), hexDigit (n % 16)] =
      some (Char.ofNat n) := by
    decide +kernel
  rw [hunit c.toNat h, Char.ofNat_toNat]

/-- Only characters of ASCII need an escape as control characters. -/
theorem toNat_lt_of_needsEscape {c : Char} (h : needsEscape c = true) : c.toNat < 0x80 := by
  simp only [needsEscape, isPrintable, Bool.and_eq_true, Bool.not_eq_true', Bool.or_eq_false_iff,
    Bool.and_eq_false_iff, decide_eq_false_iff_not, bne_eq_false_iff_eq] at h
  rcases h.1.2 with h | rfl
  · omega
  · decide

/-- A character that stands for itself in strings with escapes. -/
def StandsForItself (c : Char) : Prop := isPrintable c = true ∧ c ≠ '\x22' ∧ c ≠ '\\'

/-- What is written without an escape stands for itself. -/
theorem standsForItself_of_not_escaped {c : Char} (hquote : c ≠ '\x22') (hfeed : c ≠ '\n')
    (h : ¬ (c = '\\' ∨ c = '\t' ∨ c = '\n' ∨ needsEscape c = true)) : StandsForItself c := by
  simp only [not_or] at h
  refine ⟨?_, hquote, h.1⟩
  cases hprintable : isPrintable c with
  | true => rfl
  | false => exact absurd (by simp [needsEscape, hprintable, hfeed]) h.2.2.2

/-- Only characters of ASCII are written as escapes. -/
theorem toNat_lt_of_escaped {c : Char}
    (h : c = '\\' ∨ c = '\t' ∨ c = '\n' ∨ needsEscape c = true) : c.toNat < 0x80 := by
  rcases h with rfl | rfl | rfl | h
  · decide
  · decide
  · decide
  · exact toNat_lt_of_needsEscape h

/-! ### Strings on one line -/

/-- An escape is read as its character. -/
theorem basicTail_escapeChar {c : Char} (h : c.toNat < 0x80) (rest : List Char) :
    basicTail (escapeChar c ++ rest) = (basicTail rest).map (push c) := by
  unfold escapeChar
  split
  all_goals try simp [basicTail, shortEscape?]
  simp [ofHex?_hexDigit h]

/-- A character that stands for itself is read as it is. -/
theorem basicTail_cons {c : Char} (h : StandsForItself c) (rest : List Char) :
    basicTail (c :: rest) = (basicTail rest).map (push c) := by
  obtain ⟨hprintable, hquote, hslash⟩ := h
  rw [basicTail.eq_def]
  split <;> simp_all

/-- A text with escapes is read back. -/
theorem basicTail_escape (cs rest : List Char) (run : Nat) :
    basicTail (escape false 0 run cs ++ '\x22' :: rest) = some (cs, rest) := by
  induction cs generalizing run with
  | nil => rfl
  | cons c cs ih =>
    unfold escape
    split
    -- on one line every quote is escaped
    · next hquote =>
      rw [if_neg (Nat.not_lt_zero run), List.append_assoc,
        basicTail_escapeChar (by rw [hquote]; decide), ih]
      rfl
    · next hquote =>
      rw [if_neg (by simp)]
      split
      · next hescape =>
        rw [List.append_assoc, basicTail_escapeChar (toNat_lt_of_escaped hescape), ih]
        rfl
      · next hescape =>
        have hfeed : c ≠ '\n' := fun h => hescape (.inr (.inr (.inl h)))
        rw [List.cons_append,
          basicTail_cons (standsForItself_of_not_escaped hquote hfeed hescape), ih]
        rfl

/-- A text without escapes is read back. -/
theorem literalTail_append {cs : List Char} (h : ∀ c ∈ cs, isPrintable c = true ∧ c ≠ '\'')
    (rest : List Char) : literalTail (cs ++ '\'' :: rest) = some (cs, rest) := by
  induction cs with
  | nil => rfl
  | cons c cs ih =>
    obtain ⟨hprintable, hne⟩ := h c (by simp)
    rw [List.cons_append, literalTail.eq_def]
    split
    · simp_all
    -- an apostrophe would end the string
    · next heq =>
      cases heq
      rw [if_pos hprintable, ih fun c hc => h c (by simp [hc])]
      rfl
    · simp_all

/-! ### Strings over several lines -/

/-- A character that is printed breaks no line. -/
theorem ne_of_isPrintable {c : Char} (h : isPrintable c = true) : c ≠ '\n' ∧ c ≠ '\r' := by
  constructor
  · rintro rfl
    exact absurd h (by decide)
  · rintro rfl
    exact absurd h (by decide)

/-- Delimiters that something else follows stand for themselves, if one does that no two others
follow. -/
theorem tail_replicate_cons {tail : List Char → Option (List Char × List Char)} {q : Char}
    (hquote : ∀ cs, (∀ rest, cs ≠ q :: q :: rest) → tail (q :: cs) = (tail cs).map (push q))
    {run : Nat} (hrun : run ≤ 2) {c : Char} (hc : c ≠ q) (cs : List Char) :
    tail (List.replicate run q ++ c :: cs) =
      (tail (c :: cs)).map fun r => (List.replicate run q ++ r.1, r.2) := by
  match run, hrun with
  | 0, _ => simp
  | 1, _ =>
    rw [List.replicate_one, List.singleton_append, hquote _ (by simp [hc])]
    rfl
  | 2, _ =>
    show tail (q :: q :: c :: cs) = _
    rw [hquote _ (by simp [hc]), hquote _ (by simp [hc]), Option.map_map]
    rfl

/-- Only blanks and line breaks let a backslash join lines. -/
theorem joinsLines_eq_false {c : Char} (h : isSpace c = false) (hfeed : c ≠ '\n')
    (hreturn : c ≠ '\r') (cs : List Char) : joinsLines (c :: cs) = false := by
  rw [joinsLines, List.dropWhile_cons_of_neg (by simp [h])]
  unfold afterNewline?
  split <;> simp_all

/-- A short escape is read over several lines as on one. -/
theorem multiBasicTail_shortEscape {e x : Char} (h : shortEscape? e = some x)
    (rest : List Char) :
    multiBasicTail false ('\\' :: e :: rest) = (multiBasicTail false rest).map (push x) := by
  have he : e ≠ 'u' ∧ e ≠ 'U' ∧ isSpace e = false ∧ e ≠ '\n' ∧ e ≠ '\r' := by
    unfold shortEscape? at h
    split at h <;> first | decide | cases h
  rw [multiBasicTail.eq_6 _ _ _ (fun _ _ _ _ _ hu => absurd hu he.1)
    (fun _ _ _ _ _ _ _ _ _ hu => absurd hu he.2.1),
    joinsLines_eq_false he.2.2.1 he.2.2.2.1 he.2.2.2.2, h]
  rfl

/-- An escape is read as its character, as it starts with no blank. -/
theorem multiBasicTail_escapeChar {c : Char} (h : c.toNat < 0x80) (rest : List Char) :
    multiBasicTail false (escapeChar c ++ rest) = (multiBasicTail false rest).map (push c) := by
  unfold escapeChar
  split
  -- all but the last form are short
  all_goals try exact multiBasicTail_shortEscape rfl rest
  show ((ofHex? _).bind fun x => (multiBasicTail false rest).map (push x)) = _
  rw [ofHex?_hexDigit h]
  rfl

/-- A character that stands for itself, or a line feed, is read as it is. -/
theorem multiBasicTail_cons {c : Char} (h : StandsForItself c ∨ c = '\n') (rest : List Char) :
    multiBasicTail false (c :: rest) = (multiBasicTail false rest).map (push c) := by
  rcases h with ⟨hprintable, hquote, hslash⟩ | rfl
  · obtain ⟨hfeed, hreturn⟩ := ne_of_isPrintable hprintable
    rw [multiBasicTail.eq_def]
    split <;> simp_all
  · rfl

/-- A quote that no two others follow stands for itself. -/
theorem multiBasicTail_quote {cs : List Char} (h : ∀ rest, cs ≠ '\x22' :: '\x22' :: rest) :
    multiBasicTail false ('\x22' :: cs) = (multiBasicTail false cs).map (push '\x22') := by
  rw [multiBasicTail.eq_def]
  split
  case h_9 heq => cases heq; rfl
  all_goals simp_all

/-- Every escape starts with a backslash. -/
theorem exists_escapeChar (c : Char) : ∃ cs, escapeChar c = '\\' :: cs := by
  unfold escapeChar
  split <;> exact ⟨_, rfl⟩

/-- A text over several lines with escapes is read back, with the quotes in front that have not been
decided about yet. -/
theorem multiBasicTail_escape_run (cs rest : List Char) {run : Nat} (hrun : run ≤ 2) :
    multiBasicTail false (List.replicate run '\x22' ++
      (escape true 2 run cs ++ '\x22' :: '\x22' :: '\x22' :: '\n' :: rest)) =
      some (List.replicate run '\x22' ++ cs, '\n' :: rest) := by
  -- by induction on the text, where the quotes just before it are put in front of the statement
  induction cs generalizing run with
  | nil =>
    -- the quotes that are left belong to the text, as the last three in a row end the string
    match run, hrun with
    | 0, _ => rfl
    | 1, _ => rfl
    | 2, _ => rfl
  | cons c cs ih =>
    -- once something else than a quote comes, the quotes before it are read
    have hpiece : ∀ {x : Char} {piece : List Char}, x ≠ '\x22' →
        (∀ rest, multiBasicTail false (x :: piece ++ rest) =
          (multiBasicTail false rest).map (push c)) →
        multiBasicTail false (List.replicate run '\x22' ++ (x :: piece ++ escape true 2 0 cs ++
          '\x22' :: '\x22' :: '\x22' :: '\n' :: rest)) =
          some (List.replicate run '\x22' ++ c :: cs, '\n' :: rest) := by
      intro x piece hx hread
      have hempty := ih (Nat.zero_le 2)
      simp only [List.replicate_zero, List.nil_append] at hempty
      rw [List.append_assoc, List.cons_append,
        tail_replicate_cons (fun _ => multiBasicTail_quote) hrun hx, ← List.cons_append,
        hread, hempty]
      rfl
    have hescaped : c.toNat < 0x80 →
        multiBasicTail false (List.replicate run '\x22' ++ (escapeChar c ++ escape true 2 0 cs ++
          '\x22' :: '\x22' :: '\x22' :: '\n' :: rest)) =
          some (List.replicate run '\x22' ++ c :: cs, '\n' :: rest) := by
      intro hc
      obtain ⟨piece, hchar⟩ := exists_escapeChar c
      rw [hchar]
      exact hpiece (by decide) fun rest => hchar ▸ multiBasicTail_escapeChar hc rest
    unfold escape
    split
    · next hquote =>
      split
      -- one more quote is undecided, and there is still room for it
      · next hlt =>
        subst hquote
        have hmore := @ih (run + 1) (by omega)
        rw [List.replicate_succ', List.append_assoc, List.append_assoc] at hmore
        exact hmore
      · exact hescaped (by rw [hquote]; decide)
    · next hquote =>
      split
      · next hfeed =>
        exact @hpiece c [] hquote fun rest => multiBasicTail_cons (.inr hfeed.1) rest
      · split
        · next hescape => exact hescaped (toNat_lt_of_escaped hescape)
        · next hescape =>
          have hfeed : c ≠ '\n' := fun h => hescape (.inr (.inr (.inl h)))
          exact @hpiece c [] hquote fun rest =>
            multiBasicTail_cons (.inl (standsForItself_of_not_escaped hquote hfeed hescape)) rest

/-! ### Runs of a delimiter -/

/-- No more than `n` of a character in a row, if `run` of them come before. -/
def RunsAtMost (n : Nat) (x : Char) : Nat → List Char → Prop
  | _, [] => True
  | run, c :: cs => if c = x then run < n ∧ RunsAtMost n x (run + 1) cs else RunsAtMost n x 0 cs

/-- One step in the search for the longest run of a character. -/
def runStep (x : Char) (s : Nat × Nat) (c : Char) : Nat × Nat :=
  if c = x then (s.1 + 1, max s.2 (s.1 + 1)) else (0, s.2)

/-- The longest run is found in one pass over the text. -/
theorem longestRun_eq (x : Char) (cs : List Char) :
    longestRun x cs = (cs.foldl (runStep x) (0, 0)).2 := rfl

/-- The longest run so far does not get shorter. -/
theorem le_foldl_runStep (x : Char) (cs : List Char) (s : Nat × Nat) :
    s.2 ≤ (cs.foldl (runStep x) s).2 := by
  induction cs generalizing s with
  | nil => exact Nat.le_refl _
  | cons c cs ih =>
    refine Nat.le_trans ?_ (ih (runStep x s c))
    unfold runStep
    split
    · exact Nat.le_max_left _ _
    · exact Nat.le_refl _

/-- What the search has found bounds every run that it has passed. -/
theorem runsAtMost_of_foldl {n : Nat} {x : Char} {cs : List Char} {s : Nat × Nat}
    (h : (cs.foldl (runStep x) s).2 ≤ n) : RunsAtMost n x s.1 cs := by
  induction cs generalizing s with
  | nil => trivial
  | cons c cs ih =>
    have hrest : RunsAtMost n x (runStep x s c).1 cs := ih h
    have hlongest := Nat.le_trans (le_foldl_runStep x cs (runStep x s c)) h
    unfold RunsAtMost
    unfold runStep at hrest hlongest
    -- a character of the run makes it longer, and any other one starts it again
    split
    · next hc =>
      rw [if_pos hc] at hrest hlongest
      exact ⟨by simp only at hlongest; omega, hrest⟩
    · next hc =>
      rw [if_neg hc] at hrest
      exact hrest

/-- No run of a character is longer than the longest one. -/
theorem runsAtMost_of_longestRun {n : Nat} {x : Char} {cs : List Char}
    (h : longestRun x cs ≤ n) : RunsAtMost n x 0 cs :=
  runsAtMost_of_foldl (s := (0, 0)) (longestRun_eq x cs ▸ h)

/-- A character without a run is missing. -/
theorem RunsAtMost.notMem {x : Char} {cs : List Char} {run : Nat} (h : RunsAtMost 0 x run cs) :
    x ∉ cs := by
  induction cs generalizing run with
  | nil => simp
  | cons c cs ih =>
    unfold RunsAtMost at h
    split at h
    · exact absurd h.1 (Nat.not_lt_zero _)
    · next hc => simp [Ne.symm hc, ih h]

/-! ### Strings over several lines without escapes -/

/-- A character that is no apostrophe, or a line feed, is read as it is. -/
theorem multiLiteralTail_cons {c : Char} (h : isPrintable c = true ∧ c ≠ '\'' ∨ c = '\n')
    (rest : List Char) : multiLiteralTail (c :: rest) = (multiLiteralTail rest).map (push c) := by
  rcases h with ⟨hprintable, hquote⟩ | rfl
  · obtain ⟨hfeed, hreturn⟩ := ne_of_isPrintable hprintable
    rw [multiLiteralTail.eq_def]
    split <;> simp_all
  · rfl

/-- An apostrophe that no two others follow stands for itself. -/
theorem multiLiteralTail_quote {cs : List Char} (h : ∀ rest, cs ≠ '\'' :: '\'' :: rest) :
    multiLiteralTail ('\'' :: cs) = (multiLiteralTail cs).map (push '\'') := by
  rw [multiLiteralTail.eq_def]
  split
  case h_6 heq => cases heq; rfl
  all_goals simp_all

/-- A text over several lines without escapes is read back, with the apostrophes in front that have
not been decided about yet. -/
theorem multiLiteralTail_append_run {cs : List Char} {run : Nat} (hrun : run ≤ 2)
    (h : ∀ c ∈ cs, isPrintable c = true ∨ c = '\n') (hruns : RunsAtMost 2 '\'' run cs)
    (rest : List Char) :
    multiLiteralTail (List.replicate run '\'' ++ (cs ++ '\'' :: '\'' :: '\'' :: '\n' :: rest)) =
      some (List.replicate run '\'' ++ cs, '\n' :: rest) := by
  induction cs generalizing run with
  | nil =>
    match run, hrun with
    | 0, _ => rfl
    | 1, _ => rfl
    | 2, _ => rfl
  | cons c cs ih =>
    have hcs : ∀ c ∈ cs, isPrintable c = true ∨ c = '\n' := fun c hc => h c (by simp [hc])
    unfold RunsAtMost at hruns
    -- one more apostrophe is undecided, which the bound on runs allows
    split at hruns
    · next hquote =>
      subst hquote
      have hmore := @ih (run + 1) hruns.1 hcs hruns.2
      rw [List.replicate_succ', List.append_assoc, List.append_assoc] at hmore
      exact hmore
    -- the apostrophes before this character are decided about, and none is left
    · next hquote =>
      have hempty := ih (Nat.zero_le 2) hcs hruns
      simp only [List.replicate_zero, List.nil_append] at hempty
      have hread := (h c (by simp)).imp_left fun hprintable => And.intro hprintable hquote
      rw [List.cons_append, tail_replicate_cons (fun _ => multiLiteralTail_quote) hrun hquote,
        multiLiteralTail_cons hread, hempty]
      rfl

/-! ### What has been written -/

/-- A quote without two others after it starts a string with escapes on one line. -/
theorem string_basic {cs : List Char} (h : ∀ rest, cs ≠ '\x22' :: '\x22' :: rest) :
    string ('\x22' :: cs) = (basicTail cs).map fun r => (String.ofList r.1, r.2) := by
  unfold string
  split <;> simp_all

/-- An apostrophe without two others after it starts a string without escapes on one line. -/
theorem string_literal {cs : List Char} (h : ∀ rest, cs ≠ '\'' :: '\'' :: rest) :
    string ('\'' :: cs) = (literalTail cs).map fun r => (String.ofList r.1, r.2) := by
  unfold string
  split <;> simp_all

/-- A string on one line is written without quotes inside. -/
theorem escape_ne_quotes (cs rest tail : List Char) :
    escape false 0 0 cs ++ '\x22' :: '\n' :: rest ≠ '\x22' :: '\x22' :: tail := by
  cases cs with
  | nil => simp [escape]
  | cons c cs =>
    obtain ⟨piece, hchar⟩ := exists_escapeChar c
    unfold escape
    rw [if_neg (Nat.not_lt_zero 0), hchar]
    split
    · simp
    · next hquote =>
      split
      · simp [hquote]
      · split <;> simp [hquote]

/-- A string between three delimiters may start with a line break that does not count. -/
theorem dropNewline_append {lines : Bool} {cs : List Char}
    (h : lines = false → ∀ c ∈ cs.head?, c ≠ '\n' ∧ c ≠ '\r') :
    dropNewline ((if lines then ['\n'] else []) ++ cs) = cs := by
  cases lines with
  | true => rfl
  | false =>
    have hhead := h rfl
    cases cs with
    | nil => rfl
    | cons c cs =>
      obtain ⟨hfeed, hreturn⟩ := hhead c rfl
      show (afterNewline? (c :: cs)).getD (c :: cs) = c :: cs
      unfold afterNewline?
      split <;> simp_all

/-- A string with escapes on one line is read back. -/
theorem string_between_escape (cs rest : List Char) :
    string (between '\x22' (escape false 0 0 cs) ++ '\n' :: rest) =
      some (String.ofList cs, '\n' :: rest) := by
  show string ('\x22' :: (escape false 0 0 cs ++ ['\x22'] ++ '\n' :: rest)) = _
  rw [List.append_assoc, List.singleton_append, string_basic (escape_ne_quotes cs rest),
    basicTail_escape]
  rfl

/-- A string without escapes on one line is read back. -/
theorem string_between_literal {cs : List Char}
    (h : ∀ c ∈ cs, isPrintable c = true ∧ c ≠ '\'') (rest : List Char) :
    string (between '\'' cs ++ '\n' :: rest) = some (String.ofList cs, '\n' :: rest) := by
  have hne : ∀ tail, cs ++ '\'' :: '\n' :: rest ≠ '\'' :: '\'' :: tail := by
    cases cs with
    | nil => simp
    | cons c cs => simp [(h c (by simp)).2]
  show string ('\'' :: (cs ++ ['\''] ++ '\n' :: rest)) = _
  rw [List.append_assoc, List.singleton_append, string_literal hne, literalTail_append h]
  rfl

/-- A text with escapes starts with a line break only if the text does. -/
theorem head?_escape (cs tail : List Char) :
    ∀ c ∈ (escape true 2 0 cs ++ '\x22' :: tail).head?, c ≠ '\r' ∧ ('\n' ∉ cs → c ≠ '\n') := by
  cases cs with
  | nil => simp [escape]
  | cons c cs =>
    obtain ⟨piece, hchar⟩ := exists_escapeChar c
    unfold escape
    rw [if_pos (Nat.zero_lt_two), hchar]
    split
    · next hquote => simp [hquote]
    · next hquote =>
      split
      -- a line feed would have been passed over before, and other breaks are escaped
      · next hfeed => simp [hfeed.1]
      · split
        · simp
        · next hescape =>
          have hfeed : c ≠ '\n' := fun h => hescape (.inr (.inr (.inl h)))
          have hreturn : c ≠ '\r' := by
            rintro rfl
            exact hescape (by decide)
          simp [hfeed, hreturn]

/-- A string with escapes over several lines is read back. -/
theorem string_betweenThree_escape {lines : Bool} {cs : List Char}
    (h : lines = false → '\n' ∉ cs) (rest : List Char) :
    string (betweenThree '\x22' lines (escape true 2 0 cs) ++ '\n' :: rest) =
      some (String.ofList cs, '\n' :: rest) := by
  -- the first line break does not count, and what follows is read to its end
  have htail : multiBasicTail false
      (dropNewline ((if lines then ['\n'] else []) ++ (escape true 2 0 cs ++
        '\x22' :: '\x22' :: '\x22' :: '\n' :: rest))) = some (cs, '\n' :: rest) := by
    rw [dropNewline_append fun hlines c hc =>
      ⟨(head?_escape cs _ c hc).2 (h hlines), (head?_escape cs _ c hc).1⟩]
    exact multiBasicTail_escape_run cs rest (Nat.zero_le 2)
  show string ('\x22' :: '\x22' :: '\x22' :: ((if lines then ['\n'] else []) ++
    escape true 2 0 cs ++ ['\x22', '\x22', '\x22'] ++ '\n' :: rest)) = _
  rw [List.append_assoc, List.append_assoc]
  show (multiBasicTail false _).map _ = _
  rw [List.cons_append, List.cons_append, List.cons_append, List.nil_append, htail]
  rfl

/-- A string without escapes over several lines is read back. -/
theorem string_betweenThree_literal {lines : Bool} {cs : List Char}
    (h : lines = false → '\n' ∉ cs) (hprintable : ∀ c ∈ cs, isPrintable c = true ∨ c = '\n')
    (hruns : RunsAtMost 2 '\'' 0 cs) (rest : List Char) :
    string (betweenThree '\'' lines cs ++ '\n' :: rest) =
      some (String.ofList cs, '\n' :: rest) := by
  -- without a line feed in the text the string starts with a character that is printed
  have hhead : lines = false → ∀ c ∈ (cs ++ '\'' :: '\'' :: '\'' :: '\n' :: rest).head?,
      c ≠ '\n' ∧ c ≠ '\r' := by
    intro hlines
    cases cs with
    | nil => simp
    | cons c cs =>
      have hfeed : c ≠ '\n' := by
        rintro rfl
        exact h hlines List.mem_cons_self
      have hprinted := (hprintable c List.mem_cons_self).resolve_right hfeed
      simp [ne_of_isPrintable hprinted]
  have htail : multiLiteralTail
      (dropNewline ((if lines then ['\n'] else []) ++ (cs ++
        '\'' :: '\'' :: '\'' :: '\n' :: rest))) = some (cs, '\n' :: rest) := by
    rw [dropNewline_append hhead]
    exact multiLiteralTail_append_run (Nat.zero_le 2) hprintable hruns rest
  show string ('\'' :: '\'' :: '\'' :: ((if lines then ['\n'] else []) ++ cs ++
    ['\'', '\'', '\''] ++ '\n' :: rest)) = _
  rw [List.append_assoc, List.append_assoc]
  show (multiLiteralTail _).map _ = _
  rw [List.cons_append, List.cons_append, List.cons_append, List.nil_append, htail]
  rfl

/-- A string is read back in front of a line break. -/
theorem string_writeString (s : String) (rest : List Char) :
    string ((writeString s).toList ++ '\n' :: rest) = some (s, '\n' :: rest) := by
  -- without control characters each character is printed or a line feed
  have hcontrol : s.toList.any needsEscape = false →
      ∀ c ∈ s.toList, isPrintable c = true ∨ c = '\n' := by
    intro h c hc
    have := List.any_eq_false.1 h c hc
    simp only [needsEscape, Bool.and_eq_true, Bool.not_eq_true', bne_iff_ne, ne_eq, not_and,
      Decidable.not_not] at this
    cases hprintable : isPrintable c with
    | true => exact .inl rfl
    | false => exact .inr (this hprintable)
  have hlines : s.toList.contains '\n' = false → '\n' ∉ s.toList := by simp
  have hs : s = String.ofList s.toList := String.ofList_toList.symm
  unfold writeString
  rw [String.toList_ofList]
  conv => rhs; rw [hs]
  -- one case for each form, in the order in which the writer tries them
  split
  · exact string_between_escape _ rest
  · split
    · next h =>
      simp only [Bool.and_eq_true, Bool.not_eq_true', beq_iff_eq] at h
      refine string_between_literal (fun c hc => ⟨?_, ?_⟩) rest
      · refine (hcontrol h.1.1 c hc).resolve_right ?_
        rintro rfl
        exact hlines h.2 hc
      · rintro rfl
        exact (runsAtMost_of_longestRun (Nat.le_of_eq h.1.2)).notMem hc
    · split
      · exact string_betweenThree_escape hlines rest
      · split
        · next h =>
          simp only [Bool.and_eq_true, Bool.not_eq_true', decide_eq_true_eq] at h
          exact string_betweenThree_literal hlines (hcontrol h.1) (runsAtMost_of_longestRun h.2)
            rest
        · split
          · exact string_betweenThree_escape hlines rest
          · exact string_between_escape _ rest

/-- A name between quotes is read back. -/
theorem name_between_escape (cs rest : List Char) :
    name (between '\x22' (escape false 0 0 cs) ++ rest) = some (String.ofList cs, rest) := by
  show (basicTail (escape false 0 0 cs ++ ['\x22'] ++ rest)).map _ = _
  rw [List.append_assoc, List.singleton_append, basicTail_escape]
  rfl

/-- A name between apostrophes is read back. -/
theorem name_between_literal {cs : List Char}
    (h : ∀ c ∈ cs, isPrintable c = true ∧ c ≠ '\'') (rest : List Char) :
    name (between '\'' cs ++ rest) = some (String.ofList cs, rest) := by
  show (literalTail (cs ++ ['\''] ++ rest)).map _ = _
  rw [List.append_assoc, List.singleton_append, literalTail_append h]
  rfl

/-- A bare name ends in front of a character that no bare name holds. -/
theorem name_bare {cs : List Char} (hne : cs ≠ []) (h : ∀ c ∈ cs, isBare c = true) {c : Char}
    (hc : isBare c = false) (rest : List Char) :
    name (cs ++ c :: rest) = some (String.ofList cs, c :: rest) := by
  have htake : (cs ++ c :: rest).takeWhile isBare = cs := by
    rw [List.takeWhile_append_of_pos h, List.takeWhile_cons_of_neg (by simp [hc]), List.append_nil]
  have hdrop : (cs ++ c :: rest).dropWhile isBare = c :: rest := by
    rw [List.dropWhile_append_of_pos h, List.dropWhile_cons_of_neg (by simp [hc])]
  cases cs with
  | nil => exact absurd rfl hne
  | cons d ds =>
    have hd : isBare d = true := h d List.mem_cons_self
    unfold name
    -- the name does not start with a quotation mark, so the reader takes it for a bare one
    split
    · next heq => cases heq; exact absurd hd (by decide)
    · next heq => cases heq; exact absurd hd (by decide)
    · rw [htake, hdrop, if_pos (by simp [hd])]
      rfl

/-- A name is read back in front of a blank. -/
theorem name_writeName (s : String) (rest : List Char) :
    name ((writeName s).toList ++ ' ' :: rest) = some (s, ' ' :: rest) := by
  have hs : s = String.ofList s.toList := String.ofList_toList.symm
  unfold writeName
  conv => rhs; rw [hs]
  dsimp only
  split
  -- a name that can be bare has at least one character
  · next hbare =>
    simp only [Bool.and_eq_true, Bool.not_eq_true', List.isEmpty_eq_false_iff,
      List.all_eq_true] at hbare
    exact name_bare hbare.1 hbare.2 (by decide) rest
  · rw [String.toList_ofList]
    split
    · exact name_between_escape _ _
    · split
      · next h =>
        simp only [Bool.and_eq_true, Bool.not_eq_true', List.any_eq_false, Bool.or_eq_true,
          beq_iff_eq, not_or, List.contains_eq_mem, decide_eq_false_iff_not] at h
        refine name_between_literal (fun c hc => ⟨?_, ?_⟩) _
        · obtain ⟨hneeds, hfeed⟩ := h.1 c hc
          cases hprintable : isPrintable c with
          | true => rfl
          | false => exact absurd (by simp [needsEscape, hprintable, hfeed]) hneeds
        · rintro rfl
          exact h.2 hc
      · exact name_between_escape _ _

end MetadataFilter.Toml
