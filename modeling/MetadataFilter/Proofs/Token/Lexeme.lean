import MetadataFilter.Proofs.Token.Front

/-!
# The classes of lexemes

Which pieces of text are tokens of which kind, said class by class and without a reader: reserved
words, identifiers, numbers, strings, and marks. `Token.front` finds the longest piece at the front
of a text that is a lexeme, and where it finds none there is none.

## Key results

- `matches_of_front`: what is found is a lexeme of its kind
- `front_of_matches`: where a lexeme is in front, one at least as long is found
- `isLongest_of_front`, `IsLongest.unique`: what is found is the longest lexeme, and its kind is the
  only one
- `front_fault`: where nothing is found no lexeme is in front
- `isIdentifier_of_front`, `isLineBreak_of_front_quotedString`: what identifiers and strings are
-/

namespace MetadataFilter.Token

open Text

/-- The reserved words: all in upper case or all in lower case. -/
def reservedWords : List (String × Kind) :=
  [("WHERE", .whereWord), ("where", .whereWord), ("AND", .andWord), ("and", .andWord),
   ("OR", .orWord), ("or", .orWord), ("IN", .inWord), ("in", .inWord), ("NIN", .ninWord),
   ("nin", .ninWord), ("NOT", .notWord), ("not", .notWord), ("TRUE", .boolean),
   ("true", .boolean), ("FALSE", .boolean), ("false", .boolean)]

/-- The operators and punctuation marks. -/
def marks : List (List Char × Kind) :=
  [(['=', '='], .equal), (['!', '='], .notEqual), (['>'], .greater), (['>', '='], .greaterEqual),
   (['<'], .less), (['<', '='], .lessEqual), (['&', '&'], .andWord), (['|', '|'], .orWord),
   (['.'], .dot), ([','], .comma), (['['], .leftBracket), ([']'], .rightBracket),
   (['('], .leftParen), ([')'], .rightParen), (['-'], .minus), (['+'], .plus)]

/-- `Matches kind cs`: the characters `cs` are a lexeme of the kind. -/
inductive Matches : Kind → List Char → Prop
  | reserved {word : String} {kind : Kind} (mem : (word, kind) ∈ reservedWords) :
      Matches kind word.toList
  | identifier {c : Char} {cs : List Char} (start : isWordStart c = true)
      (chars : ∀ d ∈ cs, isWordChar d = true)
      (not_reserved : ∀ kind, (String.ofList (c :: cs), kind) ∉ reservedWords) :
      Matches .identifier (c :: cs)
  | integer {ds : List Char} (ne_nil : ds ≠ []) (digits : ∀ d ∈ ds, d.isDigit = true) :
      Matches .integer ds
  | decimal {ds es : List Char} (ne_nil : ds ≠ [] ∨ es ≠ []) (digits : ∀ d ∈ ds, d.isDigit = true)
      (fraction : ∀ d ∈ es, d.isDigit = true) : Matches .decimal (ds ++ '.' :: es)
  | quoted {delimiter : Char} {body : List Char} (delimiter_mem : isDelimiter delimiter = true)
      (inner : StringBody delimiter body) :
      Matches .quotedString (delimiter :: (body ++ [delimiter]))
  | mark {cs : List Char} {kind : Kind} (mem : (cs, kind) ∈ marks) : Matches kind cs

/-- The lexeme is the longest one at the front of a text. -/
structure IsLongest (cs : List Char) (kind : Kind) (lexeme : List Char) : Prop where
  lexeme_matches : Matches kind lexeme
  isPrefix : lexeme <+: cs
  length_le : ∀ {kind' lexeme'}, Matches kind' lexeme' → lexeme' <+: cs →
    lexeme'.length ≤ lexeme.length

/-- The fault where no lexeme is in front of a text that starts with `c`. -/
def faultAt (c : Char) : LexFault := if isDelimiter c then .unterminated else .unexpected c

/-- The kinds whose lexemes are in no list. -/
def unlistedKinds : List Kind := [.identifier, .integer, .decimal, .quotedString, .endOfInput]

/-- No reserved word is of a kind that is not listed. -/
theorem notMem_unlistedKinds_of_reserved {word : String} {kind : Kind}
    (h : (word, kind) ∈ reservedWords) : kind ∉ unlistedKinds := by
  have hall : ∀ p ∈ reservedWords, p.2 ∉ unlistedKinds := by decide
  exact hall _ h

/-- No mark is of a kind that is not listed. -/
theorem notMem_unlistedKinds_of_mark {cs : List Char} {kind : Kind} (h : (cs, kind) ∈ marks) :
    kind ∉ unlistedKinds := by
  have hall : ∀ p ∈ marks, p.2 ∉ unlistedKinds := by decide
  exact hall _ h

/-- No lexeme is of the kind of the end. -/
theorem Matches.kind_ne_endOfInput {kind : Kind} {cs : List Char} (h : Matches kind cs) :
    kind ≠ .endOfInput := by
  cases h with
  | reserved mem =>
    rintro rfl
    exact notMem_unlistedKinds_of_reserved mem (by decide)
  | identifier | integer | decimal | quoted => simp
  | mark mem =>
    rintro rfl
    exact notMem_unlistedKinds_of_mark mem (by decide)

/-! ### Words -/

/-- The kind of a word that is reserved is in the list, any other word is an identifier. -/
theorem wordKind_cases (word : String) :
    (word, wordKind word) ∈ reservedWords ∨
      (wordKind word = .identifier ∧ ∀ kind, (word, kind) ∉ reservedWords) := by
  unfold wordKind
  split
  -- the last case is the one of all words that are not listed
  case h_17 =>
    right
    refine ⟨rfl, ?_⟩
    intro kind hmem
    simp_all [reservedWords]
  all_goals
    left
    decide

/-- A word that is not listed is an identifier. -/
theorem wordKind_of_notMem {word : String} (h : ∀ kind, (word, kind) ∉ reservedWords) :
    wordKind word = .identifier := by
  rcases wordKind_cases word with hmem | ⟨hkind, -⟩
  · exact absurd hmem (h _)
  · exact hkind

/-- A word that is listed has the kind from the list. -/
theorem wordKind_of_mem {word : String} {kind : Kind} (h : (word, kind) ∈ reservedWords) :
    wordKind word = kind ∧ isWord word = true := by
  have hall : ∀ p ∈ reservedWords, wordKind p.1 = p.2 ∧ isWord p.1 = true := by decide
  exact hall _ h

/-! ### Lexemes are found -/

/-- A mark that an equals sign carries on. -/
theorem front_of_angle {c : Char} {kind kind' : Kind}
    (hc : ∀ rest, front (c :: rest) = markFront c rest)
    (hlong : markKind c (some '=') = some (kind', 2))
    (hshort : ∀ next, next ≠ some '=' → markKind c next = some (kind, 1)) (rest : List Char) :
    ∃ more k, front (c :: rest) = .token k (c :: more) ∧ (more = [] → k = kind) := by
  rw [hc, markFront]
  by_cases h : rest.head? = some '='
  · obtain ⟨tail, rfl⟩ := List.head?_eq_some_iff.1 h
    exact ⟨['='], kind', by simp [hlong], by simp⟩
  · exact ⟨[], kind, by simp [hshort _ h], fun _ => rfl⟩

/-- A point that a digit carries on. -/
theorem front_of_point (rest : List Char) :
    ∃ more k, front ('.' :: rest) = .token k ('.' :: more) ∧ (more = [] → k = .dot) := by
  cases rest with
  | nil => exact ⟨[], _, rfl, fun _ => rfl⟩
  | cons d tail =>
    -- a digit behind the point makes a decimal of it
    by_cases hd : d.isDigit = true
    · have hdigit : ∀ e ∈ [d], e.isDigit = true := by simpa using hd
      refine ⟨d :: tail.takeWhile Char.isDigit, .decimal, ?_, by simp⟩
      exact (front_point (by simp) hdigit tail).trans
        (@numberFront_decimal [] [d] (by simp) hdigit tail)
    · refine ⟨[], .dot, ?_, fun _ => rfl⟩
      simp [front, hd, isWordStart, isDelimiter, markFront, markKind]

/-- Where a mark is in front, it or a longer lexeme is found. -/
theorem front_of_mark {cs : List Char} {kind : Kind} (h : (cs, kind) ∈ marks) (rest : List Char) :
    ∃ more kind', front (cs ++ rest) = .token kind' (cs ++ more) ∧ (more = [] → kind' = kind) := by
  simp only [marks, List.mem_cons, Prod.mk.injEq, List.not_mem_nil, or_false] at h
  rcases h with ⟨rfl, rfl⟩ | ⟨rfl, rfl⟩ | ⟨rfl, rfl⟩ | ⟨rfl, rfl⟩ | ⟨rfl, rfl⟩ | ⟨rfl, rfl⟩ |
    ⟨rfl, rfl⟩ | ⟨rfl, rfl⟩ | ⟨rfl, rfl⟩ | ⟨rfl, rfl⟩ | ⟨rfl, rfl⟩ | ⟨rfl, rfl⟩ | ⟨rfl, rfl⟩ |
    ⟨rfl, rfl⟩ | ⟨rfl, rfl⟩ | ⟨rfl, rfl⟩
  -- all marks but three are found as they are, whatever follows
  all_goals try exact ⟨[], _, rfl, fun _ => rfl⟩
  · exact front_of_angle (fun _ => rfl) rfl (fun next hnext => by simp [markKind]) rest
  · exact front_of_angle (fun _ => rfl) rfl (fun next hnext => by simp [markKind]) rest
  · exact front_of_point rest

/-- Where a lexeme is in front, it or a longer one is found. -/
theorem front_of_matches {kind : Kind} {cs : List Char} (h : Matches kind cs) (rest : List Char) :
    ∃ more kind', front (cs ++ rest) = .token kind' (cs ++ more) ∧ (more = [] → kind' = kind) := by
  cases h with
  | @reserved word kind mem =>
    obtain ⟨hkind, hword⟩ := wordKind_of_mem mem
    obtain ⟨c, cs, htext, hc, hall⟩ := isWord_iff.1 hword
    have hfront := front_word_append hc (fun d hd => hall d (List.mem_cons_of_mem c hd)) rest
    rw [← htext] at hfront
    -- if no character is added, the word itself decides the kind
    refine ⟨rest.takeWhile isWordChar, _, hfront, ?_⟩
    intro hmore
    rw [hmore, List.append_nil, String.ofList_toList, hkind]
  | @identifier c cs start chars not_reserved =>
    refine ⟨rest.takeWhile isWordChar, _, front_word_append start chars rest, ?_⟩
    intro hmore
    rw [hmore, List.append_nil]
    exact wordKind_of_notMem not_reserved
  | integer ne_nil digits =>
    rw [front_digits ne_nil digits, numberFront, List.dropWhile_append_of_pos digits,
      List.takeWhile_append_of_pos digits]
    -- a point after the digits makes the lexeme longer
    split
    · exact ⟨_, _, by rw [List.append_assoc], by simp⟩
    · exact ⟨_, _, rfl, fun _ => rfl⟩
  | @decimal ds es ne_nil digits fraction =>
    -- a decimal starts with a digit, or with its point
    have hfront : front (ds ++ '.' :: (es ++ rest)) = numberFront (ds ++ '.' :: (es ++ rest)) := by
      by_cases hds : ds = []
      · subst hds
        exact front_point (ne_nil.resolve_left fun h => h rfl) fraction rest
      · exact front_digits hds digits _
    refine ⟨rest.takeWhile Char.isDigit, .decimal, ?_, fun _ => rfl⟩
    simpa using hfront.trans (numberFront_decimal digits fraction rest)
  | quoted delimiter_mem inner =>
    refine ⟨[], .quotedString, ?_, fun _ => rfl⟩
    rw [List.append_nil]
    exact front_string delimiter_mem inner rest
  | mark mem => exact front_of_mark mem rest

/-! ### What is found is a lexeme -/

/-- What is found as a mark is in the list of marks. -/
theorem mem_marks_of_markKind {c : Char} {rest : List Char} {kind : Kind} {n : Nat}
    (h : markKind c rest.head? = some (kind, n)) : ((c :: rest).take n, kind) ∈ marks := by
  unfold markKind at h
  split at h
  all_goals cases h
  -- six marks have the character after them in their second place
  case h_1 | h_2 | h_3 | h_4 | h_5 | h_6 =>
    next hnext =>
    obtain ⟨tail, rfl⟩ := List.head?_eq_some_iff.1 hnext
    simp [marks]
  all_goals simp [marks]

/-- A run that its first character carries on is not empty. -/
theorem takeWhile_ne_nil {p : Char → Bool} {cs : List Char} (h : cs.head?.any p = true) :
    cs.takeWhile p ≠ [] := by
  cases cs with
  | nil => cases h
  | cons c cs =>
    have hc : p c = true := h
    simp [hc]

/-- A number is found where a digit is in front, or a point with a digit after it. -/
theorem matches_of_numberFront {c : Char} {rest lexeme : List Char} {kind : Kind}
    (hc : c.isDigit = true ∨ c = '.' ∧ rest.head?.any Char.isDigit = true)
    (h : numberFront (c :: rest) = .token kind lexeme) : Matches kind lexeme := by
  have hdigits : ∀ cs : List Char, ∀ d ∈ cs.takeWhile Char.isDigit, d.isDigit = true :=
    fun cs => List.all_eq_true.1 List.all_takeWhile
  unfold numberFront at h
  split at h
  · next tail htail =>
    cases h
    refine .decimal ?_ (hdigits _) (hdigits _)
    rcases hc with hd | ⟨rfl, hrest⟩
    · left
      simp [hd]
    -- the point is in front, and the digit comes after it
    -- a single point is found as a mark, so there is a digit behind this one
    · right
      have htail : '.' :: rest = '.' :: tail := htail
      injection htail with _ htail
      subst htail
      exact takeWhile_ne_nil hrest
  · next hno =>
    cases h
    refine .integer ?_ (hdigits _)
    rcases hc with hd | ⟨rfl, hrest⟩
    · simp [hd]
    · exact absurd rfl (hno rest)

/-- A word is found where its first character is in front. -/
theorem matches_of_wordFront {c : Char} {rest lexeme : List Char} {kind : Kind}
    (hc : isWordStart c = true) (h : wordFront (c :: rest) = .token kind lexeme) :
    Matches kind lexeme := by
  have hrun : (c :: rest).takeWhile isWordChar = c :: rest.takeWhile isWordChar := by
    simp [isWordChar_of_isWordStart hc]
  unfold wordFront at h
  rw [hrun] at h
  cases h
  -- a word is in the list of reserved words, or an identifier
  rcases wordKind_cases (String.ofList (c :: rest.takeWhile isWordChar)) with hmem | ⟨hkind, hnot⟩
  · have hmatches := Matches.reserved hmem
    rwa [String.toList_ofList] at hmatches
  · rw [hkind]
    exact .identifier hc (List.all_eq_true.1 List.all_takeWhile) hnot

/-- What is found before the end of a text is a lexeme of its kind. -/
theorem matches_of_front {c : Char} {rest lexeme : List Char} {kind : Kind}
    (h : front (c :: rest) = .token kind lexeme) : Matches kind lexeme := by
  -- the first character decides: a digit or a point, a letter, a quote, or a mark
  simp only [front] at h
  split at h
  · next hc =>
    simp only [Bool.or_eq_true, Bool.and_eq_true, beq_iff_eq] at hc
    exact matches_of_numberFront hc h
  · split at h
    · next hc => exact matches_of_wordFront hc h
    · split at h
      · next hc =>
        unfold stringFront at h
        split at h
        · next taken htaken =>
          cases h
          obtain ⟨body, rfl, hbody⟩ := body_of_closeString htaken
          exact .quoted hc hbody
        · cases h
      · unfold markFront at h
        split at h
        · next kind n hmark =>
          cases h
          exact .mark (mem_marks_of_markKind hmark)
        · cases h

/-- Before the end of a text the end is not found. -/
theorem exists_cons_of_front {cs lexeme : List Char} {kind : Kind}
    (h : front cs = .token kind lexeme) (hk : kind ≠ .endOfInput) :
    ∃ c rest, cs = c :: rest := by
  cases cs with
  | nil =>
    cases h
    exact absurd rfl hk
  | cons c rest => exact ⟨c, rest, rfl⟩

/-- An identifier is a word that is not reserved. -/
theorem isIdentifier_of_front {cs lexeme : List Char}
    (h : front cs = .token .identifier lexeme) : isIdentifier (String.ofList lexeme) = true := by
  obtain ⟨c, rest, rfl⟩ := exists_cons_of_front h (by simp)
  cases matches_of_front h with
  -- the kinds that are listed cannot be those of an identifier
  | reserved mem => exact absurd (by decide) (notMem_unlistedKinds_of_reserved mem)
  | @identifier d ds start chars not_reserved =>
    have hchars : ∀ e ∈ d :: ds, isWordChar e = true := by
      intro e he
      rcases List.mem_cons.1 he with rfl | he
      · exact isWordChar_of_isWordStart start
      · exact chars e he
    have hword : isWord (String.ofList (d :: ds)) = true :=
      isWord_iff.2 ⟨d, ds, String.toList_ofList, start, hchars⟩
    rw [isIdentifier, hword, wordKind_of_notMem not_reserved]
    rfl
  | mark mem => exact absurd (by decide) (notMem_unlistedKinds_of_mark mem)

/-- A string has no line break. -/
theorem isLineBreak_of_front_quotedString {cs lexeme : List Char}
    (h : front cs = .token .quotedString lexeme) : ∀ c ∈ lexeme, isLineBreak c = false := by
  obtain ⟨c, rest, rfl⟩ := exists_cons_of_front h (by simp)
  cases matches_of_front h with
  | reserved mem => exact absurd (by decide) (notMem_unlistedKinds_of_reserved mem)
  | quoted delimiter_mem inner =>
    have hd := isLineBreak_of_isDelimiter delimiter_mem
    have hbody := isLineBreak_of_body inner
    intro d hmem
    simp only [List.mem_cons, List.mem_append, List.not_mem_nil, or_false] at hmem
    rcases hmem with rfl | hmem | rfl
    · exact hd
    · exact hbody d hmem
    · exact hd
  | mark mem => exact absurd (by decide) (notMem_unlistedKinds_of_mark mem)

/-! ### The longest lexeme -/

/-- A lexeme has one kind. -/
theorem Matches.kind_unique {kind kind' : Kind} {cs : List Char} (h : Matches kind cs)
    (h' : Matches kind' cs) : kind = kind' := by
  -- both lexemes are found in front of nothing, and what is found there is unique
  obtain ⟨more, k, hfront, hk⟩ := front_of_matches h []
  obtain ⟨more', k', hfront', hk'⟩ := front_of_matches h' []
  -- in front of nothing, no longer lexeme can be found
  have hmore : more = [] := by
    have := (front_token_isPrefix hfront).length_le
    simp only [List.append_nil, List.length_append] at this
    exact List.length_eq_zero_iff.1 (by omega)
  rw [hfront] at hfront'
  injection hfront' with hkind hlexeme
  have hmore' : more' = [] := List.append_cancel_left (hlexeme.symm.trans (by rw [hmore]))
  rw [← hk hmore, ← hk' hmore', hkind]

/-- What is found before the end of a text is the longest lexeme in front. -/
theorem isLongest_of_front {c : Char} {rest lexeme : List Char} {kind : Kind}
    (h : front (c :: rest) = .token kind lexeme) : IsLongest (c :: rest) kind lexeme := by
  refine ⟨matches_of_front h, front_token_isPrefix h, ?_⟩
  rintro kind' lexeme' hmatches ⟨tail, htail⟩
  obtain ⟨more, k, hfront, -⟩ := front_of_matches hmatches tail
  rw [htail, h] at hfront
  injection hfront with _ hlexeme
  rw [hlexeme, List.length_append]
  exact Nat.le_add_right _ _

/-- There is one longest lexeme, and it has one kind. -/
theorem IsLongest.unique {cs lexeme lexeme' : List Char} {kind kind' : Kind}
    (h : IsLongest cs kind lexeme) (h' : IsLongest cs kind' lexeme') :
    kind = kind' ∧ lexeme = lexeme' := by
  have hlength : lexeme.length = lexeme'.length :=
    Nat.le_antisymm (h'.length_le h.lexeme_matches h.isPrefix)
      (h.length_le h'.lexeme_matches h'.isPrefix)
  have hlexeme : lexeme = lexeme' :=
    (List.prefix_of_prefix_length_le h.isPrefix h'.isPrefix (Nat.le_of_eq hlength)).eq_of_length
      hlength
  subst hlexeme
  exact ⟨h.lexeme_matches.kind_unique h'.lexeme_matches, rfl⟩

/-- A lexeme has at least one character. -/
theorem Matches.ne_nil {kind : Kind} {cs : List Char} (h : Matches kind cs) : cs ≠ [] := by
  cases h with
  | reserved mem =>
    obtain ⟨c, cs, htext, -⟩ := isWord_iff.1 (wordKind_of_mem mem).2
    simp [htext]
  | integer ne_nil => exact ne_nil
  | identifier | decimal | quoted => simp
  | mark mem =>
    have hall : ∀ p ∈ marks, p.1 ≠ [] := by decide
    exact hall _ mem

/-- Where the longest lexeme is known, it is what is found. -/
theorem IsLongest.front_eq {cs lexeme : List Char} {kind : Kind} (h : IsLongest cs kind lexeme) :
    front cs = .token kind lexeme := by
  obtain ⟨rest, rfl⟩ := h.isPrefix
  obtain ⟨more, k, hfront, -⟩ := front_of_matches h.lexeme_matches rest
  obtain ⟨c, tail, htail⟩ : ∃ c tail, lexeme ++ rest = c :: tail :=
    List.exists_cons_of_ne_nil (by simp [h.lexeme_matches.ne_nil])
  rw [htail] at h hfront ⊢
  obtain ⟨rfl, hlexeme⟩ := h.unique (isLongest_of_front hfront)
  rw [hfront, ← hlexeme]

/-- Where nothing is found no lexeme is in front, and the fault says what the first character
is. -/
theorem front_fault {c : Char} {rest consumed : List Char} {fault : LexFault}
    (h : front (c :: rest) = .fault fault consumed) :
    fault = faultAt c ∧ ∀ kind lexeme, Matches kind lexeme → ¬ lexeme <+: c :: rest := by
  constructor
  -- numbers and words are never faults, so what is left is a string without an end or no mark
  · unfold faultAt
    simp only [front] at h
    split at h
    · unfold numberFront at h
      split at h <;> cases h
    · split at h
      · cases h
      · split at h
        · next hc =>
          unfold stringFront at h
          split at h
          · cases h
          · cases h
            exact (if_pos hc).symm
        · next hc =>
          unfold markFront at h
          split at h
          · cases h
          · cases h
            exact (if_neg hc).symm
  -- where no lexeme is found none is in front
  · rintro kind lexeme hmatches ⟨tail, htail⟩
    obtain ⟨more, k, hfront, -⟩ := front_of_matches hmatches tail
    rw [htail, h] at hfront
    cases hfront

end MetadataFilter.Token
