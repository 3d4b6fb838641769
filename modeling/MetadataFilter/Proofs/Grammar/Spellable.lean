import MetadataFilter.Proofs.Expr.Spellable
import MetadataFilter.Proofs.Grammar.Levels
import MetadataFilter.Proofs.Grammar.Parse
import MetadataFilter.Proofs.Token.Lexeme

/-!
# Filters that have been read can be spelled

The tokens of a text are known by more than their kinds: identifiers are not reserved, and strings
end on their line. This goes over to the tree that the grammar derives from them.

## Key results

- `genuine_of_mem`: what is known of the tokens of a text
- `spellable_of_derives`: what is derivable from such tokens has spellable tests
- `spellable_of_parse`: a filter that has been read has spellable tests and leans to the left
-/

namespace MetadataFilter

open Grammar Text

/-! ### Tokens -/

/-- What is known of a token whose lexeme is known only by its kind. -/
structure Token.Genuine (t : Token) : Prop where
  isIdentifier : t.kind = .identifier → Token.isIdentifier t.lexeme = true
  isLineBreak : t.kind = .quotedString → ∀ c ∈ t.lexeme.toList, Token.isLineBreak c = false

/-- Of the tokens of a stream all but the end have been taken from the text. -/
theorem Token.Stream.mem_taken_or_kind (s : Token.Stream) :
    ∀ t ∈ s.tokens, t ∈ s.taken ∨ t.kind = .endOfInput := by
  induction s with
  | fault e => intro t ht; cases ht
  | finish position =>
    intro t ht
    rw [List.mem_singleton.1 ht]
    exact .inr rfl
  | next token rest ih =>
    intro t ht
    rcases List.mem_cons.1 ht with rfl | ht
    · exact .inl List.mem_cons_self
    · exact (ih t ht).imp_left (List.mem_cons_of_mem token)

/-- The tokens of a text are genuine. -/
theorem Token.genuine_of_mem (text : String) : ∀ t ∈ (Token.stream text).tokens, t.Genuine := by
  intro t ht
  rcases Token.Stream.mem_taken_or_kind _ t ht with ht | hend
  -- a token before the end has been found at the front of some text
  · refine Cursor.forall_mem_taken (P := Token.Genuine) ?_ _ t ht
    intro cs kind lexeme position hfront _
    constructor
    · rintro rfl
      exact Token.isIdentifier_of_front hfront
    · rintro rfl
      simpa using Token.isLineBreak_of_front_quotedString hfront
  · constructor
    · intro h
      rw [hend] at h
      cases h
    · intro h
      rw [hend] at h
      cases h

/-- Dropping escapes brings in no character. -/
theorem Text.mem_of_mem_unescape {delimiter c : Char} {cs : List Char}
    (h : c ∈ unescape delimiter cs) : c ∈ cs := by
  -- every character of the result stands somewhere in the text, escaped or not
  fun_induction unescape delimiter cs with
  | case1 d cs hd ih =>
    rcases List.mem_cons.1 h with rfl | h
    · simp
    · simp [ih h]
  | case2 d cs hd ih =>
    simp only [List.mem_cons] at h
    rcases h with rfl | rfl | h
    · simp
    · simp
    · simp [ih h]
  | case3 d cs hd ih =>
    rcases List.mem_cons.1 h with rfl | h
    · simp
    · simp [ih h]
  | case4 => exact h

/-- Nor does taking away the delimiters. -/
theorem Text.mem_of_mem_unquote {c : Char} {cs : List Char} (h : c ∈ unquote cs) : c ∈ cs := by
  cases cs with
  | nil => exact h
  | cons delimiter cs =>
    exact List.mem_cons_of_mem _ ((List.dropLast_subset cs) (mem_of_mem_unescape h))

/-- What is joined from strings without line breaks has none. -/
theorem isLineBreak_of_mem_joined {previous : Token} {ts : List Token}
    (hprevious : ∀ c ∈ previous.lexeme.toList, Token.isLineBreak c = false)
    (hts : ∀ t ∈ ts, ∀ c ∈ t.lexeme.toList, Token.isLineBreak c = false) :
    ∀ c ∈ joined previous ts, Token.isLineBreak c = false := by
  induction ts generalizing previous with
  | nil => intro c hc; cases hc
  | cons t ts ih =>
    intro c hc
    simp only [joined, List.mem_append] at hc
    -- a character comes from the seam, from the next string, or from a later one
    rcases hc with (hc | hc) | hc
    · unfold Expr.Parser.seam at hc
      split at hc
      · cases hc
      · next delimiter rest hlexeme =>
        split at hc
        · rw [List.mem_singleton.1 hc]
          exact hprevious delimiter (by simp [hlexeme])
        · cases hc
    · exact hts t (by simp) c (Text.mem_of_mem_unquote hc)
    · exact ih (hts t (by simp)) (fun u hu => hts u (by simp [hu])) c hc

/-! ### From the tokens to the tree -/

/-- A name of genuine tokens is a spellable key. -/
theorem spellable_of_name {ts : List Token} {k : Key} (h : Name ts k) (hts : ∀ t ∈ ts, t.Genuine) :
    k.Spellable := by
  -- Identifiers are spellable as they are, and what a string says has no character that its lexeme
  -- lacks.
  cases h with
  | field kind => exact (hts _ (by simp)).isIdentifier kind
  | nested parent_kind dot_kind child_kind =>
    exact ⟨(hts _ (by simp)).isIdentifier parent_kind, (hts _ (by simp)).isIdentifier child_kind⟩
  | @quoted t kind nonempty =>
    constructor
    · simpa [← String.toList_inj] using nonempty
    · intro c hc
      rw [String.toList_ofList] at hc
      exact (hts t (by simp)).isLineBreak kind c (mem_of_mem_unquote hc)

/-- A constant of genuine tokens is a spellable value. -/
theorem spellable_of_literal {ts : List Token} {v : Value} (h : Literal ts v)
    (hts : ∀ t ∈ ts, t.Genuine) : v.Spellable := by
  -- a decimal that has been read is finite
  have hnumber : ∀ {negative t v}, Number negative t v → v.Spellable := by
    intro negative t v h
    cases h with
    | integer => trivial
    | decimal kind finite => exact finite
  cases h with
  | unsigned number | plus kind number | minus kind number => exact hnumber number
  | @strings t ts first others =>
    have hbreak := (hts t (by simp)).isLineBreak first
    intro c hc
    rw [String.toList_ofList] at hc
    rcases List.mem_append.1 hc with hc | hc
    · exact hbreak c (mem_of_mem_unquote hc)
    · exact isLineBreak_of_mem_joined hbreak
        (fun u hu => (hts u (by simp [hu])).isLineBreak (others u hu)) c hc
  | boolean => trivial

/-- Constants of genuine tokens are spellable values. -/
theorem spellable_of_literals {ts : List Token} {vs : List Value} (h : Literals ts vs)
    (hts : ∀ t ∈ ts, t.Genuine) : ∀ v ∈ vs, v.Spellable := by
  induction h with
  | one literal => simpa using spellable_of_literal literal hts
  | more literal kind others ih =>
    intro v hv
    rcases List.mem_cons.1 hv with rfl | hv
    · exact spellable_of_literal literal fun t ht => hts t (by simp [ht])
    · exact ih (fun t ht => hts t (by simp [ht])) v hv

/-- A test of genuine tokens is spellable. -/
theorem spellable_of_test {ts : List Token} {e : Expr} (h : Test ts e)
    (hts : ∀ t ∈ ts, t.Genuine) : ∀ l ∈ e.leaves, l.Spellable := by
  have hlist : ∀ {vs values}, Bracketed vs values → (∀ t ∈ vs, t.Genuine) →
      ∀ v ∈ values.toList, v.Spellable := by
    intro vs values list hvs
    cases list with
    | mk open_kind values close_kind =>
      exact spellable_of_literals values fun t ht => hvs t (by simp [ht])
  cases h with
  | comparison name kind literal =>
    intro l hl
    rw [List.mem_singleton.1 hl]
    refine ⟨spellable_of_name name fun t ht => hts t (by simp [ht]), ?_⟩
    simpa [Leaf.values] using spellable_of_literal literal fun t ht => hts t (by simp [ht])
  | among name kind list | notAmong name not_kind in_kind list | noneOf name kind list =>
    -- the three spellings of a membership test differ in their words only
    intro l hl
    rw [List.mem_singleton.1 hl]
    exact ⟨spellable_of_name name fun t ht => hts t (by simp [ht]),
      hlist list fun t ht => hts t (by simp [ht])⟩

/-- What is derivable from genuine tokens has spellable tests. -/
theorem spellable_of_derives {level : Level} {ts : List Token} {e : Expr} (h : Derives level ts e)
    (hts : ∀ t ∈ ts, t.Genuine) : ∀ l ∈ e.leaves, l.Spellable := by
  induction h with
  | test test => exact spellable_of_test test hts
  | group open_kind inner close_kind ih => exact ih fun t ht => hts t (by simp [ht])
  | operand operand ih => exact ih hts
  | join run kind operand ihl ihr =>
    intro l hl
    rcases List.mem_append.1 hl with hl | hl
    · exact ihl (fun t ht => hts t (by simp [ht])) l hl
    · exact ihr (fun t ht => hts t (by simp [ht])) l hl

/-- A filter that has been read has spellable tests, and its operators lean to the left. -/
theorem spellable_of_parse {text : String} {e : Expr} (h : Expr.parse text = .ok e) :
    (∀ l ∈ e.leaves, l.Spellable) ∧ e.LeansLeft := by
  obtain ⟨⟨-, hfilter⟩, -⟩ := parse_eq_ok_iff.1 h
  have hgenuine := Token.genuine_of_mem (normalize text)
  generalize (Token.stream (normalize text)).tokens = tokens at hfilter hgenuine
  cases hfilter with
  | mk open_kind expr close_kind =>
    exact ⟨spellable_of_derives expr fun t ht => hgenuine t (by simp [ht]),
      e.leansLeft_iff_grouped.2 expr.grouped.1⟩

end MetadataFilter
