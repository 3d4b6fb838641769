import MetadataFilter.Proofs.Expr.Keys
import MetadataFilter.Proofs.Reading.Sql
import MetadataFilter.Proofs.Render.Verbatim

/-!
# Conditions in SQL are read back

What is written as a condition is read as the tree that was meant, whatever stands in the strings,
the names and the keys: nothing of them gets out of its literal.

## Key results

- `written_field`, `written_value`: the parts of a test
- `Represents.alike`: a condition stands for one filter, up to keys with the same path
- `exists_represents`: what is written is read as a condition that stands for the filter
-/

namespace MetadataFilter

/-- A key by its path alone. -/
def RenderConfig.resolved (config : RenderConfig) (k : Key) : Key :=
  match config.path k with
  | .flat name => .quoted name
  | .nested parent child => .nested parent child

namespace Sql

open Reading Text

/-! ### What conditions mean -/

/-- The field at the end of a path into what `t` stands for. -/
def access (t : Term) : List String → Term
  | [] => t
  | [last] => .apply "->>" t (.constant (.text last))
  | first :: rest => access (.apply "->" t (.constant (.text first))) rest

/-- A field with its cast. -/
def Cast.term (t : Term) : Cast → Term
  | .text => t
  | .numeric => .cast t "numeric"
  | .boolean => .cast t "boolean"

/-- The field of a key, in the column that holds metadata. -/
def fieldTerm (config : RenderConfig) (k : Key) (cast : Cast) : Term :=
  cast.term (access (.column config.metadataColumn) (config.path k).segments)

/-- `Represents config t e`: the condition `t` stands for the filter `e`, which has no parentheses.
All values of a test have the type that its field is cast to. -/
inductive Represents (config : RenderConfig) : Term → Expr → Prop
  | comparison (k : Key) (op : CompareOp) (v : Value) :
      Represents config
        (.apply (operator op) (fieldTerm config k (Cast.ofValue v)) (.constant v))
        (.comparison k op v)
  | membership (k : Key) (negated : Bool) {vs : ValueList} {cast : Cast}
      (type : ∀ v ∈ vs.toList, Cast.ofValue v = cast) :
      Represents config
        (.among (fieldTerm config k cast) negated (vs.toList.map .constant))
        (.membership k negated vs)
  | join (c : Connective) {t u : Term} {left right : Expr} (first : Represents config t left)
      (second : Represents config u right) :
      Represents config (.connect c t u) (.join c left right)

/-! ### Strings, columns and values -/

/-- The characters that may carry a name or a string on. -/
def carriesNameOn : Char → Bool := allBut [' ', ',', ')', '-', ':']

/-- A string between single quotes is read back. -/
theorem exists_string (p : Nat) (s : String) :
    ∃ ts, Scans front carriesNameOn (quoteDoubled '\'' s).toList ts ∧
      language.toOperators.Reads p ts (.constant (.text s)) :=
  ⟨_, (scans_string s).allBut (by decide), .operand p fun _ _ _ => rfl⟩

/-- A string is written between single quotes, with those in it doubled. -/
theorem string_eq_ok {s text : String} (h : string s = .ok text) : text = quoteDoubled '\'' s := by
  unfold string at h
  split at h <;> cases h
  rfl

/-- Plain names have no letters that folding changes. -/
theorem isUpper_of_isNameStart {c : Char} (h : isNameStart c = true) :
    Token.isWordStart c = true ∧ c.isUpper = false := by
  simp only [isNameStart, Bool.or_eq_true, beq_iff_eq] at h
  rcases h with hlower | rfl
  · have halpha : (c.isUpper || c.isLower) = true := by rw [hlower, Bool.or_true]
    refine ⟨Bool.or_eq_true_iff.2 (.inl halpha), Bool.eq_false_iff.2 fun hupper => ?_⟩
    have := toNat_of_isLower hlower
    have := toNat_of_isUpper hupper
    omega
  · decide

/-- A character of a plain name is one of a word that folding does not change. -/
theorem isUpper_of_isNameChar {c : Char} (h : (isNameStart c || c.isDigit) = true) :
    Token.isWordChar c = true ∧ c.isUpper = false := by
  rcases Bool.or_eq_true_iff.1 h with hstart | hdigit
  · obtain ⟨hword, hupper⟩ := isUpper_of_isNameStart hstart
    exact ⟨isWordChar_of_isWordStart hword, hupper⟩
  · refine ⟨by simp [Token.isWordChar, Char.isAlphanum, hdigit],
      Bool.eq_false_iff.2 fun hupper => ?_⟩
    have := toNat_of_isDigit hdigit
    have := toNat_of_isUpper hupper
    omega

/-- A plain name is a word that is no keyword and that folding does not change. -/
theorem isWord_of_isPlainName {name : String} (h : isPlainName name = true) :
    Token.isWord name = true ∧ name.toList.map Char.toLower = name.toList ∧
      name ∉ reservedWords := by
  unfold isPlainName at h
  cases htext : name.toList with
  | nil => rw [htext] at h; cases h
  | cons c cs =>
    rw [htext] at h
    simp only [Bool.and_eq_true, List.all_eq_true, Bool.not_eq_true', contains_reservedTable,
      decide_eq_false_iff_not] at h
    obtain ⟨⟨hc, hcs⟩, hreserved⟩ := h
    -- what holds of the first character and of the others holds of the whole name
    have hall : ∀ d ∈ c :: cs, Token.isWordChar d = true ∧ d.isUpper = false := by
      intro d hd
      rcases List.mem_cons.1 hd with rfl | hd
      · exact isUpper_of_isNameChar (Bool.or_eq_true_iff.2 (.inl hc))
      · exact isUpper_of_isNameChar (hcs d hd)
    have hstart := (isUpper_of_isNameStart hc).1
    refine ⟨isWord_iff.2 ⟨c, cs, htext, hstart, fun d hd => (hall d hd).1⟩, ?_, hreserved⟩
    have hlower : ∀ d ∈ c :: cs, d.toLower = id d :=
      fun d hd => toLower_of_isUpper_eq_false (hall d hd).2
    rw [List.map_congr_left hlower, List.map_id]

/-- A column is read whether its name is quoted or not. -/
theorem exists_identifier (p : Nat) (name : String) :
    ∃ ts, Scans front carriesNameOn (identifier name).toList ts ∧
      language.toOperators.Reads p ts (.column name) := by
  unfold identifier
  split
  -- without quotes the name is a word that folding keeps and that is none of the reader's words
  · next hplain =>
    obtain ⟨hword, hlower, hreserved⟩ := isWord_of_isPlainName hplain
    have hscan := scans_word hword
    rw [hlower, String.ofList_toList] at hscan
    have hkeywords : ∀ w ∈ keywords, w ∈ reservedWords := by decide
    have hkeyword : name ∉ keywords := fun h => hreserved (hkeywords name h)
    -- the words for truth values are keywords of the reader as well
    have hbool : name ≠ "true" ∧ name ≠ "false" := by
      constructor
      · rintro rfl
        exact hkeyword (by decide)
      · rintro rfl
        exact hkeyword (by decide)
    refine ⟨_, hscan.allBut (by decide), .operand p fun depth rest _ => ?_⟩
    show operand (language.toOperators.expr depth) (.word name :: rest) = _
    rw [operand, if_neg hbool.1, if_neg hbool.2, if_neg (by simp [hkeyword, hreserved])]
  · exact ⟨_, (scans_quotedName name).allBut (by decide), .operand p fun _ _ _ => rfl⟩

/-- Values are read back. -/
theorem written_value (p : Nat) {v : Value} {s : String} (h : value v = .ok s) :
    language.Written p s.toList (.constant v) := by
  rcases Value.render_cases h with ⟨negative, ds, htext, hds, hvalue⟩ | ⟨b, rfl, rfl⟩ | ⟨t, rfl, ht⟩
  -- a sign is an operator of its own in front of the digits
  · have hminus : Scans front isOperatorChar ['-'] [.operator "-"] :=
      scans_operator (by decide) (by decide)
    rw [htext]
    exact .numeral p hds hvalue (scans_number hds) (by decide) hminus
      (fun _ => isOperatorChar_of_isDigit) (fun _ _ => rfl) (fun _ _ => rfl)
  · have hword : Token.isWord (if b then "true" else "false") = true := by cases b <;> decide
    refine ⟨_, (scans_word hword).allBut (by decide), .operand p fun depth rest _ => ?_⟩
    cases b with
    | false => rfl
    | true => rfl
  · rw [string_eq_ok ht]
    exact ⟨_, (scans_string t).allBut (by decide), .operand p fun _ _ _ => rfl⟩

/-! ### Fields -/

/-- What `t` is written as reaches a field with one more name on its path. -/
theorem exists_arrow {cs : List Char} {ts : List Lexeme} {t : Term} {symbol : String}
    (hsymbol : symbol = "->" ∨ symbol = "->>") (hscan : Scans front carriesNameOn cs ts)
    (hreads : language.toOperators.Reads 5 ts t) (name : String) :
    ∃ us, Scans front carriesNameOn (cs ++ (symbol.toList ++ (quoteDoubled '\'' name).toList)) us ∧
      language.toOperators.Reads 5 us (.apply symbol t (.constant (.text name))) := by
  -- an arrow ends before the quote, so it is one operator
  obtain ⟨us, hscan', hreads'⟩ := exists_string 6 name
  have hquote : isOperatorChar '\'' = false := by decide
  rw [toList_quoteDoubled] at hscan' ⊢
  have hbinding : ∀ rest, language.binding (.operator symbol :: rest) = 5 := by
    rcases hsymbol with rfl | rfl <;> exact fun rest => rfl
  have hextend : ∀ inner x rest, language.extend inner x (.operator symbol :: rest) =
      (inner 6 rest).map fun r => (Term.apply symbol x r.1, r.2) := by
    rcases hsymbol with rfl | rfl <;> exact fun inner x rest => rfl
  refine ⟨ts ++ .operator symbol :: us, ?_, hreads.operator hbinding hextend hreads'⟩
  rcases hsymbol with rfl | rfl
  · have harrow : Scans front isOperatorChar "->".toList [.operator "->"] :=
      scans_operator (by decide) (by decide)
    exact hscan.append (by decide) (harrow.append hquote hscan')
  · have harrow : Scans front isOperatorChar "->>".toList [.operator "->>"] :=
      scans_operator (by decide) (by decide)
    exact hscan.append (by decide) (harrow.append hquote hscan')

/-- The types that are cast to. -/
def castTypes : List String := ["numeric", "boolean", "jsonb", "jsonpath"]

/-- A cast of a piece that ends before colons. -/
theorem written_cast {stop : Char → Bool} {cs : List Char} {ts : List Lexeme} {t : Term}
    {type : String} (htype : type ∈ castTypes)
    (hstop : stop ':' = false) (hscan : Scans front stop cs ts)
    (hreads : language.toOperators.Reads 6 ts t) :
    language.Written 6 (cs ++ ':' :: ':' :: type.toList) (.cast t type) := by
  -- the names of types are words that are written in lower case
  have htypes : ∀ w ∈ castTypes, Token.isWord w = true ∧
      String.ofList (w.toList.map Char.toLower) = w := by
    decide
  obtain ⟨hisWord, hlower⟩ := htypes type htype
  have hword : Scans front mayCarryOn type.toList [.word type] := by
    have hscan := scans_word hisWord
    rw [hlower] at hscan
    exact hscan.allBut (by decide)
  have hmark : Scans front (fun _ => false) [':', ':'] [.castMark] :=
    Scans.lexeme (fun rest _ => rfl) (by decide)
  have hcast : Scans front mayCarryOn (':' :: ':' :: type.toList) [.castMark, .word type] := by
    obtain ⟨c, cs, htext, -⟩ := isWord_iff.1 hisWord
    rw [htext] at hword ⊢
    exact hmark.append rfl hword
  refine ⟨ts ++ .castMark :: [.word type], hscan.append hstop hcast, ?_⟩
  exact hreads.suffix (fun rest => rfl) fun depth rest _ => rfl

/-- The text of a field with its cast. -/
def Cast.enclose (path : String) : Cast → String
  | .text => path
  | .numeric => "(" ++ path ++ ")::numeric"
  | .boolean => "(" ++ path ++ ")::boolean"

/-- The path of a key into the column, without a cast. -/
theorem exists_access {config : RenderConfig} {k : Key} {cast : Cast} {s : String}
    (h : field config k cast = .ok s) :
    ∃ (path : String) (ts : List Lexeme), Scans front carriesNameOn path.toList ts ∧
      language.toOperators.Reads 5 ts
        (access (.column config.metadataColumn) (config.path k).segments) ∧
      s = cast.enclose path := by
  obtain ⟨ts, hscan, hreads⟩ := exists_identifier 5 config.metadataColumn
  unfold field at h
  cases hpath : config.path k with
  -- a name by itself is one arrow away from the column
  | flat name =>
    rw [hpath] at h
    obtain ⟨text, hname, h⟩ := Rendered.bind_eq_ok h
    obtain rfl := string_eq_ok hname
    cases h
    obtain ⟨us, hscan', hreads'⟩ := exists_arrow (.inr rfl) hscan hreads name
    refine ⟨_, us, ?_, hreads', by cases cast <;> rfl⟩
    simpa using hscan'
  | nested parent child =>
    rw [hpath] at h
    obtain ⟨text, hparent, h⟩ := Rendered.bind_eq_ok h
    obtain ⟨text', hchild, h⟩ := Rendered.bind_eq_ok h
    obtain rfl := string_eq_ok hparent
    obtain rfl := string_eq_ok hchild
    cases h
    -- one arrow after the other: the first keeps a document, the second takes its text
    obtain ⟨us, hscan', hreads'⟩ := exists_arrow (.inl rfl) hscan hreads parent
    obtain ⟨vs, hscan'', hreads''⟩ := exists_arrow (.inr rfl) hscan' hreads' child
    refine ⟨_, vs, ?_, hreads'', by cases cast <;> rfl⟩
    simpa [List.append_assoc] using hscan''

/-- A field is read with its path and its cast. -/
theorem written_field {config : RenderConfig} {k : Key} {cast : Cast} {s : String}
    (h : field config k cast = .ok s) : language.Written 5 s.toList (fieldTerm config k cast) := by
  obtain ⟨path, ts, hscan, hreads, rfl⟩ := exists_access h
  have hpath : language.Written 5 path.toList
      (access (.column config.metadataColumn) (config.path k).segments) :=
    ⟨ts, hscan.allBut (by decide), hreads⟩
  have hcast : ∀ type ∈ castTypes,
      language.Written 5 ('(' :: (path.toList ++ [')']) ++ ':' :: ':' :: type.toList)
        (.cast (access (.column config.metadataColumn) (config.path k).segments) type) := by
    intro type htype
    -- the parentheses keep the cast from belonging to the name of the field alone
    obtain ⟨us, hscan', hreads'⟩ :=
      (hpath.loosen (by decide)).exists_enclosed 6 (fun _ => false)
    exact (written_cast htype rfl hscan' hreads').loosen (by decide)
  cases cast with
  | text => exact hpath
  | numeric => simpa [fieldTerm, Cast.term, Cast.enclose] using hcast "numeric" (by decide)
  | boolean => simpa [fieldTerm, Cast.term, Cast.enclose] using hcast "boolean" (by decide)

/-! ### Tests -/

/-- A comparison is read with the field, cast to the type of its value, on the left. -/
theorem written_comparison {config : RenderConfig} {k : Key} {op : CompareOp} {v : Value}
    {s : String} (h : (dialect config).comparison k op v = .ok s) :
    language.Written 3 s.toList
      (.apply (operator op) (fieldTerm config k (Cast.ofValue v)) (.constant v)) := by
  obtain ⟨path, hfield, h⟩ := Rendered.bind_eq_ok h
  obtain ⟨literal, hvalue, h⟩ := Rendered.bind_eq_ok h
  cases h
  -- the operator stands between blanks, with the field on one side and the value on the other
  have htext : (s!"{path} {operator op} {literal}").toList =
      path.toList ++ ' ' :: ((operator op).toList ++ ' ' :: literal.toList) := by
    simp [toString]
  have hword : Scans front isOperatorChar (operator op).toList [.operator (operator op)] := by
    cases op <;> exact scans_operator (by decide) (by decide)
  rw [htext]
  exact .operator hword (by decide) (by cases op <;> exact fun _ => rfl)
    (by cases op <;> exact fun _ _ _ => rfl) ((written_field hfield).loosen (by decide))
    (written_value 4 hvalue)

/-- All values of a list have the type that its field is cast to. -/
theorem ofValue_of_listCast {vs : ValueList} {cast : Cast} (h : listCast vs = .ok cast) :
    ∀ v ∈ vs.toList, Cast.ofValue v = cast := by
  unfold listCast at h
  split at h
  · cases h
  · next hnone =>
    cases h
    intro v hv
    simpa using List.find?_eq_none.1 hnone v hv

/-- The lexemes of a list, which follow the word of a membership test. -/
theorem exists_values {vs : ValueList} {texts : List String}
    (h : vs.toList.mapM value = .ok texts) :
    ∃ ts, Scans language.front mayCarryOn ('(' :: ((", ".intercalate texts).toList ++ [')'])) ts ∧
      ∀ depth x negated rest, ts.length < depth →
        among (language.expr depth) x negated (ts ++ rest) =
          some (.among x negated (vs.toList.map .constant), rest) := by
  -- each value is read by itself, at the loosest level
  have hvalues : List.Forall₂ (fun x s => language.Written 1 s.toList x)
      (vs.toList.map .constant) texts := by
    rw [List.forall₂_map_left_iff]
    exact (Dialect.forall₂_of_mapM h).imp fun v s hv => written_value 1 hv
  obtain ⟨ts, hscan, hlist⟩ := Language.Written.exists_enumerated ')' mayCarryOn
    (show Lexeme.mark ',' ≠ .mark ')' by decide) ⟨fun _ => rfl, fun _ => rfl⟩
    ⟨fun _ => rfl, fun _ => rfl⟩ (by decide) (by decide) hvalues (by simp [ValueList.toList])
  refine ⟨.mark '(' :: ts, hscan.mark (fun _ => rfl) (by decide), ?_⟩
  intro depth x negated rest hdepth
  rw [List.length_cons] at hdepth
  rw [List.cons_append, among, hlist depth rest (by omega)]
  rfl

/-- A membership test is read with its field, cast to the type that all values have, and its
list. -/
theorem written_membership {config : RenderConfig} {k : Key} {negated : Bool} {vs : ValueList}
    {s : String} (h : (dialect config).membership k negated vs = .ok s) :
    ∃ cast, (∀ v ∈ vs.toList, Cast.ofValue v = cast) ∧ language.Written 4 s.toList
      (.among (fieldTerm config k cast) negated (vs.toList.map .constant)) := by
  obtain ⟨cast, hcast, h⟩ := Rendered.bind_eq_ok h
  obtain ⟨texts, hvalues, h⟩ := Rendered.bind_eq_ok h
  obtain ⟨path, hfield, h⟩ := Rendered.bind_eq_ok h
  have htext : s.toList = path.toList ++ ' ' :: ((if negated then "NOT IN" else "IN").toList ++
      ' ' :: '(' :: ((", ".intercalate texts).toList ++ [')'])) := by
    cases h
    simp [toString]
  obtain ⟨ts, hscan, hreads⟩ := (written_field hfield).loosen (show 4 ≤ 5 by decide)
  -- the list belongs to its word, so the whole test goes on with the field
  obtain ⟨us, hscan', hlist⟩ := exists_values hvalues
  -- both words are letters, so a blank ends them
  have hin : Scans front Token.isWordChar "IN".toList [.word "in"] := scans_word (by decide)
  have hnot : Scans front Token.isWordChar "NOT".toList [.word "not"] := scans_word (by decide)
  have hblank : Token.isWordChar ' ' = false := by decide
  refine ⟨cast, ofValue_of_listCast hcast, ?_⟩
  rw [htext]
  cases negated with
  | false =>
    have hword := (hin.append hblank hscan'.blank).blank
    refine ⟨ts ++ .word "in" :: us, hscan.append (by decide) hword, ?_⟩
    exact hreads.suffix (fun _ => rfl) fun depth rest hdepth => hlist depth _ _ rest hdepth
  | true =>
    have hword := (hnot.append hblank (hin.append hblank hscan'.blank).blank).blank
    refine ⟨ts ++ .word "not" :: .word "in" :: us, hscan.append (by decide) hword, ?_⟩
    refine hreads.suffix (fun _ => rfl) fun depth rest hdepth => ?_
    exact hlist depth _ _ rest (Nat.lt_of_succ_lt hdepth)

/-! ### Conditions -/

/-- What is written is read as a condition that stands for the filter. -/
theorem exists_represents {config : RenderConfig} {e : Expr} {s : String}
    (h : render config e = .ok s) :
    ∃ t, language.Written 1 s.toList t ∧ Represents config t e.ungroupAll := by
  -- parentheses count on neither side, so the regrouped tree will do
  rw [← e.ungroupAll_regroup]
  refine Dialect.render_induction (d := dialect config)
    (Q := fun p s e => ∃ t, language.Written p s.toList t ∧ Represents config t e.ungroupAll)
    ?_ ?_ ?_ ?_ ?_ h
  -- a comparison, a membership test, a bracketed text, a connective and a group, in this order
  · exact fun h => ⟨_, written_comparison h, .comparison _ _ _⟩
  · intro k negated vs s h
    obtain ⟨cast, htype, hwritten⟩ := written_membership h
    exact ⟨_, hwritten.loosen (by decide), .membership k negated htype⟩
  · exact fun hle ⟨t, hwritten, hrepresents⟩ => ⟨t, hwritten.loosen hle, hrepresents⟩
  · intro c s text l r ⟨t, hleft, hl⟩ ⟨u, hright, hr⟩
    have hword : Scans front Token.isWordChar ((dialect config).word c).toList
        [.word (if c = .and then "and" else "or")] := by
      cases c with
      | and => exact scans_word (w := "AND") (by decide)
      | or => exact scans_word (w := "OR") (by decide)
    refine ⟨.connect c t u, ?_, .join c hl hr⟩
    rw [Dialect.toList_joined]
    exact .operator hword (by decide) (by cases c <;> exact fun _ => rfl)
      (by cases c <;> exact fun _ _ _ => rfl) hleft hright
  · intro s e ⟨t, hwritten, hrepresents⟩
    refine ⟨t, ?_, hrepresents⟩
    rw [Dialect.toList_parenthesized]
    exact hwritten.enclosed 3

/-- The operators have symbols of their own. -/
theorem operator_injective {op op' : CompareOp} (h : operator op = operator op') : op = op' := by
  cases op <;> cases op' <;> first | rfl | exact absurd h (by decide)

/-- Keys with the same field have the same path. -/
theorem resolved_eq_of_fieldTerm {config : RenderConfig} {k k' : Key} {cast : Cast}
    (h : fieldTerm config k cast = fieldTerm config k' cast) :
    config.resolved k = config.resolved k' := by
  -- the cast is the same, so the paths into the column are the same
  have haccess : access (.column config.metadataColumn) (config.path k).segments =
      access (.column config.metadataColumn) (config.path k').segments := by
    cases cast with
    | text => exact h
    | numeric | boolean =>
      injection h
  -- a path of two names goes through one more arrow than a path of one
  unfold RenderConfig.resolved
  cases hk : config.path k with
  | flat name =>
    cases hk' : config.path k' with
    | flat name' => simp_all [FieldPath.segments, access]
    | nested parent child => simp [hk, hk', FieldPath.segments, access] at haccess
  | nested parent child =>
    cases hk' : config.path k' with
    | flat name => simp [hk, hk', FieldPath.segments, access] at haccess
    | nested parent' child' => simp_all [FieldPath.segments, access]

/-- A condition stands for one filter, up to keys with the same path. -/
theorem Represents.alike {config : RenderConfig} {t : Term} {e e' : Expr}
    (h : Represents config t e) (h' : Represents config t e') :
    e.mapKeys config.resolved = e'.mapKeys config.resolved := by
  induction h generalizing e' with
  -- what the condition is settles which kind of test it stands for
  | comparison k op v =>
    generalize ht : Term.apply _ _ _ = t at h'
    cases h' with
    | comparison k' op' v' =>
      injection ht with hop hfield hvalue
      injection hvalue with hvalue
      subst hvalue
      rw [Expr.mapKeys, Expr.mapKeys, operator_injective hop, resolved_eq_of_fieldTerm hfield]
    | membership => cases ht
    | join => cases ht
  | @membership k negated vs cast type =>
    generalize ht : Term.among _ _ _ = t at h'
    cases h' with
    | comparison => cases ht
    | @membership k' negated' vs' cast' type' =>
      injection ht with hfield hnegated hvalues
      -- the list has a first value on both sides, so it is the same list
      have hvalues : vs = vs' := by
        have hlist : vs.toList = vs'.toList :=
          List.map_injective_iff.2 (fun v w h => by injection h) hvalues
        have := congrArg ValueList.ofList? hlist
        rwa [ValueList.ofList?_toList, ValueList.ofList?_toList, Option.some.injEq] at this
      subst hvalues
      -- its first value tells the cast
      have hcast : cast = cast' :=
        (type vs.first List.mem_cons_self).symm.trans (type' vs.first List.mem_cons_self)
      subst hcast
      rw [Expr.mapKeys, Expr.mapKeys, hnegated, resolved_eq_of_fieldTerm hfield]
    | join => cases ht
  | join c first second ihl ihr =>
    cases h' with
    | join c' first' second' => rw [Expr.mapKeys, Expr.mapKeys, ihl first', ihr second']

/-- What is written is read as the filter without its parentheses: the same tree of connectives, in
each test the same operator, path and values, and the cast that fits all of them. Filters that are
written alike differ only in their parentheses and in keys with the same path. -/
theorem read_of_render {config : RenderConfig} {e : Expr} {s : String}
    (h : render config e = .ok s) :
    (∃ t, read s = some t ∧ Represents config t e.ungroupAll) ∧
    ∀ e', render config e' = .ok s →
      e'.ungroupAll.mapKeys config.resolved = e.ungroupAll.mapKeys config.resolved := by
  obtain ⟨t, hwritten, hrepresents⟩ := exists_represents h
  refine ⟨⟨t, hwritten.read_eq, hrepresents⟩, fun e' h' => ?_⟩
  obtain ⟨t', hwritten', hrepresents'⟩ := exists_represents h'
  have ht : t' = t := Option.some.inj (hwritten'.read_eq.symm.trans hwritten.read_eq)
  subst ht
  exact hrepresents'.alike hrepresents

/-- Quotes in the name of the column, in a mapped name and in strings stay where they are. -/
theorem read_of_render_quotes :
    render ⟨FieldMap.empty.insert "lang" "x' OR '1'='1", "me\x22ta", "node"⟩
        (.join .and (.group (.comparison (.field "lang") .equal (.text "a') --")))
          (.membership (.nested "a" "b'c") true ⟨.integer (-1), [.integer 2]⟩)) =
      .ok ("\x22me\x22\x22ta\x22->>'x'' OR ''1''=''1' = 'a'') --' AND " ++
        "(\x22me\x22\x22ta\x22->'a'->>'b''c')::numeric NOT IN (-1, 2)") ∧
    ∃ t, read ("\x22me\x22\x22ta\x22->>'x'' OR ''1''=''1' = 'a'') --' AND " ++
        "(\x22me\x22\x22ta\x22->'a'->>'b''c')::numeric NOT IN (-1, 2)") = some t ∧
      Represents ⟨FieldMap.empty.insert "lang" "x' OR '1'='1", "me\x22ta", "node"⟩ t
        (.join .and (.comparison (.field "lang") .equal (.text "a') --"))
          (.membership (.nested "a" "b'c") true ⟨.integer (-1), [.integer 2]⟩)) := by
  have h : render ⟨FieldMap.empty.insert "lang" "x' OR '1'='1", "me\x22ta", "node"⟩
      (.join .and (.group (.comparison (.field "lang") .equal (.text "a') --")))
        (.membership (.nested "a" "b'c") true ⟨.integer (-1), [.integer 2]⟩)) =
      .ok ("\x22me\x22\x22ta\x22->>'x'' OR ''1''=''1' = 'a'') --' AND " ++
        "(\x22me\x22\x22ta\x22->'a'->>'b''c')::numeric NOT IN (-1, 2)") := by
    rfl
  exact ⟨h, (read_of_render h).1⟩

end Sql

end MetadataFilter
