import MetadataFilter.Proofs.Expr.Keys
import MetadataFilter.Proofs.Reading.Cypher
import MetadataFilter.Proofs.Render.Verbatim

/-!
# Conditions on graph nodes are read back

What is written as a condition is read as the filter that was meant, whatever stands in the strings,
the alias of the node, the column and the keys: nothing of them gets out of its literal.

## Key results

- `written_property`, `exists_value`: the parts of a test
- `written_comparison`, `written_membership`: tests
- `exists_filter`: what is written is read as a condition that is the filter
-/

namespace MetadataFilter.Cypher

open Reading Text

/-! ### Properties -/

/-- The name of the property that holds a field: its path, with the column's name in front. -/
def propertyName (config : RenderConfig) (k : Key) : String :=
  if config.metadataColumn.isEmpty then (config.path k).dotted
  else config.metadataColumn ++ "." ++ (config.path k).dotted

/-- A key as the property of the node's alias. -/
def propertyKey (config : RenderConfig) (k : Key) : Key :=
  .nested config.nodeAlias (propertyName config k)

/-- A key by its path alone, with the dots in it. -/
def pathKey (config : RenderConfig) (k : Key) : Key := .quoted (config.path k).dotted

/-- Two keys that are one property of the node are one path. -/
theorem pathKey_eq_of_propertyKey {config : RenderConfig} {k k' : Key}
    (h : propertyKey config k = propertyKey config k') : pathKey config k = pathKey config k' := by
  injection h with _ hname
  unfold propertyName at hname
  unfold pathKey
  -- the same column is in front of both paths
  split at hname
  · rw [hname]
  · rw [String.append_right_inj _ |>.1 hname]

/-- The part of a condition that a property is. -/
def propertyTerm (config : RenderConfig) (k : Key) : Term :=
  .property (.node config.nodeAlias) (propertyName config k)

/-- A variable is read whether its name is quoted or not. -/
theorem exists_variable (p : Nat) (name : String) :
    ∃ ts, Scans front (allBut ['.']) (variableName name).toList ts ∧
      language.toOperators.Reads p ts (.node name) := by
  unfold variableName
  split
  -- without quotes the name is none of the words that the reader knows
  · next h =>
    simp only [Bool.and_eq_true, Bool.not_eq_true', contains_reservedTable,
      decide_eq_false_iff_not] at h
    obtain ⟨hword, hreserved⟩ := h
    rw [← keyword_eq_map] at hreserved
    have hkeyword : ∀ w ∈ reservedWords, keyword name ≠ w := by
      rintro w hw rfl
      exact hreserved hw
    refine ⟨_, (scans_word hword).allBut (by decide), .operand p fun depth rest _ => ?_⟩
    show operand (language.toOperators.expr depth) (.word name :: rest) = _
    rw [operand, if_neg (hkeyword "NOT" (by decide)), if_neg (hkeyword "TRUE" (by decide)),
      if_neg (hkeyword "FALSE" (by decide)), if_neg hreserved]
  · exact ⟨_, (scans_name name).allBut (by decide), .operand p fun _ _ _ => rfl⟩

/-- A property is read with its alias and its name. -/
theorem written_property (config : RenderConfig) (k : Key) :
    language.Written 6 (property config k).toList (propertyTerm config k) := by
  have htext : (property config k).toList = (variableName config.nodeAlias).toList ++
      '.' :: (quotedName (propertyName config k)).toList := by
    simp [property, propertyName]
  obtain ⟨ts, hscan, hreads⟩ := exists_variable 6 config.nodeAlias
  have hname : Scans front mayCarryOn (quotedName (propertyName config k)).toList
      [.name (propertyName config k)] :=
    (scans_name _).allBut (by decide)
  rw [htext]
  refine ⟨ts ++ .mark '.' :: [.name (propertyName config k)], ?_, ?_⟩
  · exact hscan.append (by decide) (hname.mark (fun _ => rfl) (by decide))
  · exact hreads.suffix (fun _ => rfl) fun _ _ _ => rfl

/-! ### Values -/

/-- The characters that may carry a value on. -/
def carriesValueOn : Char → Bool := allBut [' ', ',', ')', ']']

/-- Values are read back. -/
theorem exists_value (p : Nat) {v : Value} {s : String} (h : value v = .ok s) :
    ∃ ts, Scans front carriesValueOn s.toList ts ∧
      language.toOperators.Reads p ts (.constant v) := by
  rcases Value.render_cases h with ⟨negative, ds, htext, hds, hvalue⟩ | ⟨b, rfl, rfl⟩ | ⟨t, rfl, ht⟩
  -- a sign is an operator of its own in front of the digits
  · have hminus : Scans front isOperatorChar ['-'] [.operator "-"] := scans_operator (by decide)
    have hnumeral : ∃ ts, Scans language.front _ (sign negative ++ ds) ts ∧
        language.toOperators.Reads p ts (.constant v) :=
      Language.Written.exists_numeral p hds hvalue (scans_number hds) hminus
        (fun _ => contains_of_isDigit (by decide)) (fun _ _ => rfl) (fun _ _ => rfl)
    obtain ⟨ts, hscan, hreads⟩ := hnumeral
    rw [htext]
    exact ⟨ts, hscan.allBut (by decide), hreads⟩
  · have hword : Token.isWord (if b then "true" else "false") = true := by cases b <;> decide
    refine ⟨_, (scans_word hword).allBut (by decide), .operand p fun depth rest _ => ?_⟩
    cases b with
    | false => rfl
    | true => rfl
  · cases ht
    exact ⟨_, (scans_string t).allBut (by decide), .operand p fun _ _ _ => rfl⟩

/-! ### Tests -/

variable {config : RenderConfig}

/-- A comparison is read as one, with the property, the operator and the value. -/
theorem written_comparison {k : Key} {op : CompareOp} {v : Value} {s : String}
    (h : (dialect config).comparison k op v = .ok s) :
    language.Written 4 s.toList (.compare op (propertyTerm config k) (.constant v)) := by
  obtain ⟨literal, hvalue, h⟩ := Rendered.bind_eq_ok h
  cases h
  have htext : (s!"{property config k} {operator op} {literal}").toList =
      (property config k).toList ++ ' ' :: ((operator op).toList ++ ' ' :: literal.toList) := by
    simp [toString]
  have hword : Scans front isOperatorChar (operator op).toList [.operator (operator op)] := by
    cases op <;> exact scans_operator (by decide)
  -- the value binds more tightly than the operator asks for
  obtain ⟨ts, hscan, hreads⟩ := exists_value 5 hvalue
  have hliteral : language.Written 5 literal.toList (.constant v) :=
    ⟨ts, hscan.allBut (by decide), hreads⟩
  rw [htext]
  exact .operator hword (by decide) (by cases op <;> exact fun _ => rfl)
    (by cases op <;> exact fun _ _ _ => rfl) ((written_property config k).loosen (by decide))
    hliteral

/-- A test whether a property is among values. -/
theorem written_among (config : RenderConfig) (k : Key) {vs : ValueList} {texts : List String}
    (h : vs.toList.mapM value = .ok texts) :
    language.Written 5 (s!"{property config k} IN [" ++ ", ".intercalate texts ++ "]").toList
      (.among (propertyTerm config k) (vs.toList.map .constant)) := by
  -- each constant is read by itself
  have hvalues : List.Forall₂ (fun x s => ∃ ts, Scans language.front carriesValueOn s.toList ts ∧
      language.toOperators.Reads 1 ts x) (vs.toList.map .constant) texts := by
    rw [List.forall₂_map_left_iff]
    exact (Dialect.forall₂_of_mapM h).imp fun v s hv => exists_value 1 hv
  obtain ⟨ts, hscan, hlist⟩ := Language.Written.exists_enumerated ']' mayCarryOn
    (show Lexeme.mark ',' ≠ .mark ']' by decide) ⟨fun _ => rfl, fun _ => rfl⟩
    ⟨fun _ => rfl, fun _ => rfl⟩ (by decide) (by decide) hvalues (by simp [ValueList.toList])
  -- the property, the word and the list, with blanks between them
  have htext : (s!"{property config k} IN [" ++ ", ".intercalate texts ++ "]").toList =
      (property config k).toList ++ ' ' :: ("IN".toList ++ ' ' :: '[' ::
        ((", ".intercalate texts).toList ++ [']'])) := by
    simp [toString]
  have hin : Scans front Token.isWordChar "IN".toList [.word "IN"] := scans_word (by decide)
  have hopen : Scans front mayCarryOn ('[' :: ((", ".intercalate texts).toList ++ [']']))
      (.mark '[' :: ts) :=
    hscan.mark (fun _ => rfl) (by decide)
  obtain ⟨us, hscan', hreads⟩ := (written_property config k).loosen (show 5 ≤ 6 by decide)
  rw [htext]
  refine ⟨us ++ .word "IN" :: .mark '[' :: ts, ?_, ?_⟩
  · exact hscan'.append (by decide) (hin.append (by decide) hopen.blank).blank
  -- the list belongs to its word, so the whole test goes on with the property
  · refine hreads.suffix (fun _ => rfl) fun depth rest hdepth => ?_
    rw [List.length_cons] at hdepth
    show among (language.expr depth) _ (.mark '[' :: (ts ++ rest)) = _
    rw [among, hlist depth rest (by omega)]
    rfl

/-- The condition that a membership test is. -/
def membershipTerm (config : RenderConfig) (k : Key) (negated : Bool) (vs : ValueList) : Term :=
  let test := .among (propertyTerm config k) (vs.toList.map .constant)
  if negated then .not test else test

/-- NOT stands in front of the whole test and takes nothing of what follows. -/
theorem written_membership {k : Key} {negated : Bool} {vs : ValueList} {s : String}
    (h : (dialect config).membership k negated vs = .ok s) :
    language.Written 3 s.toList (membershipTerm config k negated vs) := by
  obtain ⟨texts, hvalues, h⟩ := Rendered.bind_eq_ok h
  have hamong := written_among config k hvalues
  cases negated with
  | false =>
    cases h
    exact hamong.loosen (by decide)
  | true =>
    cases h
    -- the word is put in front of the whole test, which binds tightly enough
    have hnot : Scans front Token.isWordChar "NOT".toList [.word "NOT"] := scans_word (by decide)
    have hnegated := (hamong.loosen (show 4 ≤ 5 by decide)).unary hnot (by decide)
      (f := .not) fun _ _ => rfl
    have htext : ∀ test : String,
        ("NOT " ++ test).toList = "NOT".toList ++ ' ' :: test.toList := by
      simp
    show language.Written 3 ("NOT " ++ _).toList _
    rw [htext]
    exact hnegated

/-! ### Conditions -/

/-- Constants are read back as the values they were written for. -/
theorem constants?_eq (vs : List Value) :
    (vs.map Term.constant).mapM Term.constant? = some vs := by
  induction vs with
  | nil => rfl
  | cons v vs ih =>
    rw [List.map_cons, List.mapM_cons, ih]
    rfl

/-- A membership test is read as one, negated or not. -/
theorem filter?_membershipTerm (k : Key) (negated : Bool) (vs : ValueList) :
    (membershipTerm config k negated vs).filter? =
      some (.membership (propertyKey config k) negated vs) := by
  have htest : Term.membership? negated (propertyTerm config k) (vs.toList.map .constant) =
      some (.membership (propertyKey config k) negated vs) := by
    rw [Term.membership?, constants?_eq]
    rfl
  cases negated with
  | false => exact htest
  | true => exact htest

/-- What is written is read as a condition that is the filter without its parentheses, over the
properties that hold its fields. -/
theorem exists_filter {e : Expr} {s : String} (h : render config e = .ok s) :
    ∃ t, language.Written 1 s.toList t ∧
      t.filter? = some (e.ungroupAll.mapKeys (propertyKey config)) := by
  rw [← e.ungroupAll_regroup]
  -- The induction follows how the text is put together; each part is read at the tightness that its
  -- place asks for.
  refine Dialect.render_induction (d := dialect config)
    (Q := fun p s e => ∃ t, language.Written p s.toList t ∧
      t.filter? = some (e.ungroupAll.mapKeys (propertyKey config))) ?_ ?_ ?_ ?_ ?_ h
  · exact fun h => ⟨_, (written_comparison h).loosen (by decide), rfl⟩
  · exact fun h => ⟨_, written_membership h, filter?_membershipTerm _ _ _⟩
  · exact fun hle ⟨t, hwritten, hfilter⟩ => ⟨t, hwritten.loosen hle, hfilter⟩
  · intro c s text l r ⟨t, hleft, hl⟩ ⟨u, hright, hr⟩
    have hword : Scans front Token.isWordChar ((dialect config).word c).toList
        [.word (if c = .and then "AND" else "OR")] := by
      cases c with
      | and => exact scans_word (w := "AND") (by decide)
      | or => exact scans_word (w := "OR") (by decide)
    refine ⟨.connect c t u, ?_, ?_⟩
    · rw [Dialect.toList_joined]
      exact .operator hword (by decide) (by cases c <;> exact fun _ => rfl)
        (by cases c <;> exact fun _ _ _ => rfl) hleft hright
    · rw [Term.filter?, hl, hr]
      rfl
  · intro s e ⟨t, hwritten, hfilter⟩
    refine ⟨t, ?_, hfilter⟩
    rw [Dialect.toList_parenthesized]
    exact hwritten.enclosed 3

/-- What is written is read as the filter without its parentheses: the same tree of connectives,
in each test the same operator and values, and in the place of the key the property of the node's
alias that holds the field. Filters that are written alike differ only in their parentheses and in
keys with the same path. -/
theorem read_eq_of_render {e : Expr} {s : String} (h : render config e = .ok s) :
    read s = some (e.ungroupAll.mapKeys (propertyKey config)) ∧
    ∀ e', render config e' = .ok s →
      e'.ungroupAll.mapKeys (pathKey config) = e.ungroupAll.mapKeys (pathKey config) := by
  have hread : ∀ e', render config e' = .ok s →
      read s = some (e'.ungroupAll.mapKeys (propertyKey config)) := by
    intro e' h'
    obtain ⟨t, hwritten, hfilter⟩ := exists_filter h'
    rw [read, hwritten.read_eq, Option.bind_some, hfilter]
  refine ⟨hread e h, fun e' h' => ?_⟩
  have heq := Option.some.inj ((hread e' h').symm.trans (hread e h))
  exact Expr.mapKeys_eq_of_coarser (fun _ _ => pathKey_eq_of_propertyKey) heq

/-- Quotes, back-ticks and line breaks in every place where a text may stand. -/
theorem read_eq_of_render_quotes :
    render ⟨FieldMap.empty.insert "lang" "a` = 1 OR n.`b", "me`ta", "match"⟩
        (.join .and (.group (.comparison (.field "lang") .notEqual (.text "\\' OR 'a\nb")))
          (.group (.join .or (.membership (.nested "a" "b") true ⟨.integer (-1), [.text "]"]⟩)
            (.comparison (.quoted "") .less (.boolean true))))) =
      .ok ("`match`.`me``ta.a`` = 1 OR n.``b` <> '\\\\\\' OR \\'a\\nb' AND " ++
        "(NOT `match`.`me``ta.a.b` IN [-1, ']'] OR `match`.`me``ta.` < true)") ∧
    read ("`match`.`me``ta.a`` = 1 OR n.``b` <> '\\\\\\' OR \\'a\\nb' AND " ++
        "(NOT `match`.`me``ta.a.b` IN [-1, ']'] OR `match`.`me``ta.` < true)") =
      some (.join .and
        (.comparison (.nested "match" "me`ta.a` = 1 OR n.`b") .notEqual (.text "\\' OR 'a\nb"))
        (.join .or (.membership (.nested "match" "me`ta.a.b") true ⟨.integer (-1), [.text "]"]⟩)
          (.comparison (.nested "match" "me`ta.") .less (.boolean true)))) := by
  have h : render ⟨FieldMap.empty.insert "lang" "a` = 1 OR n.`b", "me`ta", "match"⟩
      (.join .and (.group (.comparison (.field "lang") .notEqual (.text "\\' OR 'a\nb")))
        (.group (.join .or (.membership (.nested "a" "b") true ⟨.integer (-1), [.text "]"]⟩)
          (.comparison (.quoted "") .less (.boolean true))))) =
      .ok ("`match`.`me``ta.a`` = 1 OR n.``b` <> '\\\\\\' OR \\'a\\nb' AND " ++
        "(NOT `match`.`me``ta.a.b` IN [-1, ']'] OR `match`.`me``ta.` < true)") := by
    decide +kernel
  exact ⟨h, (read_eq_of_render h).1⟩

end MetadataFilter.Cypher
