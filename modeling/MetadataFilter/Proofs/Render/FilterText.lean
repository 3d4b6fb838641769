import MetadataFilter.Proofs.Expr.Keys
import MetadataFilter.Proofs.Grammar.Levels
import MetadataFilter.Proofs.Grammar.Soundness
import MetadataFilter.Proofs.Render.Verbatim
import MetadataFilter.Proofs.Token.Spelling
import MetadataFilter.Render.FilterText

/-!
# The canonical spelling is derivable

The canonical spelling of a filter is cut into tokens that the grammar derives, and the derivation
is the one of the regrouped tree. This goes for all filters without mapped names; a key whose name
is no identifier is read as a quoted one.

## Key results

- `spells_key`, `spells_value`, `spells_list`: the parts of a test
- `spells_verbatim`: whole expressions, along the text
- `spells_render`: the canonical spelling
-/

namespace MetadataFilter

open Grammar Text

/-- A key as its canonical spelling is read: a name that is no identifier comes back quoted. -/
def Key.asRead : Key → Key
  | .field name => if Token.isIdentifier name then .field name else .quoted name
  | k => k

/-- An identifier is read as the bare key that it is. -/
theorem Key.asRead_of_isIdentifier {name : String} (h : Token.isIdentifier name = true) :
    (Key.field name).asRead = .field name := if_pos h

/-- A bare name that is no identifier comes back as a quoted key. -/
theorem Key.asRead_of_not_isIdentifier {name : String} (h : ¬ Token.isIdentifier name = true) :
    (Key.field name).asRead = .quoted name := if_neg h

namespace FilterText

/-! ### Keys -/

/-- A quoted name is one token, which names a quoted key. -/
theorem spells_quotedName {name s : String} (h : quotedName name = .ok s) :
    Spells (Name · (.quoted name)) s.toList := by
  unfold quotedName at h
  split at h
  -- an empty name and one with a line break cannot be quoted
  · cases h
  · next hne =>
    unfold quoted at h
    split at h
    · cases h
    · next hbreak =>
      cases h
      have hbreak : ∀ c ∈ name.toList, Token.isLineBreak c = false := by
        simpa using hbreak
      have hname : unquote (quote '\x22' name.toList) = name.toList := unquote_quote _ _
      rw [String.toList_ofList]
      refine (Spells.quote (by decide) hbreak).imp ?_
      intro ts hts
      obtain ⟨p, rfl⟩ := hts
      -- what stands between the quotes is the name, so it is not empty
      have hnonempty : unquote (String.ofList (quote '\x22' name.toList)).toList ≠ [] := by
        simpa [hname] using hne
      simpa [hname] using
        Name.quoted (t := ⟨.quotedString, String.ofList (quote '\x22' name.toList), p⟩) rfl
          hnonempty

/-- Two identifiers with a dot between them name a nested key. -/
theorem spells_nested {parent child : String} (hparent : Token.isIdentifier parent = true)
    (hchild : Token.isIdentifier child = true) :
    Spells (Name · (.nested parent child)) (parent ++ "." ++ child).toList := by
  obtain ⟨hpword, hpkind⟩ := Bool.and_eq_true_iff.1 hparent
  obtain ⟨hcword, hckind⟩ := Bool.and_eq_true_iff.1 hchild
  -- the words are taken apart for their first characters, which decide how the lexer goes on
  obtain ⟨c, cs, htext, hc, -⟩ := isWord_iff.1 hpword
  obtain ⟨d, ds, htext', hd, -⟩ := isWord_iff.1 hcword
  have hdot : ∀ rest, Token.front ('.' :: (child.toList ++ rest)) = .token .dot ['.'] := by
    intro rest
    have hdigit : d.isDigit = false := isDigit_of_isWordStart hd
    simp [Token.front, Token.markFront, Token.markKind, Token.isDelimiter, htext', hdigit,
      Token.isWordStart]
  intro rest p hrest
  -- the point carries a number on, but not a word
  have hfront : Token.front (parent.toList ++ '.' :: (child.toList ++ rest)) =
      .token (Token.wordKind parent) parent.toList :=
    Token.front_word hpword (Ends.cons (by decide) _)
  have hblank : Ends isBlank (parent.toList ++ '.' :: (child.toList ++ rest)) := by
    rw [htext]
    exact Ends.cons (isBlank_of_isWordStart hc) _
  have hreads := Cursor.Reads.lexeme hfront (Token.wordKind_ne_endOfInput parent) hblank p
  have hmark := Cursor.Reads.mark (hdot rest) (by decide) (by decide)
    (p.advanceBy parent.toList)
  -- after the dot the second word is read wherever it stands
  obtain ⟨ts, p', ⟨q, rfl⟩, hreads'⟩ := Spells.word hcword rest _ hrest
  refine ⟨[⟨Token.wordKind parent, parent, p⟩, ⟨.dot, ".", p.advanceBy parent.toList⟩,
    ⟨Token.wordKind child, child, q⟩], p', ?_, ?_⟩
  · exact .nested (beq_iff_eq.1 hpkind) rfl (beq_iff_eq.1 hckind)
  · have := (hreads.append hmark).append hreads'
    simpa using this

/-- Keys without a mapped name. -/
theorem spells_key {config : RenderConfig} (hmap : config.fieldMap = .empty) {k : Key} {s : String}
    (h : key config k = .ok s) : Spells (Name · k.asRead) s.toList := by
  have hnone : config.mapped? k = none := by simp [RenderConfig.mapped?, hmap]
  unfold key at h
  rw [hnone] at h
  cases k with
  | field n =>
    simp only [name] at h
    split at h
    -- a name that is an identifier stands without quotes
    · next hid =>
      cases h
      obtain ⟨hword, hkind⟩ := Bool.and_eq_true_iff.1 hid
      rw [Key.asRead_of_isIdentifier hid]
      refine (Spells.word hword).imp ?_
      intro ts hts
      obtain ⟨p, rfl⟩ := hts
      exact Name.field (t := ⟨_, s, p⟩) (beq_iff_eq.1 hkind)
    · next hid =>
      rw [Key.asRead_of_not_isIdentifier hid]
      exact spells_quotedName h
  | nested parent child =>
    -- a nested key has no other spelling than two identifiers
    simp only at h
    split at h
    · next hid =>
      cases h
      obtain ⟨hparent, hchild⟩ := Bool.and_eq_true_iff.1 hid
      exact spells_nested hparent hchild
    · cases h
  | quoted n => exact spells_quotedName h

/-! ### Values -/

/-- A number after its sign is read with it. -/
theorem spells_signed {kind : Token.Kind} {negative : Bool} {ds : List Char} {v : Value}
    (hkind : kind = .integer ∨ kind = .decimal)
    (hvalue : Expr.Parser.numberValue? kind negative ds = some v)
    (h : Spells (fun ts => ∃ p, ts = [⟨kind, String.ofList ds, p⟩]) ds) :
    Spells (Literal · v) (sign negative ++ ds) := by
  -- the value of a number does not depend on where it stands
  have hnumber : ∀ p, Number negative ⟨kind, String.ofList ds, p⟩ v := by
    intro p
    refine (Expr.Parser.numberValue?_eq_some_iff hkind).1 ?_
    simpa using hvalue
  cases negative with
  | false =>
    refine h.imp ?_
    intro ts hts
    obtain ⟨p, rfl⟩ := hts
    exact .unsigned (hnumber p)
  | true =>
    refine Spells.mark .minus (fun rest => rfl) (by decide) (by decide) h ?_
    intro t ts ht hts
    obtain ⟨p, rfl⟩ := hts
    exact .minus ht (hnumber p)

/-- A quoted text is one token, which is a literal of that text. -/
theorem spells_text {text s : String} (h : quoted '\'' text = .ok s) :
    Spells (Literal · (.text text)) s.toList := by
  unfold quoted at h
  split at h
  · cases h
  · next hbreak =>
    cases h
    have hbreak : ∀ c ∈ text.toList, Token.isLineBreak c = false := by simpa using hbreak
    rw [String.toList_ofList]
    refine (Spells.quote (by decide) hbreak).imp ?_
    intro ts hts
    obtain ⟨p, rfl⟩ := hts
    -- there is one string only, so no seam has to be looked at
    have hnone : ∀ u ∈ ([] : List Token), u.kind = .quotedString := by simp
    have := Literal.strings (t := ⟨.quotedString, String.ofList (quote '\'' text.toList), p⟩)
      rfl hnone
    simpa [joined, unquote_quote] using this

/-- The words for truth values are literals of them. -/
theorem spells_boolean (b : Bool) :
    Spells (Literal · (.boolean b)) (if b then "true" else "false" : String).toList := by
  have hword : Token.isWord (if b then "true" else "false") = true ∧
      Token.wordKind (if b then "true" else "false") = .boolean := by
    cases b <;> decide
  -- the value of a word does not depend on where it stands
  have hliteral : ∀ p, Literal [⟨.boolean, if b then "true" else "false", p⟩] (.boolean b) := by
    intro p
    have hvalue :
        ((if b then "true" else "false" : String).map Char.toLower = "true" : Bool) = b := by
      cases b <;> decide +kernel
    simpa only [hvalue] using
      Literal.boolean (t := ⟨.boolean, if b then "true" else "false", p⟩) rfl
  refine (Spells.word hword.1).imp ?_
  intro ts hts
  obtain ⟨p, rfl⟩ := hts
  rw [hword.2]
  exact hliteral p

/-- A value is written as a literal of it. -/
theorem spells_value {v : Value} {s : String} (h : value v = .ok s) :
    Spells (Literal · v) s.toList := by
  rcases Value.render_cases h with ⟨negative, ds, htext, hds, hvalue⟩ | ⟨b, rfl, rfl⟩ | ⟨t, rfl, ht⟩
  · rw [htext]
    exact spells_signed (by split <;> simp) hvalue (Spells.numeral hds)
  · exact spells_boolean b
  · exact spells_text ht

/-! ### Tests -/

/-- Values with commas between them. -/
theorem spells_values {first : Value} {others : List Value} {texts : List String}
    (h : List.Forall₂ (fun v s => value v = .ok s) (first :: others) texts) :
    Spells (Literals · (first :: others)) (", ".intercalate texts).toList := by
  -- the list is taken apart from its front, so the first value is generalized
  induction others generalizing first texts with
  | nil =>
    obtain _ | ⟨hs, ⟨⟩⟩ := h
    rw [String.intercalate_singleton]
    exact (spells_value hs).imp fun ts hts => .one hts
  | cons second others ih =>
    obtain _ | ⟨hs, hrest⟩ := h
    have hothers := ih hrest
    obtain _ | ⟨ht, htexts⟩ := hrest
    simp only [String.intercalate_cons_cons, String.toList_append, List.append_assoc]
    have hcomma := Spells.mark (c := ',') .comma (Q := fun ts => ∃ comma us,
      ts = comma :: us ∧ comma.kind = .comma ∧ Literals us (second :: others)) (fun rest => rfl)
      (by decide) (by decide) hothers.blank fun comma us hkind hus => ⟨comma, us, rfl, hkind, hus⟩
    refine (spells_value hs).append (by decide) hcomma ?_
    intro ts us hts hus
    obtain ⟨comma, us, rfl, hkind, hus⟩ := hus
    exact .more hts hkind hus

/-- Values in square brackets are a list of them. -/
theorem spells_list {vs : ValueList} {texts : List String} (h : vs.toList.mapM value = .ok texts) :
    Spells (Bracketed · vs) ("[" ++ ", ".intercalate texts ++ "]").toList := by
  have htext : ("[" ++ ", ".intercalate texts ++ "]").toList =
      '[' :: ((", ".intercalate texts).toList ++ [']']) := by
    simp
  rw [htext]
  exact Spells.enclosed .leftBracket .rightBracket (fun rest => rfl)
    (fun rest => rfl) (by decide) (by decide) (by decide) (by decide) (by decide)
    (spells_values (Dialect.forall₂_of_mapM h)) fun t ts t' ht hts ht' => .mk ht hts ht'

/-- An operator is one token, of the kind of that operator. -/
theorem spells_operator (op : CompareOp) :
    Spells (fun ts => ∃ t : Token, ts = [t] ∧ t.kind = compareKind op) op.symbol.toList := by
  have hfront : ∀ rest, Ends carriesOn rest →
      Token.front (op.symbol.toList ++ rest) = .token (compareKind op) op.symbol.toList := by
    intro rest hrest
    -- `>` and `<` are found only if no `=` follows
    have hequal : rest.head? ≠ some '=' := fun h => absurd (hrest '=' h) (by decide)
    cases op with
    | greater | less =>
      cases rest with
      -- at the end of the text nothing can follow
      | nil => rfl
      | cons c tail =>
        have hc : c ≠ '=' := fun h => hequal (h ▸ rfl)
        simp [Token.front, Token.markFront, Token.markKind, Token.isDelimiter, CompareOp.symbol,
          compareKind, Token.isWordStart, hc]
    | _ => rfl
  obtain ⟨c, cs, htext, hc⟩ : ∃ c cs, op.symbol.toList = c :: cs ∧ isBlank c = false := by
    cases op <;> exact ⟨_, _, rfl, by decide⟩
  rw [htext] at hfront ⊢
  refine (Spells.lexeme hfront (by cases op <;> decide) hc).imp ?_
  intro ts hts
  obtain ⟨p, rfl⟩ := hts
  exact ⟨_, rfl, rfl⟩

/-- A comparison is written as a test that is derivable for it. -/
theorem spells_comparison {config : RenderConfig} (hmap : config.fieldMap = .empty) {k : Key}
    {op : CompareOp} {v : Value} {s : String} (h : (dialect config).comparison k op v = .ok s) :
    Spells (Test · (.comparison k.asRead op v)) s.toList := by
  obtain ⟨name, hk, h⟩ := Rendered.bind_eq_ok h
  obtain ⟨literal, hv, h⟩ := Rendered.bind_eq_ok h
  cases h
  -- name, operator and value are three pieces with blanks between them
  have hliteral := (spells_value hv).blank
  have hrest : Spells (fun ts => ∃ o us, ts = o :: us ∧ o.kind = compareKind op ∧ Literal us v)
      (op.symbol.toList ++ ' ' :: literal.toList) := by
    refine (spells_operator op).append (by decide) hliteral ?_
    intro ts us hts hus
    obtain ⟨o, rfl, hkind⟩ := hts
    exact ⟨o, us, rfl, hkind, hus⟩
  have htext : (s!"{name} {op.symbol} {literal}").toList =
      name.toList ++ ' ' :: (op.symbol.toList ++ ' ' :: literal.toList) := by
    simp [toString]
  rw [htext]
  refine (spells_key hmap hk).append (by decide) hrest.blank ?_
  intro ts us hts hus
  obtain ⟨o, us, rfl, hkind, hus⟩ := hus
  exact .comparison hts hkind hus

/-- A membership test is written as a test that is derivable for it, with one or two words in the
middle. -/
theorem spells_membership {config : RenderConfig} (hmap : config.fieldMap = .empty) {k : Key}
    {negated : Bool} {vs : ValueList} {s : String}
    (h : (dialect config).membership k negated vs = .ok s) :
    Spells (Test · (.membership k.asRead negated vs)) s.toList := by
  obtain ⟨name, hk, h⟩ := Rendered.bind_eq_ok h
  obtain ⟨texts, hv, h⟩ := Rendered.bind_eq_ok h
  have htext : s.toList = name.toList ++ ' ' :: ((if negated then "NOT IN" else "IN").toList ++
      ' ' :: ("[" ++ ", ".intercalate texts ++ "]").toList) := by
    cases h
    simp [toString]
  rw [htext]
  -- the words stand between the name and the list
  have hlist := (spells_list hv).blank
  have hin : Spells (fun ts => ∃ i us, ts = i :: us ∧ i.kind = .inWord ∧ Bracketed us vs)
      ("IN".toList ++ ' ' :: ("[" ++ ", ".intercalate texts ++ "]").toList) := by
    refine (Spells.word (s := "IN") (by decide)).append (by decide) hlist ?_
    intro ts us hts hus
    obtain ⟨p, rfl⟩ := hts
    exact ⟨_, us, rfl, rfl, hus⟩
  -- the negated test has one more word in front of the list
  cases negated with
  | false =>
    refine (spells_key hmap hk).append (by decide) hin.blank ?_
    intro ts us hts hus
    obtain ⟨i, us, rfl, hkind, hus⟩ := hus
    exact .among hts hkind hus
  | true =>
    have hnot : Spells (fun ts => ∃ n i us, ts = n :: i :: us ∧ n.kind = .notWord ∧
        i.kind = .inWord ∧ Bracketed us vs) ("NOT".toList ++
          ' ' :: ("IN".toList ++ ' ' :: ("[" ++ ", ".intercalate texts ++ "]").toList)) := by
      refine (Spells.word (s := "NOT") (by decide)).append (by decide) hin.blank ?_
      intro ts us hts hus
      obtain ⟨p, rfl⟩ := hts
      obtain ⟨i, us, rfl, hkind, hus⟩ := hus
      exact ⟨_, i, us, rfl, rfl, hkind, hus⟩
    refine (spells_key hmap hk).append (by decide) hnot.blank ?_
    intro ts us hts hus
    obtain ⟨n, i, us, rfl, hn, hi, hus⟩ := hus
    exact .notAmong hts hn hi hus

/-! ### Expressions -/

/-- A connective is written as one word, of the kind of that connective. -/
theorem spells_connective (config : RenderConfig) (c : Connective) :
    Spells (fun ts => ∃ t : Token, ts = [t] ∧ t.kind = Expr.Parser.connectiveKind c)
      ((dialect config).word c).toList := by
  cases c with
  | and =>
    refine (Spells.word (s := "AND") (by decide)).imp ?_
    intro ts hts
    obtain ⟨p, rfl⟩ := hts
    exact ⟨_, rfl, rfl⟩
  | or =>
    refine (Spells.word (s := "OR") (by decide)).imp ?_
    intro ts hts
    obtain ⟨p, rfl⟩ := hts
    exact ⟨_, rfl, rfl⟩

/-- A tree with the parentheses that it needs is written as it stands, and what is written is cut
into tokens that are derivable for it. -/
theorem spells_verbatim {config : RenderConfig} (hmap : config.fieldMap = .empty) {e : Expr}
    (hgrouped : e.Grouped) {s : String} (h : (dialect config).verbatim e = .ok s) :
    Spells (Derives (.run .or) · (e.mapKeys Key.asRead)) s.toList := by
  -- at any level that binds no tighter than the place where the text stands
  refine Dialect.verbatim_induction (d := dialect config)
    (Q := fun p s e => ∀ level : Level, level.binding ≤ p →
      Spells (Derives level · (e.mapKeys Key.asRead)) s.toList)
    ?_ ?_ ?_ ?_ ?_ hgrouped h (.run .or) e.binding_pos
  · intro k op v s h level hlevel
    exact (spells_comparison hmap h).imp fun ts hts => (Derives.test hts).loosen hlevel
  · intro k negated vs s h level hlevel
    exact (spells_membership hmap h).imp fun ts hts => (Derives.test hts).loosen hlevel
  · exact fun hle hspells level hlevel => hspells level (Nat.le_trans hlevel hle)
  · intro c s t l r hl hr level hlevel
    -- the left side goes on with the run, the right side is one more operand of it
    have hl := hl (.run c) (Nat.le_refl _)
    have hr := hr (operandLevel c) (Nat.le_of_eq (binding_operandLevel c))
    have hright : Spells (fun ts => ∃ o us, ts = o :: us ∧
        o.kind = Expr.Parser.connectiveKind c ∧
        Derives (operandLevel c) us (r.mapKeys Key.asRead))
        (((dialect config).word c).toList ++ ' ' :: t.toList) := by
      refine (spells_connective config c).append (by decide) hr.blank ?_
      intro ts us hts hus
      obtain ⟨o, rfl, hkind⟩ := hts
      exact ⟨o, us, rfl, hkind, hus⟩
    rw [Dialect.toList_joined]
    refine hl.append (by decide) hright.blank ?_
    intro ts us hts hus
    obtain ⟨o, us, rfl, hkind, hus⟩ := hus
    exact (Derives.join hts hkind hus).loosen hlevel
  · intro s e hspells level hlevel
    have hspells := hspells (.run .or) (Nat.le_refl _)
    rw [Dialect.toList_parenthesized]
    exact Spells.enclosed .leftParen .rightParen (fun rest => rfl)
      (fun rest => rfl) (by decide) (by decide) (by decide) (by decide) (by decide) hspells
      fun t ts t' ht hts ht' => (Derives.group ht hts ht').loosen hlevel

/-- The canonical spelling is cut into tokens that are derivable for the regrouped tree. -/
theorem spells_render {config : RenderConfig} (hmap : config.fieldMap = .empty) {e : Expr}
    {s : String} (h : render config e = .ok s) :
    Spells (Derives (.run .or) · (e.regroup.mapKeys Key.asRead)) s.toList := by
  rw [render, Dialect.render_eq_verbatim] at h
  exact spells_verbatim hmap e.grouped_regroup h

end FilterText

end MetadataFilter
