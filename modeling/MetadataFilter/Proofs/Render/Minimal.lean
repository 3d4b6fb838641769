import MetadataFilter.Proofs.Expr.Parentheses
import MetadataFilter.Proofs.Render.RoundTrip
import MetadataFilter.Proofs.Text.Pairs

/-!
# No parentheses of the canonical spelling are needless

The parentheses of a text that stand outside of its strings are those of the tree that has been
written, since tests have none. So without some of them the text is that of a tree with fewer
parentheses, and what is read from it lacks parentheses that the filter needs.

## Key results

- `inert_comparison`, `inert_membership`: tests have no parentheses outside of their strings
- `exists_marked`: the pairs of a text and the parentheses of its tree, along the tree
- `parse_without`: what is read without some pairs
- `no_needless_parentheses`: the filter is another one then, or the text passes a limit
-/

namespace MetadataFilter

open Text

namespace FilterText

variable {config : RenderConfig} {s t : String}

/-! ### Tests -/

/-- Two texts without parentheses make one. -/
theorem inert_append (hs : Inert s.toList) (ht : Inert t.toList) : Inert (s ++ t).toList := by
  rw [String.toList_append]
  exact hs.append ht

/-- An identifier has no parentheses. -/
theorem inert_of_isIdentifier (h : Token.isIdentifier s = true) : Inert s.toList := by
  obtain ⟨hword, -⟩ := Bool.and_eq_true_iff.1 h
  obtain ⟨first, cs, htext, -, hchars⟩ := isWord_iff.1 hword
  rw [htext]
  exact inert_of_class (by decide) hchars

/-- Between quotes, parentheses are characters of a string. -/
theorem inert_quoted {delimiter : Char} (hd : Token.isDelimiter delimiter = true)
    (h : quoted delimiter s = .ok t) : Inert t.toList := by
  unfold quoted at h
  split at h
  · cases h
  · cases h
    rw [String.toList_ofList]
    exact inert_quote hd s.toList

/-- A quoted name has no parentheses outside of its quotes. -/
theorem inert_quotedName {n : String} (h : quotedName n = .ok s) : Inert s.toList := by
  unfold quotedName at h
  split at h
  · cases h
  · exact inert_quoted (by decide) h

/-- A name has no parentheses outside of quotes. -/
theorem inert_name {n : String} (h : name n = .ok s) : Inert s.toList := by
  unfold name at h
  split at h
  · next hid =>
    cases h
    exact inert_of_isIdentifier hid
  · exact inert_quotedName h

/-- A key has no parentheses outside of quotes. -/
theorem inert_key {k : Key} (h : key config k = .ok s) : Inert s.toList := by
  unfold key at h
  split at h
  · exact inert_name h
  · exact inert_name h
  · exact inert_quotedName h
  · split at h
    · next hids =>
      cases h
      obtain ⟨hparent, hchild⟩ := Bool.and_eq_true_iff.1 hids
      exact inert_append (inert_append (inert_of_isIdentifier hparent)
        (inert_of_isMark (by decide))) (inert_of_isIdentifier hchild)
    · cases h

/-- A numeral has no parentheses. -/
theorem inert_numeral {ds : List Char} (h : IsNumeral ds) : Inert ds := by
  cases h with
  | whole _ isDigit => exact inert_of_class (by decide) isDigit
  | fraction _ isDigit isDigit_fraction =>
    have hpoint : Inert ['.'] := inert_of_isMark (by decide)
    exact (inert_of_class (by decide) isDigit).append
      (hpoint.append (inert_of_class (by decide) isDigit_fraction))

/-- A value has no parentheses outside of quotes. -/
theorem inert_value {v : Value} (h : value v = .ok s) : Inert s.toList := by
  rcases Value.render_cases h with ⟨negative, ds, htext, hds, -⟩ | ⟨b, -, rfl⟩ | ⟨t, -, ht⟩
  · have hsign : Inert (sign negative) := inert_of_isMark (by cases negative <;> decide)
    rw [htext]
    exact hsign.append (inert_numeral hds)
  · exact inert_of_isMark (by cases b <;> decide)
  · exact inert_quoted (by decide) ht

/-- Values with commas between them. -/
theorem inert_values {vs : List Value} {texts : List String}
    (h : List.Forall₂ (fun v s => value v = .ok s) vs texts) :
    Inert (", ".intercalate texts).toList := by
  induction h with
  | nil => exact .nil
  | cons hfirst hothers ih =>
    cases hothers with
    | nil =>
      rw [String.intercalate_singleton]
      exact inert_value hfirst
    | cons =>
      rw [String.intercalate_cons_cons]
      exact inert_append (inert_append (inert_value hfirst) (inert_of_isMark (by decide))) ih

/-- A comparison has no parentheses outside of its strings. -/
theorem inert_comparison {k : Key} {op : CompareOp} {v : Value}
    (h : (dialect config).comparison k op v = .ok s) : Inert s.toList := by
  obtain ⟨field, hfield, h⟩ := Rendered.bind_eq_ok h
  obtain ⟨constant, hconstant, h⟩ := Rendered.bind_eq_ok h
  cases h
  have hblank : Inert " ".toList := inert_of_isMark (by decide)
  have hsymbol : Inert op.symbol.toList := inert_of_isMark (by cases op <;> decide)
  exact inert_append (inert_append (inert_append (inert_append (inert_key hfield) hblank) hsymbol)
    hblank) (inert_value hconstant)

/-- A membership test has no parentheses outside of its strings: its list is in square brackets. -/
theorem inert_membership {k : Key} {negated : Bool} {vs : ValueList}
    (h : (dialect config).membership k negated vs = .ok s) : Inert s.toList := by
  obtain ⟨field, hfield, h⟩ := Rendered.bind_eq_ok h
  obtain ⟨texts, htexts, h⟩ := Rendered.bind_eq_ok h
  cases h
  -- one fact for each piece that the text is put together from
  have hblank : Inert " ".toList := inert_of_isMark (by decide)
  have hword : Inert (if negated then "NOT IN" else "IN").toList :=
    inert_of_isMark (by cases negated <;> decide)
  have hopening : Inert " [".toList := inert_of_isMark (by decide)
  have hclosing : Inert "]".toList := inert_of_isMark (by decide)
  have hlist := inert_values (Dialect.forall₂_of_mapM htexts)
  exact inert_append (inert_append (inert_append (inert_append (inert_append (inert_key hfield)
    hblank) hword) hopening) hlist) hclosing

/-- The connective between two texts. -/
theorem inert_connective (config : RenderConfig) (c : Connective) :
    Inert (" " ++ (dialect config).word c ++ " ").toList := by
  cases c with
  | and => exact inert_of_isMark (by decide : " AND ".toList.any isMark = false)
  | or => exact inert_of_isMark (by decide : " OR ".toList.any isMark = false)

/-! ### Trees -/

/-- The pairs in the text `s` of a tree are the parentheses of the tree. They are numbered from
`opened` on, and without some of them the text is that of the tree without them. -/
structure Marked (config : RenderConfig) (e : Expr) (s : String) (opened : Nat)
    (ms : List Numbered) : Prop where
  numbered_append : ∀ pending rest, numbered .outside opened pending (s.toList ++ rest) =
    (numbered .outside (opened + e.groups) pending rest).map (ms ++ ·)
  verbatim_without : ∀ drop, (dialect config).verbatim (e.without drop opened) =
    .ok (String.ofList (withoutPairs drop ms))
  bounds : ∀ c k, (c, some k) ∈ ms → opened ≤ k ∧ k < opened + e.groups

/-- A tree without parentheses that is written without any. -/
theorem marked_of_inert {e : Expr} (hgroups : e.groups = 0)
    (hwithout : ∀ drop opened, e.without drop opened = e)
    (hs : (dialect config).verbatim e = .ok s) (h : Inert s.toList) (opened : Nat) :
    Marked config e s opened (unnumbered s.toList) where
  numbered_append pending rest := by rw [hgroups, h, Nat.add_zero]
  verbatim_without drop := by
    rw [hwithout, hs, withoutPairs_unnumbered, String.ofList_toList]
  bounds c k hmem := by simp [unnumbered] at hmem

/-- The right side of a join takes up the numbers where the left side has left off. -/
theorem Marked.join {c : Connective} {left right : Expr} {opened : Nat} {ls rs : List Numbered}
    (hleft : Marked config left s opened ls)
    (hright : Marked config right t (opened + left.groups) rs) :
    Marked config (.join c left right) (s ++ (" " ++ (dialect config).word c ++ " ") ++ t) opened
      (ls ++ (unnumbered (" " ++ (dialect config).word c ++ " ").toList ++ rs)) where
  numbered_append pending rest := by
    rw [String.toList_append, String.toList_append, List.append_assoc, List.append_assoc,
      hleft.numbered_append, inert_connective, hright.numbered_append, Option.map_map,
      Option.map_map, Expr.groups, Nat.add_assoc]
    congr 1
    funext ms
    simp
  verbatim_without drop := by
    rw [Expr.without, Dialect.verbatim, hleft.verbatim_without, hright.verbatim_without,
      withoutPairs_append, withoutPairs_append, withoutPairs_unnumbered, String.ofList_append,
      String.ofList_append, String.ofList_toList, ← String.append_assoc]
    rfl
  bounds d k hmem := by
    -- the pairs of the left side have the lower numbers, those of the right side the others
    rw [Expr.groups]
    rcases List.mem_append.1 hmem with hmem | hmem
    · have := hleft.bounds d k hmem
      omega
    rcases List.mem_append.1 hmem with hmem | hmem
    · simp [unnumbered] at hmem
    · have := hright.bounds d k hmem
      omega

/-- A group puts one more pair around the text, with the number that comes next. -/
theorem Marked.group {inner : Expr} {opened : Nat} {ms : List Numbered}
    (h : Marked config inner s (opened + 1) ms) :
    Marked config (.group inner) ("(" ++ s ++ ")") opened
      (('(', some opened) :: (ms ++ [(')', some opened)])) where
  numbered_append pending rest := by
    -- the parenthesis that is opened is the innermost one again when the other one is reached
    have hopen : numbered .outside opened pending ('(' :: (s.toList ++ ')' :: rest)) =
        (numbered .outside (opened + 1) (opened :: pending) (s.toList ++ ')' :: rest)).map
          (('(', some opened) :: ·) := by
      rw [numbered.eq_def]
      rfl
    have hclose : numbered .outside (opened + 1 + inner.groups) (opened :: pending) (')' :: rest) =
        (numbered .outside (opened + 1 + inner.groups) pending rest).map
          ((')', some opened) :: ·) := by
      rw [numbered.eq_def]
      rfl
    have hnext : opened + (Expr.group inner).groups = opened + 1 + inner.groups := by
      rw [Expr.groups]
      omega
    rw [Dialect.toList_parenthesized, List.cons_append, List.append_assoc, List.singleton_append,
      hopen, h.numbered_append, hclose, hnext, Option.map_map, Option.map_map]
    congr 1
    funext ms
    simp
  -- the pair that is left out is the one around the inner text, whose own pairs are unchanged
  verbatim_without drop := by
    rw [Expr.without, Dialect.verbatim_enclose, h.verbatim_without]
    cases hdrop : drop opened with
    | true => simp [withoutPairs, hdrop, Except.map, Dialect.wrap]
    | false => simp [withoutPairs, hdrop, Except.map, Dialect.wrap, String.append_assoc]
  -- the inner pairs have later numbers, and the new pair has the first one
  bounds d k hmem := by
    rw [Expr.groups]
    rcases List.mem_cons.1 hmem with heq | hmem
    · cases heq
      omega
    rcases List.mem_append.1 hmem with hmem | hmem
    · have := h.bounds d k hmem
      omega
    · cases List.mem_singleton.1 hmem
      omega

/-- The pairs of a text are the parentheses of the tree that has been written as it stands. -/
theorem exists_marked {e : Expr} (h : (dialect config).verbatim e = .ok s) (opened : Nat) :
    ∃ ms, Marked config e s opened ms := by
  -- by induction on the tree, along which the numbers are handed out from left to right
  induction e generalizing s opened with
  | comparison k op v =>
    exact ⟨_, marked_of_inert rfl (fun _ _ => rfl) h (inert_comparison h) opened⟩
  | membership k negated vs =>
    exact ⟨_, marked_of_inert rfl (fun _ _ => rfl) h (inert_membership h) opened⟩
  | join c left right hl hr =>
    unfold Dialect.verbatim at h
    obtain ⟨s, hs, h⟩ := Rendered.bind_eq_ok h
    obtain ⟨t, ht, h⟩ := Rendered.bind_eq_ok h
    cases h
    obtain ⟨ls, hls⟩ := hl hs opened
    obtain ⟨rs, hrs⟩ := hr ht (opened + left.groups)
    exact ⟨_, hls.join hrs⟩
  | group inner ih =>
    unfold Dialect.verbatim at h
    obtain ⟨s, hs, h⟩ := Rendered.bind_eq_ok h
    cases h
    obtain ⟨ms, hms⟩ := ih hs (opened + 1)
    exact ⟨_, hms.group⟩

end FilterText

/-! ### Missing parentheses -/

/-- What is read without some of the pairs is a tree with the parentheses that are left, or a limit
is passed. -/
theorem parse_without {config : RenderConfig} (hmap : config.fieldMap = .empty) {e : Expr}
    {s : String} {ms : List Numbered} (h : FilterText.Marked config e s 0 ms)
    (drop : Nat → Bool) :
    (∃ e', Expr.parse (String.ofList (withoutPairs drop ms)) = .ok e' ∧ e'.Grouped ∧
      e'.groups = (e.without drop 0).groups) ∨
    (∃ p, Expr.parse (String.ofList (withoutPairs drop ms)) = .error (.tooDeep p)) ∨
    ∃ p, Expr.parse (String.ofList (withoutPairs drop ms)) = .error (.tooLarge p) := by
  -- the text that is left is that of a tree which has enough parentheses
  obtain ⟨e', hgrouped, hsame, hgroups⟩ := (e.without drop 0).exists_grouped
  have htext := (hsame (FilterText.dialect config)).trans (h.verbatim_without drop)
  obtain ⟨hfault, hfilter⟩ := sentence_of_spells (FilterText.spells_verbatim hmap hgrouped htext)
  rcases parse_of_sentence hfault hfilter with hok | ⟨p, hdeep, -⟩ | ⟨p, hlarge, -⟩
  · refine .inl ⟨_, hok, (Expr.grouped_mapKeys _ _).2 hgrouped, ?_⟩
    rw [Expr.groups_mapKeys, hgroups]
  · exact .inr (.inl ⟨p, hdeep⟩)
  · exact .inr (.inr ⟨p, hlarge⟩)

/-- In the canonical spelling of a filter every parenthesis outside of strings has its partner. What
is left of the spelling without some of the pairs, one at least, is a text of another filter, also
if parentheses do not count, or it passes a limit. -/
theorem no_needless_parentheses {config : RenderConfig} (hmap : config.fieldMap = .empty)
    {text : String} {e : Expr} (htext : Expr.parse text = .ok e) :
    ∃ s marked, render .text config e = .ok s ∧ pairs s = some marked ∧
      marked.map Prod.fst = s.toList ∧
      (∀ c k, (c, some k) ∈ marked → IsPair marked k) ∧
      ∀ drop : Nat → Bool, (∃ c k, (c, some k) ∈ marked ∧ drop k = true) →
        (∃ e', Expr.parse (String.ofList (withoutPairs drop marked)) = .ok e' ∧
          e'.ungroupAll ≠ e.ungroupAll) ∨
        (∃ p, Expr.parse (String.ofList (withoutPairs drop marked)) = .error (.tooDeep p)) ∨
        ∃ p, Expr.parse (String.ofList (withoutPairs drop marked)) = .error (.tooLarge p) := by
  obtain ⟨s, -, hs, -⟩ := render_of_parse hmap htext
  have hrender : render .text config e = .ok s := by
    show (FilterText.render config e).mapError _ = _
    rw [hs]
    rfl
  -- the canonical spelling is the regrouped tree as it stands
  rw [FilterText.render, Dialect.render_eq_verbatim] at hs
  obtain ⟨marked, hmarked⟩ := FilterText.exists_marked hs 0
  have hpairs : pairs s = some marked := by
    have := hmarked.numbered_append [] []
    simpa [pairs, numbered] using this
  refine ⟨s, marked, hrender, hpairs, map_fst_numbered hpairs,
    fun c k hmem => isPair_of_mem_pairs hpairs hmem, ?_⟩
  intro drop hdrop
  obtain ⟨c, k, hmem, hk⟩ := hdrop
  obtain ⟨hle, hlt⟩ := hmarked.bounds c k hmem
  refine (parse_without hmap hmarked drop).imp_left ?_
  intro hread
  obtain ⟨e', hparse, hgrouped, hgroups⟩ := hread
  -- the tree that is read has fewer parentheses than the filter needs
  have hfewer : e'.groups < e.regroup.groups := by
    rw [hgroups]
    exact Expr.groups_without_lt hk hle hlt
  exact ⟨e', hparse, Expr.ungroupAll_ne_of_groups_lt hgrouped hfewer⟩

/-- Without its one pair of parentheses the text joins the tests another way; the parenthesis in the
string is none of them. -/
theorem no_needless_parentheses_around_or :
    ∃ e e', Expr.parse "((a == 1 || b == 2)) && c == '('" = .ok e ∧
      render .text .standard e = .ok "(a == 1 OR b == 2) AND c == '('" ∧
      Expr.parse "a == 1 OR b == 2 AND c == '('" = .ok e' ∧ e'.ungroupAll ≠ e.ungroupAll := by
  have htext : Expr.parse "((a == 1 || b == 2)) && c == '('" = .ok (.join .and
      (.group (.group (.join .or (.comparison (.field "a") .equal (.integer 1))
        (.comparison (.field "b") .equal (.integer 2)))))
      (.comparison (.field "c") .equal (.text "("))) := eq_ok_of_toOption (by decide +kernel)
  obtain ⟨s, marked, hs, hmarked, -, -, hdrop⟩ :=
    @no_needless_parentheses .standard rfl _ _ htext
  cases hs.symm.trans (rfl : _ = Except.ok "(a == 1 OR b == 2) AND c == '('")
  cases hmarked.symm.trans (rfl : _ = some _)
  have hread : ∃ e', Expr.parse "a == 1 OR b == 2 AND c == '('" = .ok e' :=
    ⟨.join .or (.comparison (.field "a") .equal (.integer 1))
      (.join .and (.comparison (.field "b") .equal (.integer 2))
        (.comparison (.field "c") .equal (.text "("))), eq_ok_of_toOption (by decide +kernel)⟩
  -- the text without the pair is read, so neither limit is passed
  rcases hdrop (fun _ => true) ⟨'(', 0, List.mem_cons_self, rfl⟩ with
    ⟨e', hparse, hne⟩ | ⟨p, hparse⟩ | ⟨p, hparse⟩
  · exact ⟨_, e', htext, hs, hparse, hne⟩
  · obtain ⟨e', hok⟩ := hread
    cases hok.symm.trans hparse
  · obtain ⟨e', hok⟩ := hread
    cases hok.symm.trans hparse

end MetadataFilter
