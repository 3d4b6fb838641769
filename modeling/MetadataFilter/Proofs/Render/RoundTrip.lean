import MetadataFilter.Proofs.Grammar.Spellable
import MetadataFilter.Proofs.Render.FilterText
import MetadataFilter.Proofs.Render.Invariance

/-!
# Filters survive their canonical spelling

A filter that has a canonical spelling is read back from it, up to parentheses and to keys that have
to be quoted, unless a limit is passed. A filter that has been read always has a canonical spelling,
and reading that passes no limit: the spelling has no more parentheses than the source had.

## Key results

- `sentence_of_spells`: what is spelled is the filter of its text
- `exists_verbatim`: what has spellable tests can be written
- `parse_of_render`: reading what has been written
- `render_of_parse`: writing what has been read, and reading that again
-/

namespace MetadataFilter

open Grammar Text

/-! ### What has been written -/

/-- A token that is found is the first one of the stream. -/
theorem Cursor.stream_of_next {s s' : Cursor} {t : Token} (h : s.next = (.ok t, s'))
    (hk : t.kind ≠ .endOfInput) : s.stream = .next t s'.stream := by
  rw [stream]
  split
  · next h' => rw [h] at h'; cases h'
  · next t' s'' h' =>
    rw [h] at h'
    cases h'
    exact dif_neg hk

/-- What is spelled is the filter of its text. -/
theorem sentence_of_spells {text : String} {e : Expr}
    (h : Spells (Derives (.run .or) · e) text.toList) :
    (Token.stream (normalize text)).fault? = none ∧
      Sentence (Token.stream (normalize text)).tokens e := by
  -- a filter starts with a key or a parenthesis, so WHERE gets put in front of it
  have hnext : ∀ t s, (Cursor.ofString text).next = (.ok t, s) → t.kind ≠ .whereWord := by
    intro t s hnext hkind
    obtain ⟨ts, p, hts, hstream⟩ := h.stream .start
    obtain ⟨u, us, rfl, hu⟩ := hts.exists_cons
    have hstream' := Cursor.stream_of_next hnext (by simp [hkind])
    have : u = t := by
      rw [Cursor.ofString, hstream] at hstream'
      injection hstream'
    rw [this, hkind] at hu
    simp at hu
  obtain ⟨ts, p, hts, hstream⟩ := h.stream ⟨6, 1, 6⟩
  -- the tokens of the text stand between WHERE and the end
  rw [Cursor.stream_normalize hnext, hstream]
  obtain ⟨hfault, htokens⟩ := Expr.Parser.Feed.tokens_stream_prepend
    (⟨.whereWord, "WHERE", .start⟩ :: ts) p
  have hprepend : ∀ us, (Expr.Parser.Feed.prepend us (.done p)).stream =
      us.foldr Token.Stream.next (.finish p) := by
    intro us
    induction us with
    | nil => rfl
    | cons u us ih => rw [Expr.Parser.Feed.prepend_cons, Expr.Parser.Feed.stream, ih]; rfl
  rw [hprepend] at hfault htokens
  refine ⟨hfault, ?_⟩
  show Sentence (List.foldr Token.Stream.next _ (⟨.whereWord, "WHERE", .start⟩ :: ts)).tokens e
  rw [htokens]
  exact .mk rfl hts rfl

/-! ### What can be written -/

namespace FilterText

/-- A text without line breaks can be put between delimiters. -/
theorem quoted_of_isLineBreak (delimiter : Char) {s : String}
    (h : ∀ c ∈ s.toList, Token.isLineBreak c = false) :
    quoted delimiter s = .ok (String.ofList (quote delimiter s.toList)) := by
  have hany : s.toList.any Token.isLineBreak = false := by simpa using h
  rw [quoted, hany]
  rfl

/-- A spellable key can be written. -/
theorem exists_key {config : RenderConfig} (hmap : config.fieldMap = .empty) {k : Key}
    (h : k.Spellable) : ∃ s, key config k = .ok s := by
  have hnone : config.mapped? k = none := by simp [RenderConfig.mapped?, hmap]
  unfold key
  rw [hnone]
  -- being spellable is just what the writer asks of each kind of key
  cases k with
  | field name => exact ⟨name, if_pos h⟩
  | nested parent child =>
    refine ⟨parent ++ "." ++ child, if_pos ?_⟩
    rw [h.1, h.2]
    rfl
  | quoted name =>
    have hempty : name.isEmpty = false := String.isEmpty_eq_false_iff.2 h.1
    simp only [quotedName, hempty, quoted_of_isLineBreak _ h.2]
    exact ⟨_, rfl⟩

/-- A spellable value can be written. -/
theorem exists_value {v : Value} (h : v.Spellable) : ∃ s, value v = .ok s := by
  cases v with
  | integer => exact ⟨_, rfl⟩
  | decimal => exact ⟨_, if_pos h⟩
  | text => exact ⟨_, quoted_of_isLineBreak _ h⟩
  | boolean => exact ⟨_, rfl⟩

/-- Spellable values can be written, one after the other. -/
theorem exists_values {vs : List Value} (h : ∀ v ∈ vs, v.Spellable) :
    ∃ texts, vs.mapM value = .ok texts := by
  induction vs with
  | nil => exact ⟨[], rfl⟩
  | cons v vs ih =>
    obtain ⟨s, hs⟩ := exists_value (h v (by simp))
    obtain ⟨texts, htexts⟩ := ih fun w hw => h w (by simp [hw])
    refine ⟨s :: texts, ?_⟩
    rw [List.mapM_cons, hs, htexts]
    rfl

/-- A tree with spellable tests can be written as it stands. -/
theorem exists_verbatim {config : RenderConfig} (hmap : config.fieldMap = .empty) {e : Expr}
    (h : ∀ l ∈ e.leaves, l.Spellable) : ∃ s, (dialect config).verbatim e = .ok s := by
  -- by induction on the tree, where the tests of a join are those of its two sides
  induction e with
  | comparison k op v =>
    obtain ⟨hk, hv⟩ : k.Spellable ∧ ∀ w ∈ [v], w.Spellable := h _ List.mem_cons_self
    obtain ⟨name, hname⟩ := exists_key hmap hk
    obtain ⟨constant, hconstant⟩ := exists_value (hv v List.mem_cons_self)
    simp only [Dialect.verbatim, dialect, hname, hconstant]
    exact ⟨_, rfl⟩
  | membership k negated vs =>
    obtain ⟨hk, hvs⟩ : k.Spellable ∧ ∀ w ∈ vs.toList, w.Spellable := h _ List.mem_cons_self
    obtain ⟨name, hname⟩ := exists_key hmap hk
    obtain ⟨texts, htexts⟩ := exists_values hvs
    simp only [Dialect.verbatim, dialect, hname, htexts]
    exact ⟨_, rfl⟩
  -- a side is written on its own before it is joined
  | join c left right hl hr =>
    obtain ⟨s, hs⟩ := hl fun l hmem => h l (List.mem_append_left _ hmem)
    obtain ⟨t, ht⟩ := hr fun l hmem => h l (List.mem_append_right _ hmem)
    rw [Dialect.verbatim, hs, ht]
    exact ⟨_, rfl⟩
  | group inner ih =>
    obtain ⟨s, hs⟩ := ih h
    rw [Dialect.verbatim, hs]
    exact ⟨_, rfl⟩

end FilterText

/-- A spellable key is read as itself. -/
theorem Key.Spellable.asRead {k : Key} (h : k.Spellable) : k.asRead = k := by
  cases k with
  | field name => exact asRead_of_isIdentifier h
  | _ => rfl

/-- A tree of spellable tests keeps its keys when it is read. -/
theorem Expr.mapKeys_asRead {e : Expr} (h : ∀ l ∈ e.leaves, l.Spellable) :
    e.mapKeys Key.asRead = e := by
  induction e with
  | comparison k op v =>
    have hk : k.Spellable := (h _ List.mem_cons_self).1
    rw [mapKeys, hk.asRead]
  | membership k negated vs =>
    have hk : k.Spellable := (h _ List.mem_cons_self).1
    rw [mapKeys, hk.asRead]
  | join c left right hl hr =>
    rw [mapKeys, hl fun l hmem => h l (List.mem_append_left _ hmem),
      hr fun l hmem => h l (List.mem_append_right _ hmem)]
  | group inner ih => rw [mapKeys, ih h]

/-! ### There and back -/

/-- Keys are spelled like the keys that they are read as. -/
theorem FilterText.run_mapKeys_asRead {config : RenderConfig} (hmap : config.fieldMap = .empty)
    (e : Expr) :
    (FilterText.dialect config).run (e.mapKeys Key.asRead) = (FilterText.dialect config).run e := by
  have hkey : ∀ k, FilterText.key config k.asRead = FilterText.key config k := by
    intro k
    have hnone : ∀ k, config.mapped? k = none := by simp [RenderConfig.mapped?, hmap]
    cases k with
    | field n =>
      by_cases hid : Token.isIdentifier n = true
      · rw [Key.asRead_of_isIdentifier hid]
      -- a name that is no identifier is quoted anyway
      · have hname : FilterText.name n = FilterText.quotedName n := if_neg hid
        rw [Key.asRead_of_not_isIdentifier hid]
        simp only [FilterText.key, hnone, hname]
    -- a key that is read as itself is spelled like itself
    | nested => rfl
    | quoted => rfl
  refine Dialect.run_mapKeys ?_ ?_ rfl e
  · intro k op v
    simp only [FilterText.dialect, hkey]
  · intro k negated vs
    simp only [FilterText.dialect, hkey]

section

variable {config : RenderConfig}

/-- Writing sees neither the parentheses nor which keys had to be quoted. -/
theorem FilterText.render_regroup_mapKeys (hmap : config.fieldMap = .empty) (e : Expr) :
    FilterText.render config (e.regroup.mapKeys Key.asRead) = FilterText.render config e := by
  unfold FilterText.render Dialect.render
  rw [FilterText.run_mapKeys_asRead hmap, ← Dialect.run_ungroupAll _ e.regroup,
    Expr.ungroupAll_regroup, Dialect.run_ungroupAll]

/-- What has been written is read back, or a limit is passed. -/
theorem parse_of_render (hmap : config.fieldMap = .empty) {e : Expr} {s : String}
    (hs : FilterText.render config e = .ok s) :
    (∃ e', Expr.parse s = .ok e' ∧ e'.ungroupAll = e.ungroupAll.mapKeys Key.asRead ∧
      FilterText.render config e' = .ok s) ∨
    (∃ position, Expr.parse s = .error (.tooDeep position) ∧ maxDepth < e.regroup.depth) ∨
    ∃ position, Expr.parse s = .error (.tooLarge position) ∧ maxHeight < e.regroup.height := by
  obtain ⟨hfault, hfilter⟩ := sentence_of_spells (FilterText.spells_render hmap hs)
  rcases parse_of_sentence hfault hfilter with hok | herror
  · refine .inl ⟨_, hok, ?_, (FilterText.render_regroup_mapKeys hmap e).trans hs⟩
    rw [Expr.ungroupAll_mapKeys, Expr.ungroupAll_regroup]
  · rw [Expr.depth, Expr.depthAfter_mapKeys, Expr.height_mapKeys] at herror
    exact .inr herror

/-- What has been read can be written, and is read back from that. -/
theorem render_of_parse (hmap : config.fieldMap = .empty) {text : String} {e : Expr}
    (htext : Expr.parse text = .ok e) :
    ∃ s e', FilterText.render config e = .ok s ∧ Expr.parse s = .ok e' ∧
      e'.ungroupAll = e.ungroupAll ∧ FilterText.render config e' = .ok s := by
  obtain ⟨-, hdepth, hheight⟩ := parse_eq_ok_iff.1 htext
  obtain ⟨hleaves, hleans⟩ := spellable_of_parse htext
  have hgrouped := e.leansLeft_iff_grouped.1 hleans
  -- the regrouped tree has the same tests, so it can be written as it stands
  rw [← e.leaves_regroup] at hleaves
  obtain ⟨s, hs⟩ := FilterText.exists_verbatim hmap hleaves
  have hs : FilterText.render config e = .ok s := (Dialect.render_eq_verbatim e).trans hs
  obtain ⟨hfault, hfilter⟩ := sentence_of_spells (FilterText.spells_render hmap hs)
  have hrender := FilterText.render_regroup_mapKeys hmap e
  rw [Expr.mapKeys_asRead hleaves] at hfilter hrender
  -- it is no larger than the one that passed no limit
  have hok := parse_eq_ok_iff.2 ⟨⟨hfault, hfilter⟩,
    Nat.le_trans (Expr.depth_regroup_le hgrouped) hdepth,
    Nat.le_trans (Expr.height_regroup_le hgrouped) hheight⟩
  exact ⟨_, _, hs, hok, e.ungroupAll_regroup, hrender.trans hs⟩

end

/-- Without mapped names, a filter that has been written is read back without the needless
parentheses and with the keys quoted that have to be, or a limit is passed. A filter that has been
read can be written, and it is read back from that. -/
theorem parse_render_round_trip {config : RenderConfig} (hmap : config.fieldMap = .empty)
    (e : Expr) :
    (∀ s, FilterText.render config e = .ok s →
      (∃ e', Expr.parse s = .ok e' ∧ e'.ungroupAll = e.ungroupAll.mapKeys Key.asRead ∧
        FilterText.render config e' = .ok s) ∨
      (∃ position, Expr.parse s = .error (.tooDeep position) ∧ maxDepth < e.regroup.depth) ∨
      ∃ position, Expr.parse s = .error (.tooLarge position) ∧ maxHeight < e.regroup.height) ∧
    ∀ text, Expr.parse text = .ok e →
      ∃ s e', FilterText.render config e = .ok s ∧ Expr.parse s = .ok e' ∧
        e'.ungroupAll = e.ungroupAll ∧ FilterText.render config e' = .ok s :=
  ⟨fun _ hs => parse_of_render hmap hs, fun _ htext => render_of_parse hmap htext⟩

/-- A reserved word comes back as a quoted key, the needless parentheses are gone, and the text
of a group can be written and read. -/
theorem round_trip_of_reserved_name :
    FilterText.render .standard
        (.join .and (.group (.comparison (.field "in") .equal (.text "it's")))
          (.membership (.nested "doc" "lang") true ⟨.integer (-5), [.boolean true]⟩)) =
      .ok "\x22in\x22 == 'it\\'s' AND doc.lang NOT IN [-5, true]" ∧
    (∃ e', Expr.parse "\x22in\x22 == 'it\\'s' AND doc.lang NOT IN [-5, true]" = .ok e' ∧
      e'.ungroupAll = .join .and (.comparison (.quoted "in") .equal (.text "it's"))
        (.membership (.nested "doc" "lang") true ⟨.integer (-5), [.boolean true]⟩)) ∧
    Expr.parse "(a == 1)" = .ok (.group (.comparison (.field "a") .equal (.integer 1))) ∧
    ∃ s e', FilterText.render .standard (.group (.comparison (.field "a") .equal (.integer 1))) =
        .ok s ∧ Expr.parse s = .ok e' := by
  have hrender : FilterText.render .standard
      (.join .and (.group (.comparison (.field "in") .equal (.text "it's")))
        (.membership (.nested "doc" "lang") true ⟨.integer (-5), [.boolean true]⟩)) =
      .ok "\x22in\x22 == 'it\\'s' AND doc.lang NOT IN [-5, true]" := by
    rfl
  have hparse : Expr.parse "(a == 1)" =
      .ok (.group (.comparison (.field "a") .equal (.integer 1))) :=
    eq_ok_of_toOption (by decide +kernel)
  refine ⟨hrender, ?_, hparse, ?_⟩
  · rcases (@parse_render_round_trip .standard rfl _).1 _ hrender with
      ⟨e', hok, hread, -⟩ | ⟨-, -, hdepth⟩ | ⟨-, -, hheight⟩
    · exact ⟨e', hok, hread.trans (by decide)⟩
    · -- one join over two tests is far below both limits
      exact absurd hdepth (by decide)
    · exact absurd hheight (by decide)
  · obtain ⟨s, e', hs, hok, -⟩ := (@parse_render_round_trip .standard rfl _).2 _ hparse
    exact ⟨s, e', hs, hok⟩

end MetadataFilter
