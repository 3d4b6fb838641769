import MetadataFilter.Proofs.Render.Expressible

/-!
# Document stores and embedding stores agree

Both kinds of store take the same documents. They differ in what they refuse: embedding stores know
no membership tests, and document stores take a quoted key with a dot for a path. A filter without
either has the same document in both, or fails in both for the same reason.

## Key results

- `Document.field_cases`, `Document.field_eq`, `Document.field_of_readsAsPath`: the names of fields
- `Document.run_eq`, `Document.run_test_of_readsAsPath`: filters, and tests that only embedding
  stores take
- `stores_agree`: what one kind of store makes of a filter that the other one takes
-/

namespace MetadataFilter

/-- A quoted key that a document store would take for a path: it has a dot and no mapped name. -/
def RenderConfig.ReadsAsPath (config : RenderConfig) (k : Key) : Prop :=
  config.mapped? k = none ∧ ∃ name, k = .quoted name ∧ '.' ∈ name.toList

namespace Document

variable {config : RenderConfig}

/-! ### Names of fields -/

/-- A key is refused by both kinds of store, or embedding stores take its path for a name. Document
stores then do the same, or find a quoted key with a dot. -/
theorem field_cases (config : RenderConfig) (k : Key) :
    (∃ c, ∀ store, field store config k = .error c) ∨
      (field .embeddings config k = .ok (config.path k).dotted ∧
        field .documents config k = match config.mapped? k, k with
          | none, .quoted name =>
            if '.' ∈ name.toList then .error (.dottedKey name) else .ok name
          | _, _ => .ok (config.path k).dotted) := by
  -- the checks that both kinds of store make come first, in the same order
  by_cases hempty : (config.path k).segments.any String.isEmpty = true
  · exact .inl ⟨.emptyKey, fun store => if_pos hempty⟩
  by_cases hdollar : (config.path k).dotted.toList.head? = some '$'
  · exact .inl ⟨_, fun store => (if_neg hempty).trans (if_pos hdollar)⟩
  refine .inr ⟨(if_neg hempty).trans (if_neg hdollar), ?_⟩
  refine ((if_neg hempty).trans (if_neg hdollar)).trans ?_
  -- what is left is the check for dots, which a mapped name never reaches
  cases hmapped : config.mapped? k with
  | some mapped => rfl
  | none =>
    have hpath : config.path k = .ofKey k := by rw [RenderConfig.path, hmapped]
    rw [hpath]
    cases k <;> rfl

/-- Both kinds of store have the same names for fields, and refuse the same ones. -/
theorem field_eq {k : Key} (h : ¬ config.ReadsAsPath k) :
    field .documents config k = field .embeddings config k := by
  rcases field_cases config k with ⟨c, hc⟩ | ⟨hembeddings, hdocuments⟩
  · rw [hc, hc]
  rw [hembeddings, hdocuments]
  split
  · next name hmapped =>
    have hdot : '.' ∉ name.toList := fun hdot => h ⟨hmapped, name, rfl, hdot⟩
    rw [if_neg hdot, RenderConfig.path, hmapped]
    rfl
  · rfl

/-- Only document stores refuse a quoted key with a dot, and they say so. -/
theorem field_of_readsAsPath {k : Key} (h : config.ReadsAsPath k) {text : String}
    (hfield : field .embeddings config k = .ok text) :
    ∃ name, k = .quoted name ∧ '.' ∈ name.toList ∧
      field .documents config k = .error (.dottedKey name) := by
  obtain ⟨hmapped, name, rfl, hdot⟩ := h
  refine ⟨name, rfl, hdot, ?_⟩
  rcases field_cases config (.quoted name) with ⟨c, hc⟩ | ⟨-, hdocuments⟩
  · rw [hc] at hfield
    cases hfield
  · rw [hdocuments, hmapped]
    exact if_pos hdot

/-! ### Filters -/

/-- A filter that neither kind of store refuses for a reason of its own. -/
theorem run_eq {e : Expr}
    (h : ∀ l ∈ e.leaves, ¬ l.IsMembership ∧ ¬ config.ReadsAsPath l.key) :
    run .documents config e = run .embeddings config e := by
  induction e with
  | comparison k op v =>
    have hkey : ¬ config.ReadsAsPath k := (h _ List.mem_cons_self).2
    simp only [run, field_eq hkey]
  | membership k negated vs =>
    obtain ⟨hmembership, -⟩ := h _ List.mem_cons_self
    exact absurd ⟨k, negated, vs, rfl⟩ hmembership
  | join c left right hl hr =>
    have hleft := hl fun l hmem => h l (List.mem_append_left _ hmem)
    have hright := hr fun l hmem => h l (List.mem_append_right _ hmem)
    simp only [run, hleft, hright]
  | group inner ih => exact ih h

/-- A test that an embedding store takes is taken by a document store as well, unless its key reads
as a path there. -/
theorem run_test_of_readsAsPath {l : Leaf} (h : config.ReadsAsPath l.key) {r : Run}
    (hrun : run .embeddings config l.expr = .ok r) :
    ∃ name, l.key = .quoted name ∧ '.' ∈ name.toList ∧
      run .documents config l.expr = .error (.dottedKey name) := by
  cases l with
  -- an embedding store takes no membership test in the first place
  | membership k negated vs => cases hrun
  | comparison k op v =>
    have h : config.ReadsAsPath k := h
    obtain ⟨value, hvalue, hrun⟩ := Rendered.bind_eq_ok hrun
    obtain ⟨text, htext, -⟩ := Rendered.bind_eq_ok hrun
    obtain ⟨name, rfl, hdot, hfield⟩ := field_of_readsAsPath h htext
    refine ⟨name, rfl, hdot, ?_⟩
    simp only [Leaf.expr, run, hvalue, hfield]
    rfl

end Document

/-! ### Renderings -/

section

variable {config : RenderConfig} {e : Expr} {s : String}

/-- A filter that neither kind of store refuses for a reason of its own is written alike for both,
and what goes wrong in one of them goes wrong in the other. -/
theorem spell_mongo_eq_spell_chroma
    (h : ∀ l ∈ e.leaves, ¬ l.IsMembership ∧ ¬ config.ReadsAsPath l.key) :
    Backend.mongo.spell config e = Backend.chroma.spell config e := by
  simp only [Backend.spell, Document.render, Document.document, Document.run_eq h]

/-- What an embedding store takes has no membership test. -/
theorem not_isMembership_of_render (h : render .chroma config e = .ok s) :
    ∀ l ∈ e.leaves, ¬ l.IsMembership := by
  intro l hl hmembership
  have hfails : Fails (render .chroma config e) := by
    rw [fails_render_iff, Backend.spell, Document.fails_render]
    exact ⟨l, hl, .inl ⟨rfl, hmembership⟩⟩
  rw [h] at hfails
  exact not_fails_ok s hfails

/-- What a document store takes has no key that reads as a path there. -/
theorem not_readsAsPath_of_render (h : render .mongo config e = .ok s) :
    ∀ l ∈ e.leaves, ¬ config.ReadsAsPath l.key := by
  rintro l hl ⟨hmapped, hquoted⟩
  have hfails : Fails (render .mongo config e) := by
    rw [fails_render_iff, Backend.spell, Document.fails_render]
    refine ⟨l, hl, .inr (.inr ?_)⟩
    rw [Document.fails_field]
    exact .inr (.inr ⟨rfl, hmapped, hquoted⟩)
  rw [h] at hfails
  exact not_fails_ok s hfails

/-- A test that an embedding store takes and a document store refuses has a key that reads as a path
there. -/
theorem exists_dottedKey_of_test {l : Leaf} (hchroma : render .chroma config l.expr = .ok s)
    {error : RenderError} (hmongo : render .mongo config l.expr = .error error) :
    ∃ name, l.key = .quoted name ∧ config.mapped? l.key = none ∧ '.' ∈ name.toList ∧
      error = ⟨.mongo, .dottedKey name⟩ := by
  have hchroma' : Document.render .embeddings config l.expr = .ok s := render_eq_ok_iff.1 hchroma
  by_cases hpath : config.ReadsAsPath l.key
  · obtain ⟨json, hjson, -⟩ := Rendered.bind_eq_ok hchroma'
    obtain ⟨r, hrun, -⟩ := Rendered.bind_eq_ok hjson
    obtain ⟨name, hname, hdot, hdocuments⟩ := Document.run_test_of_readsAsPath hpath hrun
    refine ⟨name, hname, hpath.1, hdot, ?_⟩
    simp only [render, Backend.spell, Document.render, Document.document, hdocuments] at hmongo
    cases hmongo
    rfl
  -- with any other key both kinds of store take the test
  · have hleaf : ∀ m ∈ l.expr.leaves, ¬ m.IsMembership ∧ ¬ config.ReadsAsPath m.key := by
      have hmembership := not_isMembership_of_render hchroma
      cases l <;> simpa [Leaf.expr, Expr.leaves] using ⟨hmembership _ List.mem_cons_self, hpath⟩
    have hmongo' : render .mongo config l.expr = .ok s := by
      rw [render_eq_ok_iff, spell_mongo_eq_spell_chroma hleaf]
      exact hchroma'
    rw [hmongo'] at hmongo
    cases hmongo

/-- Where both kinds of store can express a filter they agree on its text. What embedding stores
take, document stores take as well, with the same text, unless they report a quoted key of the
filter, without a mapped name, that has a dot. What document stores take, embedding stores take as
well, with the same text, if it has no membership test. -/
theorem stores_agree (config : RenderConfig) (e : Expr) (s : String) :
    (render .chroma config e = .ok s →
      render .mongo config e = .ok s ∨
        ∃ l ∈ e.leaves, ∃ name, l.key = .quoted name ∧ config.mapped? l.key = none ∧
          '.' ∈ name.toList ∧ render .mongo config e = .error ⟨.mongo, .dottedKey name⟩) ∧
    (render .mongo config e = .ok s → (∀ l ∈ e.leaves, ¬ l.IsMembership) →
      render .chroma config e = .ok s) := by
  -- both directions rest on the two languages being one away from what either of them refuses
  refine ⟨fun hchroma => ?_, fun hmongo hmembership => ?_⟩
  · have hby (backend : Backend) := failsByTests_backend backend config e
    cases hmongo : render .mongo config e with
    | ok text =>
      have hpath := not_readsAsPath_of_render hmongo
      have hmembership := not_isMembership_of_render hchroma
      have hsame := spell_mongo_eq_spell_chroma fun l hl => ⟨hmembership l hl, hpath l hl⟩
      left
      rw [← hmongo, render_eq_ok_iff, hsame, ← render_eq_ok_iff]
      exact hchroma
    | error error =>
      -- the leftmost test that is refused is taken by an embedding store
      obtain ⟨before, l, after, hleaves, -, herror⟩ := ((hby .mongo).error_iff error).1 hmongo
      have hl : l ∈ e.leaves := by simp [hleaves]
      obtain ⟨t, ht⟩ := (hby .chroma).ok_iff.1 ⟨s, hchroma⟩ l hl
      obtain ⟨name, hname, hmapped, hdot, rfl⟩ := exists_dottedKey_of_test ht herror
      exact .inr ⟨l, hl, name, hname, hmapped, hdot, rfl⟩
  · have hpath := not_readsAsPath_of_render hmongo
    have hsame := spell_mongo_eq_spell_chroma fun l hl => ⟨hmembership l hl, hpath l hl⟩
    rw [render_eq_ok_iff, ← hsame, ← render_eq_ok_iff]
    exact hmongo

end

/-- A quoted key with a dot is taken by embedding stores only, and by both once it has a mapped
name. -/
theorem stores_agree_dotted_key :
    (render .chroma .standard (.group (.comparison (.quoted "a.b") .equal (.integer 1))) =
        .ok "\x7b\x22a.b\x22:\x7b\x22$eq\x22:1\x7d\x7d" ∧
      ∃ name,
        render .mongo .standard (.group (.comparison (.quoted "a.b") .equal (.integer 1))) =
          .error ⟨.mongo, .dottedKey name⟩) ∧
    (render .mongo ⟨FieldMap.empty.insert "a.b" "c.d", "m", "n"⟩
        (.group (.comparison (.quoted "a.b") .equal (.integer 1))) =
        .ok "\x7b\x22c.d\x22:\x7b\x22$eq\x22:1\x7d\x7d" ∧
      render .chroma ⟨FieldMap.empty.insert "a.b" "c.d", "m", "n"⟩
        (.group (.comparison (.quoted "a.b") .equal (.integer 1))) =
        .ok "\x7b\x22c.d\x22:\x7b\x22$eq\x22:1\x7d\x7d") := by
  have hchroma : render .chroma .standard
      (.group (.comparison (.quoted "a.b") .equal (.integer 1))) =
        .ok "\x7b\x22a.b\x22:\x7b\x22$eq\x22:1\x7d\x7d" := by
    decide +kernel
  have hmongo : render .mongo ⟨FieldMap.empty.insert "a.b" "c.d", "m", "n"⟩
      (.group (.comparison (.quoted "a.b") .equal (.integer 1))) =
        .ok "\x7b\x22c.d\x22:\x7b\x22$eq\x22:1\x7d\x7d" := by
    decide +kernel
  refine ⟨⟨hchroma, ?_⟩, hmongo, ?_⟩
  · rcases (stores_agree _ _ _).1 hchroma with hok | ⟨l, -, name, -, -, -, herror⟩
    · exact absurd hok (by decide +kernel)
    · exact ⟨name, herror⟩
  · refine (stores_agree _ _ _).2 hmongo ?_
    simp [Expr.leaves, Leaf.IsMembership]

end MetadataFilter
