import MetadataFilter.Proofs.Render.Characters
import MetadataFilter.Proofs.Render.Expressible
import MetadataFilter.Proofs.Render.JsonPath
import MetadataFilter.Proofs.Text.Doubled

/-!
# Where a NUL in SQL comes from

A NUL cannot stand in the text of a query. What is written for strings, numbers and the paths of
keys has none, as a filter with one in there is refused. The name of the column is written whatever
stands in it, so a NUL of the name, and no other, gets into the text.

## Key results

- `Value.nul_notMem_render`: values are written without NULs
- `Sql.nul_mem_field`, `JsonPath.nul_notMem_path`: a field has the NULs of the column's name, a path
  has none
- `Dialect.nul_mem_render`: a filter has those of its tests
- `nul_mem_iff_column`: conditions in SQL have those of the column's name
-/

namespace MetadataFilter

open FilterText

/-! ### Quotes and values -/

/-- Between delimiters there are the characters of the text, apart from the delimiter itself. -/
theorem Text.mem_quoteDoubled {quote c : Char} (hc : c ≠ quote) (s : String) :
    c ∈ (quoteDoubled quote s).toList ↔ c ∈ s.toList := by
  rw [toList_quoteDoubled]
  simp [mem_double, hc]

/-- A character without a short escape is written in four digits or is no control character. -/
theorem Json.nul_notMem_escapeChar (c : Char) : '\x00' ∉ escapeChar c := by
  -- hexadecimal digits are the only characters that depend on what is escaped
  have hdigit : ∀ m < 16, '\x00' ≠ Nat.digitChar m := by decide
  unfold escapeChar
  split
  case h_8 =>
    split
    · next hcontrol =>
      have hfirst := hdigit (c.toNat / 16) (by omega)
      have hsecond := hdigit (c.toNat % 16) (by omega)
      simp [hfirst, hsecond]
    · next hcontrol =>
      -- the character stands for itself, and a NUL would have been a control character
      intro hmem
      rw [← List.mem_singleton.1 hmem] at hcontrol
      exact hcontrol (by decide)
  all_goals decide

/-- A string of a document has no NUL, since control characters are escaped. -/
theorem Json.nul_notMem_quote (s : String) : '\x00' ∉ (quote s).toList := by
  simp only [quote, String.toList_ofList, List.mem_append, List.mem_cons, List.mem_flatMap]
  rintro ((hmem | ⟨c, -, hmem⟩) | hmem)
  · exact absurd hmem (by decide)
  · exact nul_notMem_escapeChar c hmem
  · exact absurd hmem (by decide)

/-- Values are written without NULs if strings are. -/
theorem Value.nul_notMem_render {text : String → Rendered String}
    (htext : ∀ t s, text t = .ok s → '\x00' ∉ s.toList) {v : Value} {s : String}
    (h : v.render text = .ok s) : '\x00' ∉ s.toList := by
  rcases Value.render_cases h with ⟨negative, ds, hs, hds, -⟩ | ⟨b, -, rfl⟩ | ⟨t, -, ht⟩
  · rw [hs, List.mem_append, not_or]
    refine ⟨?_, fun hmem => absurd (hds.isPrintable _ hmem) (by decide)⟩
    cases negative <;> decide
  · cases b <;> decide
  · exact htext t s ht

/-- Texts that are put together without a NUL between them. -/
theorem nul_notMem_intercalate {s : String} {texts : List String} (hs : '\x00' ∉ s.toList)
    (h : ∀ t ∈ texts, '\x00' ∉ t.toList) : '\x00' ∉ (s.intercalate texts).toList := by
  have hmade : ∀ {t : String}, '\x00' ∉ t.toList → MadeOf (· ≠ '\x00') t :=
    fun hnul c hc hzero => hnul (hzero ▸ hc)
  exact fun hmem =>
    MadeOf.intercalate (hmade hs) (fun t ht => hmade (h t ht)) _ hmem rfl

/-- Texts that have been written one after the other. -/
theorem nul_notMem_of_mapM {α : Type} {write : α → Rendered String}
    (hwrite : ∀ {x t}, write x = .ok t → '\x00' ∉ t.toList) {xs : List α} {texts : List String}
    (h : xs.mapM write = .ok texts) : ∀ t ∈ texts, '\x00' ∉ t.toList := by
  intro t ht
  obtain ⟨x, -, hx⟩ := Dialect.exists_of_mem_mapM h ht
  exact hwrite hx

/-! ### Filters -/

/-- If all tests have a NUL under one condition, so has what a dialect writes for them. -/
theorem Dialect.nul_mem_render {d : Dialect} {P : Prop}
    (hword : ∀ c, '\x00' ∉ (d.word c).toList)
    (htest : ∀ l s, d.test l = .ok s → ('\x00' ∈ s.toList ↔ P)) {e : Expr} {s : String}
    (h : d.render e = .ok s) : '\x00' ∈ s.toList ↔ P := by
  -- by induction along what is written, in which only tests can bring in a NUL
  refine @Dialect.render_induction d (fun _ s _ => '\x00' ∈ s.toList ↔ P) ?_ ?_ ?_ ?_ ?_ e s h
  · exact fun {k op v s} h => htest (.comparison k op v) s h
  · exact fun {k negated vs s} h => htest (.membership k negated vs) s h
  · exact fun _ h => h
  · intro c s t left right hs ht
    rw [toList_joined]
    simp [hs, ht, hword c]
  · intro s e hs
    rw [toList_parenthesized]
    simp [hs]

/-! ### Conditions in SQL -/

namespace Sql

/-- A string in SQL that is written has no NUL, as one with a NUL is refused. -/
theorem nul_notMem_string {s t : String} (h : string s = .ok t) : '\x00' ∉ t.toList := by
  unfold string at h
  split at h
  · cases h
  · next hnul =>
    cases h
    rwa [Text.mem_quoteDoubled (by decide)]

/-- A value in SQL has no NUL. -/
theorem nul_notMem_value {v : Value} {s : String} (h : value v = .ok s) : '\x00' ∉ s.toList :=
  Value.nul_notMem_render (fun _ _ => nul_notMem_string) h

/-- The name of a column has the NULs that it is given, quoted or not. -/
theorem nul_mem_identifier (name : String) :
    '\x00' ∈ (identifier name).toList ↔ '\x00' ∈ name.toList := by
  unfold identifier
  split
  · rfl
  · exact Text.mem_quoteDoubled (by decide) name

/-- The names on the path are strings, so a NUL is left to the column alone. -/
theorem nul_mem_field {config : RenderConfig} {k : Key} {cast : Cast} {s : String}
    (h : field config k cast = .ok s) :
    '\x00' ∈ s.toList ↔ '\x00' ∈ config.metadataColumn.toList := by
  unfold field at h
  cases hpath : config.path k with
  | flat name =>
    rw [hpath] at h
    obtain ⟨last, hlast, h⟩ := Rendered.bind_eq_ok h
    cases h
    -- the cast and the arrows around the names are fixed texts
    cases cast <;> simp [nul_mem_identifier, nul_notMem_string hlast]
  | nested parent child =>
    rw [hpath] at h
    obtain ⟨first, hfirst, h⟩ := Rendered.bind_eq_ok h
    obtain ⟨last, hlast, h⟩ := Rendered.bind_eq_ok h
    cases h
    cases cast <;>
      simp [nul_mem_identifier, nul_notMem_string hfirst, nul_notMem_string hlast]

/-- A test in SQL has a NUL where the name of the column has one. -/
theorem nul_mem_test {config : RenderConfig} {l : Leaf} {s : String}
    (h : (dialect config).test l = .ok s) :
    '\x00' ∈ s.toList ↔ '\x00' ∈ config.metadataColumn.toList := by
  cases l with
  | comparison k op v =>
    obtain ⟨field, hfield, h⟩ := Rendered.bind_eq_ok h
    obtain ⟨constant, hconstant, h⟩ := Rendered.bind_eq_ok h
    cases h
    -- apart from the field, nothing in a test can have a NUL
    have hop : '\x00' ∉ (operator op).toList := by cases op <;> decide
    simp [toString, nul_mem_field hfield, nul_notMem_value hconstant, hop]
  | membership k negated vs =>
    obtain ⟨cast, -, h⟩ := Rendered.bind_eq_ok h
    obtain ⟨texts, htexts, h⟩ := Rendered.bind_eq_ok h
    obtain ⟨field, hfield, h⟩ := Rendered.bind_eq_ok h
    cases h
    have hword : '\x00' ∉ (if negated then "NOT IN" else "IN").toList := by
      cases negated <;> decide
    have hvalues : '\x00' ∉ (", ".intercalate texts).toList :=
      nul_notMem_intercalate (by decide) (nul_notMem_of_mapM nul_notMem_value htexts)
    simp [toString, nul_mem_field hfield, hword, hvalues, -String.toList_intercalate]

/-- A condition has a NUL where the name of the column has one. -/
theorem nul_mem_render {config : RenderConfig} {e : Expr} {s : String}
    (h : render config e = .ok s) :
    '\x00' ∈ s.toList ↔ '\x00' ∈ config.metadataColumn.toList :=
  Dialect.nul_mem_render (fun c => by cases c <;> simp [dialect]) (fun _ _ => nul_mem_test) h

end Sql

/-! ### Path predicates -/

namespace JsonPath

/-- A string of a path predicate has no NUL. -/
theorem nul_notMem_string {s t : String} (h : string s = .ok t) : '\x00' ∉ t.toList := by
  rw [string_eq_ok h]
  exact Json.nul_notMem_quote s

/-- A value of a path predicate has no NUL. -/
theorem nul_notMem_value {v : Value} {s : String} (h : value v = .ok s) : '\x00' ∉ s.toList :=
  Value.nul_notMem_render (fun _ _ => nul_notMem_string) h

/-- A step of a path has no NUL, bare or quoted. -/
theorem nul_notMem_step {name s : String} (h : step name = .ok s) : '\x00' ∉ s.toList := by
  unfold step at h
  split at h
  · next hword =>
    cases h
    exact Text.notMem_of_isWord hword (by decide)
  · exact nul_notMem_string h

/-- A path has no NUL. -/
theorem nul_notMem_path {config : RenderConfig} {k : Key} {s : String}
    (h : path config k = .ok s) : '\x00' ∉ s.toList := by
  obtain ⟨steps, hsteps, h⟩ := Rendered.bind_eq_ok h
  cases h
  refine nul_notMem_intercalate (by decide) fun t ht => ?_
  rcases List.mem_cons.1 ht with rfl | ht
  · decide
  · exact nul_notMem_of_mapM nul_notMem_step hsteps t ht

/-- A test of a path predicate has no NUL. -/
theorem nul_notMem_test {config : RenderConfig} {l : Leaf} {s : String}
    (h : (dialect config).test l = .ok s) : '\x00' ∉ s.toList := by
  cases l with
  | comparison k op v =>
    obtain ⟨path, hpath, h⟩ := Rendered.bind_eq_ok h
    obtain ⟨constant, hconstant, h⟩ := Rendered.bind_eq_ok h
    cases h
    have hop : '\x00' ∉ op.symbol.toList := by cases op <;> decide
    simp [toString, nul_notMem_path hpath, nul_notMem_value hconstant, hop]
  | membership k negated vs =>
    obtain ⟨path, hpath, h⟩ := Rendered.bind_eq_ok h
    obtain ⟨texts, htexts, h⟩ := Rendered.bind_eq_ok h
    -- each equality repeats the path, which has no NUL in it either
    have hdisjunction :
        '\x00' ∉ (" || ".intercalate (texts.map fun v => s!"{path} == {v}")).toList := by
      refine nul_notMem_intercalate (by decide) fun t ht => ?_
      obtain ⟨constant, hconstant, rfl⟩ := List.mem_map.1 ht
      have hvalue := nul_notMem_of_mapM nul_notMem_value htexts constant hconstant
      simp [toString, nul_notMem_path hpath, hvalue]
    cases negated with
    | true =>
      cases h
      simp [hdisjunction, -String.toList_intercalate]
    | false =>
      cases h
      -- without a negation there may be parentheses around it, which add no NUL
      unfold Dialect.wrap
      split
      · simp [hdisjunction, -String.toList_intercalate]
      · exact hdisjunction

/-- A path predicate has no NUL. -/
theorem nul_notMem_render {config : RenderConfig} {e : Expr} {s : String}
    (h : render config e = .ok s) : '\x00' ∉ s.toList :=
  (Dialect.nul_mem_render (P := False) (fun c => by cases c <;> simp [dialect])
    (fun _ _ h => iff_of_false (nul_notMem_test h) id) h).1

/-- Around a path predicate there is the name of the column. -/
theorem nul_mem_predicate {config : RenderConfig} {e : Expr} {s : String}
    (h : predicate config e = .ok s) :
    '\x00' ∈ s.toList ↔ '\x00' ∈ config.metadataColumn.toList := by
  obtain ⟨path, hpath, h⟩ := Rendered.bind_eq_ok h
  cases h
  have hliteral : '\x00' ∉ (Text.quoteDoubled '\'' path).toList := by
    rw [Text.mem_quoteDoubled (by decide)]
    exact nul_notMem_render hpath
  simp [Sql.nul_mem_identifier, hliteral]

end JsonPath

/-! ### Rendering -/

/-- Conditions in SQL, also those around a path predicate, have a NUL if and only if the name of the
column has one; path predicates by themselves have none. Nothing is refused because of that name.
Only tests are: those with a NUL in the path of the key or in a string, those with a decimal that is
not finite and, where there is no path predicate, those with values of several types. -/
theorem nul_mem_iff_column (config : RenderConfig) (e : Expr) :
    (∀ s, render .sql config e = .ok s →
      ('\x00' ∈ s.toList ↔ '\x00' ∈ config.metadataColumn.toList)) ∧
    (∀ s, renderPredicate config e = .ok s →
      ('\x00' ∈ s.toList ↔ '\x00' ∈ config.metadataColumn.toList)) ∧
    (∀ s, render .pgvector config e = .ok s → '\x00' ∉ s.toList) ∧
    (Fails (render .sql config e) ↔ ∃ l ∈ e.leaves, l.Mixed ∨ l.Unwritable config) ∧
    (Fails (renderPredicate config e) ↔ ∃ l ∈ e.leaves, l.Unwritable config) := by
  refine ⟨fun s h => ?_, fun s h => ?_, fun s h => ?_, ?_, ?_⟩
  · exact Sql.nul_mem_render (render_eq_ok_iff.1 h)
  · exact JsonPath.nul_mem_predicate (renderPredicate_eq_ok_iff.1 h)
  · exact JsonPath.nul_notMem_render (render_eq_ok_iff.1 h)
  · rw [fails_render_iff]
    exact Sql.fails_render config e
  · rw [fails_renderPredicate_iff]
    exact JsonPath.fails_render config e

/-- A quoted text, a cast and a nested key are written without a NUL under the usual column, and
a value with one is refused by both renderers. -/
theorem nul_mem_iff_column_without_nul :
    (∃ s, render .sql .standard (.join .and
        (.membership (.field "tag") false ⟨.text "it's", [.text "b"]⟩)
        (.comparison (.nested "a" "b c") .notEqual (.boolean true))) = .ok s ∧
      s = "metadata->>'tag' IN ('it''s', 'b') AND (metadata->'a'->>'b c')::boolean <> true" ∧
      '\x00' ∉ s.toList) ∧
    Fails (render .sql .standard (.comparison (.field "tag") .equal (.text "\x00"))) ∧
    Fails (renderPredicate .standard (.comparison (.field "tag") .equal (.text "\x00"))) := by
  have hcondition : render .sql .standard (.join .and
      (.membership (.field "tag") false ⟨.text "it's", [.text "b"]⟩)
      (.comparison (.nested "a" "b c") .notEqual (.boolean true))) =
        .ok "metadata->>'tag' IN ('it''s', 'b') AND (metadata->'a'->>'b c')::boolean <> true" := by
    decide +kernel
  have hnul : (Leaf.comparison (.field "tag") .equal (.text "\x00")).Unwritable .standard :=
    .inr ⟨.text "\x00", List.mem_singleton_self _, .inr ⟨"\x00", rfl, by decide⟩⟩
  obtain ⟨-, -, -, hsql, hpredicate⟩ :=
    nul_mem_iff_column .standard (.comparison (.field "tag") .equal (.text "\x00"))
  refine ⟨⟨_, hcondition, rfl, fun hmem => ?_⟩, ?_, ?_⟩
  -- the name of the column has no NUL
  · exact absurd (((nul_mem_iff_column _ _).1 _ hcondition).1 hmem) (by decide)
  · exact hsql.2 ⟨_, List.mem_singleton_self _, .inr hnul⟩
  · exact hpredicate.2 ⟨_, List.mem_singleton_self _, hnul⟩

/-- A name with a NUL in it is quoted and written, where a string with one is refused. -/
theorem nul_written_from_column :
    (∃ s, render .sql ⟨.empty, "a\x00b", "node"⟩
        (.comparison (.field "x") .equal (.integer 1)) = .ok s ∧
      s = "(\x22a\x00b\x22->>'x')::numeric = 1" ∧ '\x00' ∈ s.toList) ∧
    ∃ s, renderPredicate ⟨.empty, "a\x00b", "node"⟩
        (.comparison (.field "x") .equal (.integer 1)) = .ok s ∧
      s = "\x22a\x00b\x22::jsonb @@ '$.x == 1'::jsonpath" ∧ '\x00' ∈ s.toList := by
  refine ⟨⟨_, ?_, rfl, by decide⟩, _, ?_, rfl, by decide⟩
  · decide +kernel
  · decide +kernel

end MetadataFilter
