import MetadataFilter.Proofs.Expr.Spellable
import MetadataFilter.Proofs.Grammar.Names
import MetadataFilter.Proofs.Render.Failure
import MetadataFilter.Proofs.Render.RoundTrip

/-!
# Which filters a backend can express

For each language of a store, which tests it cannot express, under any settings and whatever the
keys and values are. A filter that has been read has finite decimals, and keys that are not empty,
so little remains that can go wrong there: a NUL, a list of values of several types, or a quoted key
that a store would take for something else.

## Key results

- `JsonPath.fails_render`, `Sql.fails_render`, `Cypher.fails_render`, `Document.fails_render`: what
  each language cannot express
- `fails_render_of_parse`: what that leaves for filters that have been read
-/

namespace MetadataFilter

/-! ### Values and tests -/

/-- A decimal that is infinite or no number. -/
def Value.NonFinite (v : Value) : Prop := ∃ x, v = .decimal x ∧ x.isFinite = false

/-- A string with a NUL in it. -/
def Value.HoldsNul (v : Value) : Prop := ∃ s, v = .text s ∧ '\x00' ∈ s.toList

/-- Values of one type, where integers and decimals are numbers alike. -/
def Value.Alike : Value → Value → Prop
  | integer _, integer _ | integer _, decimal _ => True
  | decimal _, integer _ | decimal _, decimal _ => True
  | text _, text _ => True
  | boolean _, boolean _ => True
  | _, _ => False

/-- A test with a NUL in its key or in one of its strings. -/
def Leaf.HoldsNul (l : Leaf) : Prop :=
  '\x00' ∈ l.key.logicalName.toList ∨ ∃ v ∈ l.values, v.HoldsNul

/-- A test with a NUL in the path of its key or in one of its strings, or with a decimal that is not
finite. -/
def Leaf.Unwritable (config : RenderConfig) (l : Leaf) : Prop :=
  '\x00' ∈ (config.path l.key).dotted.toList ∨ ∃ v ∈ l.values, v.NonFinite ∨ v.HoldsNul

/-- A test with values of several types. -/
def Leaf.Mixed (l : Leaf) : Prop := ∃ v ∈ l.values, ∃ w ∈ l.values, ¬ v.Alike w

/-- A test whether a field is among constants. -/
def Leaf.IsMembership (l : Leaf) : Prop := ∃ k negated vs, l = .membership k negated vs

/-- Values are alike when they are cast to the same type. -/
theorem Value.alike_iff (v w : Value) : v.Alike w ↔ Sql.Cast.ofValue v = Sql.Cast.ofValue w := by
  cases v <;> cases w <;> simp [Alike, Sql.Cast.ofValue]

/-- A value fails to be written if it is no finite decimal, or a string that cannot be written. -/
theorem Value.fails_render (text : String → Rendered String) (v : Value) :
    Fails (v.render text) ↔ v.NonFinite ∨ ∃ s, v = .text s ∧ Fails (text s) := by
  cases v with
  | decimal x => cases h : x.isFinite <;> simp [render, NonFinite, h]
  | text s => simp [render, NonFinite]
  | _ => simp [render, NonFinite]

/-- A character other than a dot is in a path if it is in one of its parts. -/
theorem FieldPath.mem_dotted (p : FieldPath) {c : Char} (hc : c ≠ '.') :
    c ∈ p.dotted.toList ↔ ∃ segment ∈ p.segments, c ∈ segment.toList := by
  cases p <;> simp [dotted, segments, hc]

/-! ### Dialects -/

namespace Dialect

/-- What a dialect writes for a test. -/
def test (d : Dialect) : Leaf → Rendered String
  | .comparison k op v => d.comparison k op v
  | .membership k negated vs => d.membership k negated vs

/-- A dialect fails on a filter if it fails on one of its tests. -/
theorem fails_render (d : Dialect) (e : Expr) :
    Fails (d.render e) ↔ ∃ l ∈ e.leaves, Fails (d.test l) := by
  have hleaf : ∀ l : Leaf, Fails (d.render l.expr) ↔ Fails (d.test l) := by
    intro l
    cases l <;> exact (fails_map _ _).trans (fails_map _ _)
  simp only [← hleaf]
  exact (FailsByTests.of_failure?_eq (d.failure?_render e)).fails_iff

end Dialect

/-! ### Path predicates -/

namespace JsonPath

/-- Strings of path predicates fail on a NUL only. -/
theorem fails_string (s : String) : Fails (string s) ↔ '\x00' ∈ s.toList := by
  unfold string
  split <;> simp [*]

/-- Values of path predicates fail on a NUL or on decimals that are not finite. -/
theorem fails_value (v : Value) : Fails (value v) ↔ v.NonFinite ∨ v.HoldsNul := by
  simp only [value, Value.fails_render, fails_string, Value.HoldsNul]

/-- A step of a path fails on a NUL only. -/
theorem fails_step (name : String) : Fails (step name) ↔ '\x00' ∈ name.toList := by
  unfold step
  split
  · next h => exact iff_of_false (not_fails_ok name) (Text.notMem_of_isWord h (by decide))
  · exact fails_string name

/-- A path fails if there is a NUL in one of its steps. -/
theorem fails_path (config : RenderConfig) (k : Key) :
    Fails (path config k) ↔ '\x00' ∈ (config.path k).dotted.toList := by
  unfold path
  rw [fails_map, fails_mapM, FieldPath.mem_dotted _ (by decide)]
  simp only [fails_step]

/-- A test of a path predicate fails exactly if its key or one of its values does. -/
theorem fails_test (config : RenderConfig) (l : Leaf) :
    Fails ((dialect config).test l) ↔ l.Unwritable config := by
  unfold Leaf.Unwritable
  rw [← fails_path]
  simp only [← fails_value]
  cases l with
  | comparison k op v =>
    simp only [Leaf.values, List.mem_singleton, exists_eq_left]
    exact fails_bind fun path => fails_map _ (value v)
  | membership k negated vs =>
    rw [Leaf.values, ← fails_mapM]
    refine fails_bind fun path => ?_
    -- once its parts have been written nothing goes wrong, negated or not
    refine (fails_bind (P := False) fun texts => ?_).trans (iff_of_eq (or_false _))
    cases negated <;> simp [pure, Except.pure]

/-- What no path predicate can express: a NUL, and decimals that are not finite. -/
theorem fails_render (config : RenderConfig) (e : Expr) :
    Fails (render config e) ↔ ∃ l ∈ e.leaves, l.Unwritable config := by
  simp only [render, Dialect.fails_render, fails_test]

end JsonPath

/-! ### Conditions in SQL -/

namespace Sql

/-- Strings in SQL fail on a NUL only. -/
theorem fails_string (s : String) : Fails (string s) ↔ '\x00' ∈ s.toList := by
  unfold string
  split <;> simp [*]

/-- Values in SQL fail on a NUL or on decimals that are not finite. -/
theorem fails_value (v : Value) : Fails (value v) ↔ v.NonFinite ∨ v.HoldsNul := by
  simp only [value, Value.fails_render, fails_string, Value.HoldsNul]

/-- Fields in SQL fail on a NUL in a part of their path, whatever they are cast to. -/
theorem fails_field (config : RenderConfig) (k : Key) (cast : Cast) :
    Fails (field config k cast) ↔ '\x00' ∈ (config.path k).dotted.toList := by
  rw [FieldPath.mem_dotted _ (by decide)]
  unfold field
  cases config.path k with
  | flat name =>
    simp only [FieldPath.segments, List.mem_singleton, exists_eq_left, ← fails_string]
    exact fails_map _ (string name)
  | nested parent child =>
    simp only [FieldPath.segments, List.mem_cons, List.not_mem_nil, or_false, exists_eq_or_imp,
      exists_eq_left, ← fails_string]
    exact fails_bind fun _ => fails_map _ (string child)

/-- A list has no type to cast to if two of its values have different types. -/
theorem fails_listCast (vs : ValueList) :
    Fails (listCast vs) ↔ ∃ v ∈ vs.toList, ∃ w ∈ vs.toList, ¬ v.Alike w := by
  simp only [Value.alike_iff]
  unfold listCast
  split
  -- a value of another type than the first one has been found
  · next other h =>
    have hmem : other ∈ vs.toList := List.mem_of_find?_eq_some h
    have hother := List.find?_some h
    refine iff_of_true (fails_error _) ⟨other, hmem, vs.first, List.mem_cons_self, ?_⟩
    simpa using hother
  · next h =>
    -- all values have the type of the first one
    have hall : ∀ v ∈ vs.toList, Cast.ofValue v = Cast.ofValue vs.first := by
      simpa using List.find?_eq_none.1 h
    refine iff_of_false (not_fails_ok _) ?_
    rintro ⟨v, hv, w, hw, hne⟩
    exact hne ((hall v hv).trans (hall w hw).symm)

/-- A test in SQL also fails if its values are of several types. -/
theorem fails_test (config : RenderConfig) (l : Leaf) :
    Fails ((dialect config).test l) ↔ l.Mixed ∨ l.Unwritable config := by
  unfold Leaf.Unwritable
  simp only [← fails_value]
  cases l with
  | comparison k op v =>
    -- a single value is of one type
    have hmixed : ¬ (Leaf.comparison k op v).Mixed := by
      simp [Leaf.Mixed, Leaf.values, Value.alike_iff]
    rw [or_iff_right hmixed, Leaf.key, ← fails_field config k (.ofValue v)]
    simp only [Leaf.values, List.mem_singleton, exists_eq_left]
    exact fails_bind fun field => fails_map _ (value v)
  | membership k negated vs =>
    -- the values are written before the field is
    rw [Leaf.Mixed, Leaf.values, ← fails_listCast, ← fails_mapM,
      or_comm (a := '\x00' ∈ (config.path _).dotted.toList)]
    exact fails_bind fun cast => fails_bind fun texts =>
      (fails_map _ _).trans (fails_field config k cast)

/-- What no condition in SQL can express: a NUL, decimals that are not finite, and values of several
types in one list. -/
theorem fails_render (config : RenderConfig) (e : Expr) :
    Fails (render config e) ↔ ∃ l ∈ e.leaves, l.Mixed ∨ l.Unwritable config := by
  simp only [render, Dialect.fails_render, fails_test]

end Sql

/-! ### Conditions on nodes -/

namespace Cypher

/-- Values of conditions on nodes fail on decimals that are not finite: strings are escaped. -/
theorem fails_value (v : Value) : Fails (value v) ↔ v.NonFinite := by
  simp [value, Value.fails_render]

/-- A test on nodes fails on its values only, as names are quoted. -/
theorem fails_test (config : RenderConfig) (l : Leaf) :
    Fails ((dialect config).test l) ↔ ∃ v ∈ l.values, v.NonFinite := by
  simp only [← fails_value]
  cases l with
  | comparison k op v =>
    simp only [Leaf.values, List.mem_singleton, exists_eq_left]
    exact fails_map _ (value v)
  | membership k negated vs =>
    rw [Leaf.values, ← fails_mapM]
    exact fails_map _ (vs.toList.mapM value)

/-- What no condition on nodes can express: decimals that are not finite. -/
theorem fails_render (config : RenderConfig) (e : Expr) :
    Fails (render config e) ↔ ∃ l ∈ e.leaves, ∃ v ∈ l.values, v.NonFinite := by
  simp only [render, Dialect.fails_render, fails_test]

end Cypher

/-! ### Documents -/

namespace Document

variable (store : Store) (config : RenderConfig)

/-- Values in documents fail on decimals that are not finite. -/
theorem fails_operand (v : Value) : Fails (operand v) ↔ v.NonFinite := by
  cases v with
  | decimal x => cases h : x.isFinite <;> simp [operand, Value.NonFinite, h]
  | _ => simp [operand, Value.NonFinite]

/-- Which keys are no names of fields: those with an empty part, those that read as operators, and,
in document stores, quoted keys that read as paths and have no mapped name. -/
theorem fails_field (k : Key) :
    Fails (field store config k) ↔
      "" ∈ (config.path k).segments ∨ (config.path k).dotted.toList.head? = some '$' ∨
        store = .documents ∧ config.mapped? k = none ∧ ∃ name, k = .quoted name ∧
          '.' ∈ name.toList := by
  have hparts : (config.path k).segments.any String.isEmpty = true ↔
      "" ∈ (config.path k).segments := by
    simp
  simp only [field, hparts]
  split
  · next hempty => exact iff_of_true (fails_error _) (.inl hempty)
  next hempty =>
  rw [or_iff_right hempty]
  -- the three checks of a name are made one after the other, and each is left only if it passes
  split
  · next hdollar => exact iff_of_true (fails_error _) (.inl hdollar)
  next hdollar =>
  rw [or_iff_right hdollar]
  cases store with
  | embeddings => exact iff_of_false (not_fails_ok _) (by simp)
  | documents =>
    cases hmapped : config.mapped? k with
    | some name => exact iff_of_false (not_fails_ok _) (by simp)
    | none =>
      have hpath : config.path k = .ofKey k := by rw [RenderConfig.path, hmapped]
      cases k with
      | quoted name =>
        rw [hpath]
        by_cases hdot : '.' ∈ name.toList <;> simp [FieldPath.ofKey, FieldPath.dotted, hdot]
      | _ => exact iff_of_false (not_fails_ok _) (by simp)

/-- A test has no document if its store has no such test, or its values or its key cannot be
written. -/
theorem fails_test (l : Leaf) :
    Fails (render store config l.expr) ↔ store = .embeddings ∧ l.IsMembership ∨
      (∃ v ∈ l.values, v.NonFinite) ∨ Fails (field store config l.key) := by
  refine (fails_map _ _).trans ((fails_map _ _).trans ?_)
  simp only [← fails_operand]
  cases l with
  | comparison k op v =>
    have hcomparison : ¬ (Leaf.comparison k op v).IsMembership := by simp [Leaf.IsMembership]
    rw [or_iff_right fun h => hcomparison h.2]
    simp only [Leaf.values, List.mem_singleton, exists_eq_left]
    exact fails_bind fun operand => fails_map _ (field store config k)
  | membership k negated vs =>
    have hmembership : (Leaf.membership k negated vs).IsMembership := ⟨k, negated, vs, rfl⟩
    -- embedding stores refuse the test before they look at its values
    cases store with
    | embeddings => exact iff_of_true (fails_error _) (.inl ⟨rfl, hmembership⟩)
    | documents =>
      rw [or_iff_right (by simp), Leaf.values, ← fails_mapM]
      exact fails_bind fun operands => fails_map _ (field .documents config k)

/-- What no document can express: membership tests in embedding stores, decimals that are not
finite, and keys that are no names of fields. -/
theorem fails_render (e : Expr) :
    Fails (render store config e) ↔ ∃ l ∈ e.leaves, store = .embeddings ∧ l.IsMembership ∨
      (∃ v ∈ l.values, v.NonFinite) ∨ Fails (field store config l.key) := by
  simp only [← fails_test]
  exact (FailsByTests.of_failure?_eq (failure?_render store config e)).fails_iff

/-- Of the keys that texts can spell, only quoted ones can be no names of fields. -/
theorem fails_field_of_readable {k : Key} (h : k.Readable) :
    Fails (field store .standard k) ↔ ∃ name, k = .quoted name ∧
      (name.toList.head? = some '$' ∨ store = .documents ∧ '.' ∈ name.toList) := by
  have hmapped : RenderConfig.standard.mapped? k = none := rfl
  have hpath : RenderConfig.standard.path k = .ofKey k := rfl
  rw [fails_field, hpath, hmapped]
  -- only a quoted key can have parts that are no identifiers
  by_cases hk : ∃ name, k = .quoted name
  · obtain ⟨name, rfl⟩ := hk
    have hname : "" ≠ name := Ne.symm h
    simp [FieldPath.ofKey, FieldPath.segments, FieldPath.dotted, hname]
  · have hk : ∀ name, k ≠ .quoted name := not_exists.1 hk
    have hname : ∀ name, Token.isIdentifier name = true → "" ≠ name := by
      rintro name hid rfl
      exact absurd hid (by decide)
    have hsegments : "" ∉ (FieldPath.ofKey k).segments := by
      cases k with
      | field name => simp [FieldPath.ofKey, FieldPath.segments, hname name h]
      | nested parent child =>
        simp [FieldPath.ofKey, FieldPath.segments, hname parent h.1, hname child h.2]
      | quoted name => exact absurd rfl (hk name)
    -- a dollar sign is no character of an identifier
    have hdollar : (FieldPath.ofKey k).dotted.toList.head? ≠ some '$' := by
      intro hhead
      obtain ⟨segment, hsegment, hmem⟩ :=
        (FieldPath.mem_dotted _ (by decide)).1 (List.mem_of_head? hhead)
      exact h.notMem hk (by decide) segment hsegment hmem
    simp [hsegments, hdollar, hk]

end Document

/-! ### Filters that have been read -/

/-- Rendering fails if the language of the backend fails, since printing cannot. -/
theorem fails_render_iff (backend : Backend) (config : RenderConfig) (e : Expr) :
    Fails (render backend config e) ↔ Fails (backend.spell config e) :=
  fails_mapError _ _

/-- A predicate fails if the language of path predicates does. -/
theorem fails_renderPredicate_iff (config : RenderConfig) (e : Expr) :
    Fails (renderPredicate config e) ↔ Fails (JsonPath.render config e) :=
  (fails_mapError _ _).trans (fails_map _ _)

/-- The constants of texts are finite. -/
theorem Leaf.Spellable.not_nonFinite {l : Leaf} (h : l.Spellable) :
    ¬ ∃ v ∈ l.values, v.NonFinite := by
  rintro ⟨v, hv, x, rfl, hx⟩
  have hfinite : x.isFinite = true := h.2 _ hv
  rw [hx] at hfinite
  cases hfinite

/-- Of what cannot be written, texts can only spell a NUL. -/
theorem Leaf.Spellable.unwritable_iff {l : Leaf} (h : l.Spellable) :
    l.Unwritable .standard ↔ l.HoldsNul := by
  have hpath : (RenderConfig.standard.path l.key).dotted = l.key.logicalName := by
    cases l.key <;> rfl
  have hvalues : (∃ v ∈ l.values, v.NonFinite ∨ v.HoldsNul) ↔ ∃ v ∈ l.values, v.HoldsNul :=
    exists_congr fun v => and_congr_right fun hv =>
      or_iff_right fun hx => h.not_nonFinite ⟨v, hv, hx⟩
  rw [Unwritable, HoldsNul, hpath, hvalues]

/-- Which filters that have been read can be rendered under the usual settings. The language of
filters and conditions on nodes express all of them. Path predicates cannot hold a NUL; conditions
in SQL cannot either, and all values of a list have to be of one type. In document stores quoted
keys must not read as paths or operators. In embedding stores they must not read as operators, and
there are no membership tests. -/
theorem fails_render_of_parse {text : String} {e : Expr} (h : Expr.parse text = .ok e) :
    (∃ s, render .text .standard e = .ok s) ∧
    (∃ s, render .neo4j .standard e = .ok s) ∧
    (Fails (render .pgvector .standard e) ↔ ∃ l ∈ e.leaves, l.HoldsNul) ∧
    (Fails (renderPredicate .standard e) ↔ ∃ l ∈ e.leaves, l.HoldsNul) ∧
    (Fails (render .sql .standard e) ↔ ∃ l ∈ e.leaves, l.HoldsNul ∨ l.Mixed) ∧
    (Fails (render .mongo .standard e) ↔ ∃ l ∈ e.leaves, ∃ name, l.key = .quoted name ∧
      ('.' ∈ name.toList ∨ name.toList.head? = some '$')) ∧
    (Fails (render .chroma .standard e) ↔ ∃ l ∈ e.leaves, l.IsMembership ∨
      ∃ name, l.key = .quoted name ∧ name.toList.head? = some '$') := by
  obtain ⟨hspellable, -⟩ := spellable_of_parse h
  have hreadable := readable_of_parse h
  have hpath : Fails (JsonPath.render .standard e) ↔ ∃ l ∈ e.leaves, l.HoldsNul := by
    rw [JsonPath.fails_render]
    exact exists_congr fun l => and_congr_right fun hl => (hspellable l hl).unwritable_iff
  -- each language fails on some test; what remains is which tests texts can spell
  refine ⟨?_, ?_, ?_, ?_, ?_, ?_, ?_⟩
  -- what has been read can be written back, so the language of filters does not fail
  · obtain ⟨s, -, hs, -⟩ := @render_of_parse .standard rfl _ _ h
    exact ⟨s, by rw [render, Backend.spell, hs]; rfl⟩
  · rw [← not_fails_iff, fails_render_iff, Backend.spell, Cypher.fails_render]
    rintro ⟨l, hl, hvalues⟩
    exact (hspellable l hl).not_nonFinite hvalues
  · rw [fails_render_iff]
    exact hpath
  · rw [fails_renderPredicate_iff]
    exact hpath
  · rw [fails_render_iff, Backend.spell, Sql.fails_render]
    refine exists_congr fun l => and_congr_right fun hl => ?_
    rw [(hspellable l hl).unwritable_iff, or_comm]
  -- the two stores differ by the quoted keys that they refuse and by membership tests
  · rw [fails_render_iff, Backend.spell, Document.fails_render]
    refine exists_congr fun l => and_congr_right fun hl => ?_
    rw [Document.fails_field_of_readable _ (hreadable l hl)]
    simp [(hspellable l hl).not_nonFinite, or_comm]
  · rw [fails_render_iff, Backend.spell, Document.fails_render]
    refine exists_congr fun l => and_congr_right fun hl => ?_
    rw [Document.fails_field_of_readable _ (hreadable l hl)]
    simp [(hspellable l hl).not_nonFinite]

/-- A list of two types, with a key that reads as an operator and as a path, is within the
language of filters and within path predicates only. -/
theorem fails_render_of_parse_mixed_list :
    Expr.parse "\x22$a.b\x22 in [1, 'x']" =
      .ok (.membership (.quoted "$a.b") false ⟨.integer 1, [.text "x"]⟩) ∧
    (∃ s, render .text .standard (.membership (.quoted "$a.b") false ⟨.integer 1, [.text "x"]⟩) =
      .ok s) ∧
    ¬ Fails (renderPredicate .standard
      (.membership (.quoted "$a.b") false ⟨.integer 1, [.text "x"]⟩)) ∧
    ∀ backend ∈ [Backend.sql, .mongo, .chroma], Fails (render backend .standard
      (.membership (.quoted "$a.b") false ⟨.integer 1, [.text "x"]⟩)) := by
  have hparse : Expr.parse "\x22$a.b\x22 in [1, 'x']" =
      .ok (.membership (.quoted "$a.b") false ⟨.integer 1, [.text "x"]⟩) :=
    eq_ok_of_toOption (by decide +kernel)
  obtain ⟨htext, -, -, hpredicate, hsql, hmongo, hchroma⟩ := fails_render_of_parse hparse
  refine ⟨hparse, htext, ?_, ?_⟩
  · rw [hpredicate]
    simp [Expr.leaves, Leaf.HoldsNul, Leaf.key, Leaf.values, Key.logicalName, ValueList.toList,
      Value.HoldsNul]
  -- the two values have types of their own, and the key starts with a dollar sign
  · have hmixed : (Leaf.membership (.quoted "$a.b") false ⟨.integer 1, [.text "x"]⟩).Mixed :=
      ⟨.integer 1, by decide, .text "x", by decide, id⟩
    simp only [List.mem_cons, List.not_mem_nil, or_false, forall_eq_or_imp, forall_eq]
    exact ⟨hsql.2 ⟨_, List.mem_cons_self, .inr hmixed⟩,
      hmongo.2 ⟨_, List.mem_cons_self, "$a.b", rfl, .inl (by decide)⟩,
      hchroma.2 ⟨_, List.mem_cons_self, .inl ⟨_, _, _, rfl⟩⟩⟩

end MetadataFilter
