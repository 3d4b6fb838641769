import MetadataFilter.Proofs.Expr.Keys
import MetadataFilter.Render

/-!
# What makes no difference to an output

A backend looks at the keys of a filter in its tests only, and there only at what the settings make
of them. So the names that a field map gives can as well be put into the filter beforehand. No
backend looks at parentheses at all.

## Key results

- `Dialect.run_mapKeys`, `Document.run_mapKeys`: keys that tests do not tell apart
- `path_rename`, `key_rename`, `field_rename`: a mapped key is the field of its mapped name
- `render_eq_unmapped`: a field map renames keys and does nothing else
- `render_eq_of_ungroupAll_eq`: parentheses make no difference
-/

namespace MetadataFilter

/-! ### Keys in tests -/

namespace Dialect

variable {d d' : Dialect} {f : Key → Key}

/-- Two dialects that write the same for tests with keys in the place of others write the same for
whole filters. -/
theorem run_mapKeys (hcomparison : ∀ k op v, d'.comparison (f k) op v = d.comparison k op v)
    (hmembership : ∀ k negated vs, d'.membership (f k) negated vs = d.membership k negated vs)
    (hword : d'.word = d.word) (e : Expr) : d'.run (e.mapKeys f) = d.run e := by
  induction e with
  | comparison k op v => rw [Expr.mapKeys, run, run, hcomparison]
  | membership k negated vs => rw [Expr.mapKeys, run, run, hmembership]
  | join c left right hl hr =>
    have hjoin : Run.join d' c = Run.join d c := by
      funext l r
      simp only [Run.join, Run.text, hword]
    rw [Expr.mapKeys, run, run, hl, hr, hjoin]
  | group inner ih => exact ih

/-- Two dialects that write the same tests render the same filters. -/
theorem render_mapKeys (hcomparison : ∀ k op v, d'.comparison (f k) op v = d.comparison k op v)
    (hmembership : ∀ k negated vs, d'.membership (f k) negated vs = d.membership k negated vs)
    (hword : d'.word = d.word) (e : Expr) : d'.render (e.mapKeys f) = d.render e := by
  have htext : Run.text d' = Run.text d := by
    funext r
    simp only [Run.text, hword]
  rw [render, render, run_mapKeys hcomparison hmembership hword, htext]

end Dialect

/-- Documents know a key only by the name of its field. -/
theorem Document.run_mapKeys {store : Store} {config config' : RenderConfig} {f : Key → Key}
    (hfield : ∀ k, field store config' (f k) = field store config k) (e : Expr) :
    run store config' (e.mapKeys f) = run store config e := by
  induction e with
  | comparison k op v => rw [Expr.mapKeys, run, run, hfield]
  | membership k negated vs => rw [Expr.mapKeys, run, run, hfield]
  | join c left right hl hr => rw [Expr.mapKeys, run, run, hl, hr]
  | group inner ih => exact ih

/-! ### Mapped names -/

namespace RenderConfig

/-- The settings without mapped names. -/
def unmapped (config : RenderConfig) : RenderConfig := { config with fieldMap := .empty }

/-- A key under its mapped name: the field of that name, which is not looked up again. -/
def rename (config : RenderConfig) (k : Key) : Key :=
  match config.mapped? k with
  | some name => .field name
  | none => k

variable (config : RenderConfig) (k : Key)

/-- Without a field map no key has a mapped name. -/
@[simp] theorem mapped?_unmapped : config.unmapped.mapped? k = none := rfl

/-- A key under its mapped name leads to the path of the key. -/
theorem path_rename : config.unmapped.path (config.rename k) = config.path k := by
  simp only [path, mapped?_unmapped, rename]
  cases config.mapped? k <;> rfl

end RenderConfig

section

variable (config : RenderConfig)

namespace FilterText

/-- A key is spelled like the key under its mapped name. -/
theorem key_rename (k : Key) : key config.unmapped (config.rename k) = key config k := by
  simp only [key, RenderConfig.mapped?_unmapped, RenderConfig.rename]
  cases config.mapped? k <;> rfl

/-- The language of filters writes mapped names as if they stood in the filter. -/
theorem render_rename (e : Expr) :
    render config.unmapped (e.mapKeys config.rename) = render config e := by
  rw [render, render]
  refine Dialect.render_mapKeys ?_ ?_ ?_ e
  · intro k op v
    simp only [dialect, key_rename]
  · intro k negated vs
    simp only [dialect, key_rename]
  · rfl

end FilterText

namespace Sql

/-- A field in SQL is that of the key under its mapped name. -/
theorem field_rename (k : Key) (cast : Cast) :
    field config.unmapped (config.rename k) cast = field config k cast := by
  rw [field, field, RenderConfig.path_rename]
  rfl

/-- Conditions in SQL have mapped names as if they stood in the filter. -/
theorem render_rename (e : Expr) :
    render config.unmapped (e.mapKeys config.rename) = render config e := by
  rw [render, render]
  refine Dialect.render_mapKeys ?_ ?_ ?_ e
  · intro k op v
    simp only [dialect, field_rename]
  · intro k negated vs
    simp only [dialect, field_rename]
  · rfl

end Sql

namespace JsonPath

/-- A path is that of the key under its mapped name. -/
theorem path_rename (k : Key) : path config.unmapped (config.rename k) = path config k := by
  rw [path, path, RenderConfig.path_rename]

/-- Path predicates have mapped names as if they stood in the filter. -/
theorem render_rename (e : Expr) :
    render config.unmapped (e.mapKeys config.rename) = render config e := by
  rw [render, render]
  refine Dialect.render_mapKeys ?_ ?_ ?_ e
  · intro k op v
    simp only [dialect, path_rename]
  · intro k negated vs
    simp only [dialect, path_rename]
  · rfl

end JsonPath

namespace Cypher

/-- A property is that of the key under its mapped name. -/
theorem property_rename (k : Key) :
    property config.unmapped (config.rename k) = property config k := by
  rw [property, property, RenderConfig.path_rename]
  rfl

/-- Conditions on nodes have mapped names as if they stood in the filter. -/
theorem render_rename (e : Expr) :
    render config.unmapped (e.mapKeys config.rename) = render config e := by
  rw [render, render]
  refine Dialect.render_mapKeys ?_ ?_ ?_ e
  · intro k op v
    simp only [dialect, property_rename]
  · intro k negated vs
    simp only [dialect, property_rename]
  · rfl

end Cypher

namespace Document

/-- A field of a document is that of the key under its mapped name, as a mapped name is never
looked through for dots. -/
theorem field_rename (store : Store) (k : Key) :
    field store config.unmapped (config.rename k) = field store config k := by
  have hpath := config.path_rename k
  simp only [field, hpath, RenderConfig.mapped?_unmapped]
  -- only a quoted key that stands for itself is looked through for dots, and it stays one
  unfold RenderConfig.rename
  cases config.mapped? k with
  | none => rfl
  | some name => cases store <;> rfl

/-- Documents have mapped names as if they stood in the filter. -/
theorem render_rename (store : Store) (e : Expr) :
    render store config.unmapped (e.mapKeys config.rename) = render store config e := by
  rw [render, render, document, document, run_mapKeys (field_rename config store)]

end Document

end

/-! ### Filters with mapped names -/

/-- The language of every backend writes mapped names as if they stood in the filter. -/
theorem spell_rename (backend : Backend) (config : RenderConfig) (e : Expr) :
    backend.spell config.unmapped (e.mapKeys config.rename) = backend.spell config e := by
  cases backend with
  | text => exact FilterText.render_rename config e
  | sql => exact Sql.render_rename config e
  | pgvector => exact JsonPath.render_rename config e
  | neo4j => exact Cypher.render_rename config e
  | mongo => exact Document.render_rename config .documents e
  | chroma => exact Document.render_rename config .embeddings e

/-- Rendering with a field map gives what rendering without it gives for the filter whose mapped
keys have been replaced by the fields of their mapped names, be it an output or a failure. -/
theorem render_eq_unmapped (config : RenderConfig) (e : Expr) :
    (∀ backend, render backend config e =
      render backend config.unmapped (e.mapKeys config.rename)) ∧
    renderPredicate config e = renderPredicate config.unmapped (e.mapKeys config.rename) := by
  constructor
  · intro backend
    rw [render, render, spell_rename]
  · rw [renderPredicate, renderPredicate, JsonPath.predicate, JsonPath.predicate,
      JsonPath.render_rename]
    rfl

/-- A mapped name is not looked up in turn. -/
example : render .sql ⟨(FieldMap.empty.insert "a" "b").insert "b" "c", "m", "n"⟩
    (.comparison (.field "a") .equal (.text "x")) = .ok "m->>'b' = 'x'" := by
  cbv

/-! ### Parentheses -/

/-- A predicate does not show the parentheses of its filter. -/
theorem renderPredicate_ungroupAll (config : RenderConfig) (e : Expr) :
    renderPredicate config e.ungroupAll = renderPredicate config e := by
  have hpath : JsonPath.render config e.ungroupAll = JsonPath.render config e :=
    spell_ungroupAll .pgvector config e
  simp only [renderPredicate, JsonPath.predicate, hpath]

/-- Filters that differ only in parentheses have the same output, or the same failure, with every
backend. -/
theorem render_eq_of_ungroupAll_eq {e e' : Expr} (h : e.ungroupAll = e'.ungroupAll)
    (config : RenderConfig) :
    (∀ backend, render backend config e = render backend config e') ∧
      renderPredicate config e = renderPredicate config e' := by
  constructor
  · intro backend
    rw [← render_ungroupAll backend config e, h, render_ungroupAll]
  · rw [← renderPredicate_ungroupAll config e, h, renderPredicate_ungroupAll]

/-- Parentheses around a test, around a run and around parentheses are written by no backend. -/
theorem render_eq_of_ungroupAll_eq_nested :
    (Expr.join .and (.group (.comparison (.field "a") .equal (.integer 1)))
        (.group (.group (.join .or (.comparison (.field "b") .less (.integer 2))
          (.group (.membership (.field "c") true ⟨.integer 3, []⟩)))))).ungroupAll =
      (Expr.join .and (.comparison (.field "a") .equal (.integer 1))
        (.join .or (.comparison (.field "b") .less (.integer 2))
          (.membership (.field "c") true ⟨.integer 3, []⟩))).ungroupAll ∧
    ∀ backend,
      render backend .standard
          (.join .and (.group (.comparison (.field "a") .equal (.integer 1)))
            (.group (.group (.join .or (.comparison (.field "b") .less (.integer 2))
              (.group (.membership (.field "c") true ⟨.integer 3, []⟩)))))) =
        render backend .standard
          (.join .and (.comparison (.field "a") .equal (.integer 1))
            (.join .or (.comparison (.field "b") .less (.integer 2))
              (.membership (.field "c") true ⟨.integer 3, []⟩))) :=
  ⟨rfl, (render_eq_of_ungroupAll_eq (by rfl) .standard).1⟩

end MetadataFilter
