import MetadataFilter.Render.Cypher
import MetadataFilter.Render.Document
import MetadataFilter.Render.FilterText
import MetadataFilter.Render.JsonPath

/-!
# Rendering for a backend

Main statements:

* `render_ungroupAll`  no backend sees the parentheses of the source
-/

namespace MetadataFilter

/-- A filter in the language of a backend. -/
def Backend.spell (config : RenderConfig) : Backend → Expr → Rendered String
  | .text => FilterText.render config
  | .sql => Sql.render config
  | .pgvector => JsonPath.render config
  | .neo4j => Cypher.render config
  | .mongo => Document.render .documents config
  | .chroma => Document.render .embeddings config

/-- A filter in the language of a backend, or what the backend cannot express. -/
def render (backend : Backend) (config : RenderConfig) (e : Expr) : Except RenderError String :=
  (backend.spell config e).mapError fun construct => ⟨backend, construct⟩

/-- A filter as a whole condition of SQL around a path predicate. -/
def renderPredicate (config : RenderConfig) (e : Expr) : Except RenderError String :=
  (JsonPath.predicate config e).mapError fun construct => ⟨.pgvector, construct⟩

/-- The language of a backend has no place for the parentheses of the source. -/
theorem spell_ungroupAll (backend : Backend) (config : RenderConfig) (e : Expr) :
    backend.spell config e.ungroupAll = backend.spell config e := by
  cases backend <;>
    simp only [Backend.spell, FilterText.render, Sql.render, JsonPath.render, Cypher.render,
      Dialect.render, Document.render, Document.document, Dialect.run_ungroupAll,
      Document.run_ungroupAll]

/-- No backend sees the parentheses of the source. -/
theorem render_ungroupAll (backend : Backend) (config : RenderConfig) (e : Expr) :
    render backend config e.ungroupAll = render backend config e := by
  simp only [render, spell_ungroupAll]

end MetadataFilter
