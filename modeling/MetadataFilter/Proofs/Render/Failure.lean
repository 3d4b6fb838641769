import Mathlib.Logic.Basic
import MetadataFilter.Proofs.Expr.Leaves
import MetadataFilter.Proofs.Render.Chain
import MetadataFilter.Proofs.Render.Pending

/-!
# Rendering fails where a test fails

What is written for a filter is put together from what is written for its tests, the left ones
first. So a filter can be written if each of its tests can be written on its own, and otherwise the
leftmost test that cannot be is the one that is reported, however the tests are joined.

## Key results

- `failure?_bind₂`, `fails_bind`, `fails_mapM`: failures of what is put together
- `Gathers.failure?_eq`: the failure of a filter is the first one among its tests
- `failure?_render`, `failure?_renderPredicate`: so it is in every language
- `failsByTests_render`: what can be written, and which failure is reported
-/

namespace MetadataFilter

section

variable {ε ε' α β γ : Type}

/-! ### Failures of results -/

/-- What has gone wrong, if anything has. -/
def failure? : Except ε α → Option ε
  | .ok _ => none
  | .error c => some c

/-- Whether something has gone wrong. -/
def Fails (x : Except ε α) : Prop := ∃ c, x = .error c

/-- The failure that is named is the one that has happened. -/
theorem failure?_eq_some_iff {x : Except ε α} {c : ε} : failure? x = some c ↔ x = .error c := by
  cases x <;> simp [failure?]

/-- Without a failure there is a result. -/
theorem failure?_eq_none_iff {x : Except ε α} : failure? x = none ↔ ∃ a, x = .ok a := by
  cases x <;> simp [failure?]

/-- Something has gone wrong if a failure can be named. -/
theorem fails_iff_isSome {x : Except ε α} : Fails x ↔ (failure? x).isSome := by
  cases x <;> simp [failure?, Fails]

/-- What has not gone wrong has a result. -/
theorem not_fails_iff {x : Except ε α} : ¬ Fails x ↔ ∃ a, x = .ok a := by
  cases x <;> simp [Fails]

/-- An error is a failure. -/
@[simp] theorem fails_error (c : ε) : Fails (.error c : Except ε α) := ⟨c, rfl⟩

/-- A result is no failure. -/
@[simp] theorem not_fails_ok (a : α) : ¬ Fails (.ok a : Except ε α) := nofun

/-- What is done with a result afterwards cannot fail. -/
theorem failure?_map (f : α → β) (x : Except ε α) :
    failure? (do return f (← x)) = failure? x := by
  cases x <;> rfl

/-- A failure told in other words is the same failure told in those words. -/
theorem failure?_mapError (f : ε → ε') (x : Except ε α) :
    failure? (x.mapError f) = (failure? x).map f := by
  cases x <;> rfl

/-- Results stay as they are when failures are told in other words. -/
theorem mapError_eq_ok_iff (f : ε → ε') {x : Except ε α} {a : α} :
    x.mapError f = .ok a ↔ x = .ok a := by
  cases x with
  | error c => exact iff_of_false nofun nofun
  | ok b =>
    constructor
    all_goals
      rintro ⟨⟩
      rfl

/-- Of two results that are both needed the first is asked for first. -/
theorem failure?_bind₂ (f : α → β → γ) (x : Except ε α) (y : Except ε β) :
    failure? (do return f (← x) (← y)) = (failure? x).or (failure? y) := by
  cases x with
  | error c => rfl
  | ok a => cases y <;> rfl

/-- Whether the rest goes wrong often does not depend on the result that it starts from. -/
theorem fails_bind {x : Except ε α} {f : α → Except ε β} {P : Prop} (hf : ∀ a, Fails (f a) ↔ P) :
    Fails (x >>= f) ↔ Fails x ∨ P := by
  cases x with
  | error c => exact iff_of_true (fails_error c) (.inl (fails_error c))
  | ok a => exact (hf a).trans (or_iff_right (not_fails_ok a)).symm

/-- Telling a failure in other words neither adds one nor takes it away. -/
theorem fails_mapError (f : ε → ε') (x : Except ε α) : Fails (x.mapError f) ↔ Fails x := by
  rw [fails_iff_isSome, failure?_mapError, Option.isSome_map, fails_iff_isSome]

/-- What is done with a result afterwards does not decide whether there is one. -/
theorem fails_map (f : α → β) (x : Except ε α) : Fails (do return f (← x)) ↔ Fails x := by
  rw [fails_iff_isSome, failure?_map, fails_iff_isSome]

/-- A list fails if one of its elements does. -/
theorem fails_mapM {f : α → Except ε β} {xs : List α} :
    Fails (xs.mapM f) ↔ ∃ x ∈ xs, Fails (f x) := by
  induction xs with
  | nil => exact iff_of_false (not_fails_ok []) (by simp)
  | cons x xs ih =>
    rw [List.mapM_cons, fails_bind fun y => (fails_map (y :: ·) (xs.mapM f)).trans ih]
    simp only [List.mem_cons, exists_eq_or_imp]

end

/-! ### Filters and their tests -/

/-- A filter is written if each of its tests can be written on its own. Otherwise the first of them
that cannot be says what goes wrong. -/
structure FailsByTests {ε α : Type} (write : Expr → Except ε α) (e : Expr) : Prop where
  ok_iff : (∃ s, write e = .ok s) ↔ ∀ l ∈ e.leaves, ∃ s, write l.expr = .ok s
  error_iff : ∀ c, write e = .error c ↔ ∃ before l after, e.leaves = before ++ l :: after ∧
    (∀ m ∈ before, ∃ s, write m.expr = .ok s) ∧ write l.expr = .error c

/-- That the first failing test decides is all that has to be shown. -/
theorem FailsByTests.of_failure?_eq {ε α : Type} {write : Expr → Except ε α} {e : Expr}
    (h : failure? (write e) = e.leaves.findSome? fun l => failure? (write l.expr)) :
    FailsByTests write e where
  ok_iff := by
    simp only [← failure?_eq_none_iff, h, List.findSome?_eq_none_iff]
  error_iff := by
    intro c
    simp only [← failure?_eq_none_iff, ← failure?_eq_some_iff, h, List.findSome?_eq_some_iff]
    refine exists_congr fun before => exists_congr fun l => exists_congr fun after => ?_
    rw [and_comm (a := failure? (write l.expr) = some c)]

/-- A filter fails if one of its tests fails on its own. -/
theorem FailsByTests.fails_iff {ε α : Type} {write : Expr → Except ε α} {e : Expr}
    (h : FailsByTests write e) : Fails (write e) ↔ ∃ l ∈ e.leaves, Fails (write l.expr) := by
  rw [← not_iff_not, not_fails_iff, h.ok_iff]
  simp only [not_exists, not_and, not_fails_iff]

/-- A way of writing filters that puts together what it has written for the two sides, the left one
first, and does not see parentheses. -/
structure Gathers {ε α : Type} (write : Expr → Except ε α) : Prop where
  join : ∀ c left right, ∃ f : α → α → α,
    write (.join c left right) = do return f (← write left) (← write right)
  group : ∀ inner, write (.group inner) = write inner

/-- The failure of a filter is the first one among its tests. -/
theorem Gathers.failure?_eq {ε α : Type} {write : Expr → Except ε α} (h : Gathers write)
    (e : Expr) : failure? (write e) = e.leaves.findSome? fun l => failure? (write l.expr) := by
  induction e with
  | comparison k op v => exact List.findSome?_singleton.symm
  | membership k negated vs => exact List.findSome?_singleton.symm
  | join c left right hl hr =>
    obtain ⟨f, hf⟩ := h.join c left right
    rw [hf, failure?_bind₂, hl, hr, Expr.leaves, List.findSome?_append]
  | group inner ih => rw [h.group, ih, Expr.leaves]

/-! ### Languages -/

/-- The languages with infix connectives put together what they have written. -/
theorem Dialect.gathers_run (d : Dialect) : Gathers d.run where
  join c _ _ := ⟨Run.join d c, rfl⟩
  group _ := rfl

/-- In a language with infix connectives the first failing test decides. -/
theorem Dialect.failure?_render (d : Dialect) (e : Expr) :
    failure? (d.render e) = e.leaves.findSome? fun l => failure? (d.render l.expr) := by
  simp only [render, failure?_map]
  exact d.gathers_run.failure?_eq e

/-- Documents are put together from the operands of both sides. -/
theorem Document.gathers_run (store : Store) (config : RenderConfig) :
    Gathers (run store config) where
  join c _ _ := ⟨fun left right => ⟨some c, left.operandsFor c ++ right.operandsFor c⟩, rfl⟩
  group _ := rfl

/-- Of a document the first failing test decides. -/
theorem Document.failure?_document (store : Store) (config : RenderConfig) (e : Expr) :
    failure? (document store config e) =
      e.leaves.findSome? fun l => failure? (document store config l.expr) := by
  simp only [document, failure?_map]
  exact (gathers_run store config).failure?_eq e

/-- Of a printed document the first failing test decides, since printing does not fail. -/
theorem Document.failure?_render (store : Store) (config : RenderConfig) (e : Expr) :
    failure? (render store config e) =
      e.leaves.findSome? fun l => failure? (render store config l.expr) := by
  simp only [render, failure?_map]
  exact failure?_document store config e

/-- In the language of any backend the first failing test decides. -/
theorem failure?_spell (backend : Backend) (config : RenderConfig) (e : Expr) :
    failure? (backend.spell config e) =
      e.leaves.findSome? fun l => failure? (backend.spell config l.expr) := by
  cases backend with
  | text | sql | pgvector | neo4j => exact Dialect.failure?_render _ e
  | mongo | chroma => exact Document.failure?_render _ config e

/-- For any backend the first failing test decides, also when its failure is told with the name
of the backend. -/
theorem failure?_render (backend : Backend) (config : RenderConfig) (e : Expr) :
    failure? (render backend config e) =
      e.leaves.findSome? fun l => failure? (render backend config l.expr) := by
  simp only [render, failure?_mapError]
  rw [failure?_spell, List.map_findSome?]
  rfl

/-- A backend writes what its language writes. -/
theorem render_eq_ok_iff {backend : Backend} {config : RenderConfig} {e : Expr} {s : String} :
    render backend config e = .ok s ↔ backend.spell config e = .ok s :=
  mapError_eq_ok_iff _

/-- A predicate is what the language of path predicates writes. -/
theorem renderPredicate_eq_ok_iff {config : RenderConfig} {e : Expr} {s : String} :
    renderPredicate config e = .ok s ↔ JsonPath.predicate config e = .ok s :=
  mapError_eq_ok_iff _

/-- Of a predicate the first failing test decides. -/
theorem failure?_renderPredicate (config : RenderConfig) (e : Expr) :
    failure? (renderPredicate config e) =
      e.leaves.findSome? fun l => failure? (renderPredicate config l.expr) := by
  simp only [renderPredicate, JsonPath.predicate, failure?_mapError, failure?_map]
  rw [JsonPath.render, Dialect.failure?_render, List.map_findSome?]
  rfl

/-- Rendering for any backend fails by tests. -/
theorem failsByTests_backend (backend : Backend) (config : RenderConfig) (e : Expr) :
    FailsByTests (render backend config) e :=
  .of_failure?_eq (failure?_render backend config e)

/-- Every writer that follows the chains of a language fails by tests. -/
theorem Dialect.failsByTests_of_followsChains {d : Dialect} {write : Expr → Rendered String}
    (h : d.FollowsChains write) (e : Expr) : FailsByTests write e := by
  have hwrite : write = d.render := by
    funext e
    rw [eq_plain_of_followsChains h, render_eq_plain]
  subst hwrite
  exact .of_failure?_eq (d.failure?_render e)

/-- Every writer with a stack of pending operands fails by tests. -/
theorem Document.failsByTests_of_followsStack {store : Store} {config : RenderConfig}
    {write : Expr → Rendered Json} (h : FollowsStack store config write) (e : Expr) :
    FailsByTests write e := by
  have hwrite : write = document store config := funext (eq_document_of_followsStack h)
  subst hwrite
  exact .of_failure?_eq (failure?_document store config e)

/-- A filter can be rendered, for a backend or as a whole condition of SQL, if and only if each of
its tests can be on its own; otherwise the leftmost test that cannot be gives the failure. So it is
for every way of writing that takes runs apart before it writes them, the operands of a language
with infix operators gathered on the way down and those of a document found with a stack. -/
theorem failsByTests_render (config : RenderConfig) (e : Expr) :
    (∀ backend, FailsByTests (render backend config) e) ∧
      FailsByTests (renderPredicate config) e ∧
      (∀ d : Dialect, ∀ write, d.FollowsChains write → FailsByTests write e) ∧
      ∀ store write, Document.FollowsStack store config write → FailsByTests write e := by
  refine ⟨fun backend => ?_, ?_, ?_, ?_⟩
  · exact failsByTests_backend backend config e
  · exact .of_failure?_eq (failure?_renderPredicate config e)
  · exact fun d write h => Dialect.failsByTests_of_followsChains h e
  · exact fun store write h => Document.failsByTests_of_followsStack h e

/-- The right side of a run goes on with it and holds a number that is not finite; the membership
test in front of it is the one that an embedding store reports. -/
theorem failsByTests_render_run :
    Document.document .embeddings .standard
        (.join .and (.comparison (.field "a") .equal (.boolean true))
          (.group (.join .and (.membership (.field "b") true ⟨.integer 1, []⟩)
            (.comparison (.field "c") .equal (.decimal .notANumber))))) =
      .error (.membership true) := by
  have hstack := (failsByTests_render .standard
    (.join .and (.comparison (.field "a") .equal (.boolean true))
      (.group (.join .and (.membership (.field "b") true ⟨.integer 1, []⟩)
        (.comparison (.field "c") .equal (.decimal .notANumber)))))).2.2.2
  refine ((hstack .embeddings _ Document.followsStack_document).error_iff _).2 ?_
  -- only the first of the tests that cannot be written is reported
  refine ⟨[.comparison (.field "a") .equal (.boolean true)],
    .membership (.field "b") true ⟨.integer 1, []⟩, _, rfl, ?_, rfl⟩
  intro l hl
  rw [List.mem_singleton.1 hl]
  exact ⟨_, rfl⟩

end MetadataFilter
