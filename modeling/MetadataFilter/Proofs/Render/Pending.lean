import MetadataFilter.Proofs.Render.Verbatim
import MetadataFilter.Render.Document

/-!
# Runs as documents, with a stack of parts that are still to come

The operands of a run can be found in one loop over a stack. The part on top is taken off and looked
at without the parentheses around it: a side of the same connective puts its own two sides back, the
left one on top, and anything else is written and becomes the next operand. No recursion goes down
the run, so its length does not matter. The loop finds what recursion along the tree finds, in the
order of the filter, and stops at the same test if one cannot be written.

## Key results

- `collect_document`: one part of a run adds to the operands what recursion along the tree adds
- `followsStack_document`: documents are what the loop gives
- `eq_document_of_followsStack`: every way of writing that follows the loop gives them
-/

namespace MetadataFilter

/-- Taking parentheses off leaves no larger tree. -/
theorem Expr.sizeOf_ungrouped_le (e : Expr) : sizeOf e.ungrouped ≤ sizeOf e := by
  induction e with
  | group inner ih =>
    rw [ungrouped, group.sizeOf_spec]
    omega
  | _ => exact Nat.le_refl _

namespace Document

/-- The operands of a run of the connective `c`, after those that have been found: the parts that
are still to come are on a stack, the next one on top. -/
def collect (write : Expr → Rendered Json) (c : Connective) (operands : List Json) :
    List Expr → Rendered (List Json)
  | [] => .ok operands
  | next :: pending =>
    match _h : next.ungrouped with
    | .join d left right =>
      if d = c then collect write c operands (left :: right :: pending)
      else do
        let operand ← write (.join d left right)
        collect write c (operands ++ [operand]) pending
    | other => do
      let operand ← write other
      collect write c (operands ++ [operand]) pending
termination_by stack => stack
decreasing_by
  · -- two sides take the place of one part, and the node that joins them pays for both
    have hle := next.sizeOf_ungrouped_le
    have hnode : 0 < sizeOf d := by cases d <;> decide
    simp only [_h, Expr.join.sizeOf_spec, List.cons.sizeOf_spec] at hle ⊢
    omega
  all_goals
    rw [List.cons.sizeOf_spec]
    omega

/-- A way of writing documents that finds the operands of every run with a stack. -/
structure FollowsStack (store : Store) (config : RenderConfig) (write : Expr → Rendered Json) :
    Prop where
  comparison : ∀ k op v, write (.comparison k op v) = document store config (.comparison k op v)
  membership : ∀ k negated vs,
    write (.membership k negated vs) = document store config (.membership k negated vs)
  join : ∀ c left right, write (.join c left right) = do
    return .object [(connectiveName c, .array (← collect write c [] [.join c left right]))]
  group : ∀ inner, write (.group inner) = write inner

variable {store : Store} {config : RenderConfig} {write : Expr → Rendered Json} {c : Connective}

/-! ### Steps of the loop -/

/-- Parentheses around a part are looked through. -/
theorem collect_group (operands : List Json) (inner : Expr) (pending : List Expr) :
    collect write c operands (.group inner :: pending) =
      collect write c operands (inner :: pending) := by
  rw [collect, collect]
  rfl

/-- A part that goes on with the run puts its two sides on the stack, the left one on top. -/
theorem collect_join_self (operands : List Json) (left right : Expr) (pending : List Expr) :
    collect write c operands (.join c left right :: pending) =
      collect write c operands (left :: right :: pending) := by
  rw [collect]
  simp only [Expr.ungrouped, if_true]

/-- A part that does not go on with the run is its next operand. -/
theorem collect_operand {e : Expr} (hungrouped : e.ungrouped = e) (hother : e.connective? ≠ some c)
    (operands : List Json) (pending : List Expr) :
    collect write c operands (e :: pending) =
      write e >>= fun operand => collect write c (operands ++ [operand]) pending := by
  rw [collect]
  split
  · next d left right h =>
    rw [hungrouped] at h
    subst h
    rw [if_neg fun hd => hother (congrArg some hd)]
  · rw [hungrouped]

/-! ### Runs of the tree -/

/-- The run of a comparison has one operand, and its key and its value have been written. -/
theorem run_comparison_eq_ok {k : Key} {op : CompareOp} {v : Value} {r : Run}
    (h : run store config (.comparison k op v) = .ok r) :
    ∃ name j, field store config k = .ok name ∧ operand v = .ok j ∧
      r = ⟨none, [condition name (operator op) j]⟩ := by
  obtain ⟨j, hj, h⟩ := Rendered.bind_eq_ok h
  obtain ⟨name, hname, h⟩ := Rendered.bind_eq_ok h
  cases h
  exact ⟨name, j, hname, hj, rfl⟩

/-- The run of a membership test has one operand, and its key and its values have been written. -/
theorem run_membership_eq_ok {k : Key} {negated : Bool} {vs : ValueList} {r : Run}
    (h : run store config (.membership k negated vs) = .ok r) :
    ∃ name js, field store config k = .ok name ∧ vs.toList.mapM operand = .ok js ∧
      r = ⟨none, [condition name (if negated then "$nin" else "$in") (.array js)]⟩ := by
  rw [run] at h
  split at h
  · cases h
  · obtain ⟨js, hjs, h⟩ := Rendered.bind_eq_ok h
    obtain ⟨name, hname, h⟩ := Rendered.bind_eq_ok h
    cases h
    exact ⟨name, js, hname, hjs, rfl⟩

/-- The run of a join has the operands of both sides, which have been built. -/
theorem run_join_eq_ok {c : Connective} {left right : Expr} {r : Run}
    (h : run store config (.join c left right) = .ok r) :
    ∃ rl rr, run store config left = .ok rl ∧ run store config right = .ok rr ∧
      r = ⟨some c, rl.operandsFor c ++ rr.operandsFor c⟩ := by
  obtain ⟨rl, hrl, h⟩ := Rendered.bind_eq_ok h
  obtain ⟨rr, hrr, h⟩ := Rendered.bind_eq_ok h
  cases h
  exact ⟨rl, rr, hrl, hrr, rfl⟩

/-- A run has the connective of its expression, looking through parentheses. -/
theorem connective_of_run {e : Expr} {r : Run} (h : run store config e = .ok r) :
    r.connective = e.connective? := by
  induction e generalizing r with
  | comparison k op v =>
    obtain ⟨name, j, -, -, rfl⟩ := run_comparison_eq_ok h
    rfl
  | membership k negated vs =>
    obtain ⟨name, js, -, -, rfl⟩ := run_membership_eq_ok h
    rfl
  | join c left right _ _ =>
    obtain ⟨rl, rr, -, -, rfl⟩ := run_join_eq_ok h
    rfl
  | group inner ih => exact ih h

/-! ### The loop and recursion along the tree -/

/-- A part that does not go on with the run adds its own document. -/
theorem collect_document_operand {e : Expr} (hungrouped : e.ungrouped = e)
    (hother : e.connective? ≠ some c) (operands : List Json) (pending : List Expr) :
    collect (document store config) c operands (e :: pending) =
      run store config e >>= fun r =>
        collect (document store config) c (operands ++ r.operandsFor c) pending := by
  rw [collect_operand hungrouped hother, document, bind_assoc]
  cases hr : run store config e with
  | error construct => rfl
  | ok r =>
    have hdocument : r.operandsFor c = [r.document] :=
      if_neg fun hc => hother (connective_of_run hr ▸ hc)
    show collect _ c (operands ++ [r.document]) pending = collect _ c (operands ++ _) pending
    rw [hdocument]

/-- A part of a run adds to the operands what recursion along the tree adds, the operands of a part
that goes on with the run or one document. -/
theorem collect_document (e : Expr) (operands : List Json) (pending : List Expr) :
    collect (document store config) c operands (e :: pending) =
      run store config e >>= fun r =>
        collect (document store config) c (operands ++ r.operandsFor c) pending := by
  induction e generalizing operands pending with
  -- a test is an operand of every run that it stands in
  | comparison | membership => exact collect_document_operand rfl (by nofun) operands pending
  | join d left right hl hr =>
    by_cases hd : d = c
    · subst hd
      rw [collect_join_self, hl]
      -- the left side has been found before the right one is taken off the stack
      simp only [hr, run, bind_assoc]
      refine bind_congr fun rl => bind_congr fun rr => ?_
      have hrun : Run.operandsFor d ⟨some d, rl.operandsFor d ++ rr.operandsFor d⟩ =
          rl.operandsFor d ++ rr.operandsFor d := if_pos rfl
      rw [pure_bind, hrun, List.append_assoc]
    -- a join of the other connective is one operand, with a document of its own
    · have hother : (Expr.join d left right).connective? ≠ some c := mt Option.some.inj hd
      exact collect_document_operand rfl hother operands pending
  | group inner ih => rw [collect_group, ih, run_group]

/-- Documents are what the loop gives. -/
theorem followsStack_document : FollowsStack store config (document store config) where
  comparison _ _ _ := rfl
  membership _ _ _ := rfl
  join c left right := by
    rw [collect_document, document]
    cases hr : run store config (.join c left right) with
    | error => rfl
    -- the stack holds the whole join at first, and is empty when its operands have been found
    | ok r =>
      have hc : r.connective = some c := connective_of_run hr
      show Except.ok r.document =
        collect (document store config) c ([] ++ r.operandsFor c) [] >>= _
      rw [collect, Run.document, Run.operandsFor, if_pos hc, hc]
      rfl
  group _ := rfl

/-- Two ways of writing that agree on one operand agree on the loop from there, if they agree on what
is still to come. -/
theorem collect_operand_congr {write' : Expr → Rendered Json} {e : Expr} {pending : List Expr}
    (hungrouped : e.ungrouped = e) (hother : e.connective? ≠ some c) (hwrite : write e = write' e)
    (hpending : ∀ operands, collect write c operands pending = collect write' c operands pending)
    (operands : List Json) :
    collect write c operands (e :: pending) = collect write' c operands (e :: pending) := by
  rw [collect_operand hungrouped hother, collect_operand hungrouped hother, hwrite]
  exact bind_congr fun operand => hpending _

/-- A way of writing that follows the loop writes the document of every filter, or fails as the
document does. -/
theorem eq_document_of_followsStack (h : FollowsStack store config write) (e : Expr) :
    write e = document store config e := by
  -- the loop meets a side of a run on the stack, so the statement on stacks is carried along
  suffices hall : write e = document store config e ∧ ∀ c pending,
      (∀ operands, collect write c operands pending =
        collect (document store config) c operands pending) →
      ∀ operands, collect write c operands (e :: pending) =
        collect (document store config) c operands (e :: pending) from hall.1
  induction e with
  | comparison k op v =>
    have hwrite := h.comparison k op v
    exact ⟨hwrite, fun c pending => collect_operand_congr rfl (by nofun) hwrite⟩
  | membership k negated vs =>
    have hwrite := h.membership k negated vs
    exact ⟨hwrite, fun c pending => collect_operand_congr rfl (by nofun) hwrite⟩
  | join d left right hl hr =>
    -- the loop takes both sides off the stack, the right one with what was below
    have hself : ∀ pending, (∀ operands, collect write d operands pending =
          collect (document store config) d operands pending) →
        ∀ operands, collect write d operands (.join d left right :: pending) =
          collect (document store config) d operands (.join d left right :: pending) := by
      intro pending hpending operands
      rw [collect_join_self, collect_join_self]
      exact hl.2 d _ (hr.2 d _ hpending) operands
    have hwrite : write (.join d left right) = document store config (.join d left right) := by
      rw [h.join, followsStack_document.join, hself [] (fun operands => by rw [collect, collect])]
    refine ⟨hwrite, fun c pending hpending => ?_⟩
    by_cases hd : d = c
    · subst hd
      exact hself pending hpending
    · have hother : (Expr.join d left right).connective? ≠ some c := mt Option.some.inj hd
      exact collect_operand_congr rfl hother hwrite hpending
  | group inner ih =>
    refine ⟨(h.group inner).trans ih.1, fun c pending hpending operands => ?_⟩
    rw [collect_group, collect_group]
    exact ih.2 c pending hpending operands

end Document

end MetadataFilter
