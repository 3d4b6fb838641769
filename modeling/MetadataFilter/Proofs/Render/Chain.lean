import MetadataFilter.Proofs.Render.Verbatim
import MetadataFilter.Render

/-!
# Long runs are written as by plain recursion

A run of one connective can be written in one pass: go down on its left side, through any
parentheses, gather the right operands on the way, and write all operands from the first to the
last. This gives what recursion along the tree gives, which writes the two sides of each connective
and puts a side in parentheses if it binds too loosely.

## Key results

- `render_eq_plain`: a dialect writes what recursion along the tree writes
- `chain_gather`: gathering the operands of a run first makes no difference
- `eq_plain_of_followsChains`: nor does it at any depth of a tree
- `infix_render_eq_plain`: the four languages with infix operators
-/

namespace MetadataFilter

/-- How tightly an expression is bound, looking through its parentheses; a test is one piece. -/
def Expr.precedence (e : Expr) : Nat :=
  match e.connective? with
  | some c => c.precedence
  | none => 3

/-- Regrouping binds a tree as tightly as it is without the parentheses of the source. -/
theorem Expr.binding_regroup (e : Expr) : e.regroup.binding = e.precedence := by
  induction e with
  | group inner ih => exact ih
  | _ => rfl

namespace Dialect

/-- The text of an expression by recursion along the tree, without the parentheses of the source: a
side of a connective is in parentheses if it binds less tightly, on the right also if it binds as
tightly. -/
def plain (d : Dialect) : Expr → Rendered String
  | .comparison key op value => d.comparison key op value
  | .membership key negated values => d.membership key negated values
  | .join c left right => do
    let leftText ← d.plain left
    let rightText ← d.plain right
    return wrap (left.precedence < c.precedence) leftText ++ (" " ++ d.word c ++ " ") ++
      wrap (right.precedence ≤ c.precedence) rightText
  | .group inner => d.plain inner

/-- Goes down the left side of a run, through any parentheses, and gathers its right operands in
front of those that have been found above. -/
def gather (c : Connective) : Expr → List Expr → Expr × List Expr
  | .join d left right, rights =>
    if d = c then gather c left (right :: rights) else (.join d left right, rights)
  | .group inner, rights => gather c inner rights
  | e, rights => (e, rights)

/-- What has been written of a run with one more operand on its right, which is in parentheses if it
binds as tightly as the run or less. -/
def addOperand (d : Dialect) (write : Expr → Rendered String) (c : Connective) (text : String)
    (operand : Expr) : Rendered String := do
  let next ← write operand
  return text ++ (" " ++ d.word c ++ " ") ++ wrap (operand.precedence ≤ c.precedence) next

/-- The operands of a run one after the other, the first of them in parentheses if it binds less
tightly than the run. -/
def chain (d : Dialect) (write : Expr → Rendered String) (c : Connective)
    (operands : Expr × List Expr) : Rendered String := do
  let first ← write operands.1
  operands.2.foldlM (d.addOperand write c) (wrap (operands.1.precedence < c.precedence) first)

/-- A way of writing expressions that writes every run in one pass. -/
structure FollowsChains (d : Dialect) (write : Expr → Rendered String) : Prop where
  comparison : ∀ k op v, write (.comparison k op v) = d.comparison k op v
  membership : ∀ k negated vs, write (.membership k negated vs) = d.membership k negated vs
  join : ∀ c left right, write (.join c left right) = d.chain write c (gather c left [right])
  group : ∀ inner, write (.group inner) = write inner

variable {d : Dialect}

/-- Recursion along the tree writes the regrouped tree, parentheses and all. -/
theorem plain_eq_verbatim (e : Expr) : d.plain e = d.verbatim e.regroup := by
  induction e with
  | comparison | membership => rfl
  | join c left right hl hr =>
    rw [plain, hl, hr, Expr.regroup, verbatim, verbatim_enclose, verbatim_enclose,
      Expr.binding_regroup, Expr.binding_regroup]
    cases d.verbatim left.regroup with
    | error => rfl
    | ok => cases d.verbatim right.regroup <;> rfl
  | group inner ih => exact ih

/-- A dialect writes what recursion along the tree writes. -/
theorem render_eq_plain (e : Expr) : d.render e = d.plain e :=
  (render_eq_verbatim e).trans (plain_eq_verbatim e).symm

/-- A connective adds its right side to what has been written of the left one. -/
theorem plain_join (c : Connective) (left right : Expr) :
    d.plain (.join c left right) = d.plain left >>= fun text =>
      d.addOperand d.plain c (wrap (left.precedence < c.precedence) text) right := rfl

/-- Writing an expression and then what follows it in a run is the same whether the run is taken
apart first or not. -/
theorem chain_gather (c : Connective) (e : Expr) (rights : List Expr) :
    d.chain d.plain c (gather c e rights) = d.chain d.plain c (e, rights) := by
  -- The induction is on the left side, for any operands that have been gathered above it.
  induction e generalizing rights with
  | comparison | membership => rfl
  | join c' left right hl _ =>
    unfold gather
    split
    · next h =>
      subst h
      -- the left side goes on with the run, so it has no parentheses as a part of it
      have hloose : decide ((Expr.join c' left right).precedence < c'.precedence) = false :=
        decide_eq_false (Nat.lt_irrefl _)
      rw [hl, chain, chain, plain_join, hloose]
      simp only [List.foldlM_cons, bind_assoc]
      rfl
    · rfl
  | group inner ih => exact ih rights

/-- Recursion along the tree is itself a way of writing runs in one pass. -/
theorem followsChains_plain : d.FollowsChains d.plain where
  comparison _ _ _ := rfl
  membership _ _ _ := rfl
  join c left right := by
    rw [chain_gather, chain, plain_join]
    simp only [List.foldlM_cons, List.foldlM_nil, bind_pure]
  group _ := rfl

/-- What is written for a run depends on what is written for its operands only. -/
theorem chain_congr {write write' : Expr → Rendered String} (c : Connective) {first : Expr}
    {rights : List Expr} (hfirst : write first = write' first)
    (hrights : ∀ e ∈ rights, write e = write' e) :
    d.chain write c (first, rights) = d.chain write' c (first, rights) := by
  rw [chain, chain, hfirst]
  refine bind_congr fun text => ?_
  generalize wrap _ text = text
  induction rights generalizing text with
  | nil => rfl
  | cons right rights ih =>
    have hright := hrights right List.mem_cons_self
    simp only [List.foldlM_cons, addOperand, hright]
    exact bind_congr fun text => ih (fun e he => hrights e (List.mem_cons_of_mem _ he)) text

/-- Writing every run in one pass is recursion along the tree. -/
theorem eq_plain_of_followsChains {write : Expr → Rendered String} (h : d.FollowsChains write)
    (e : Expr) : write e = d.plain e := by
  -- a run is written along its left side, so the statement on that is carried along
  suffices hall : write e = d.plain e ∧ ∀ c rights, (∀ r ∈ rights, write r = d.plain r) →
      d.chain write c (gather c e rights) = d.chain d.plain c (gather c e rights) from hall.1
  induction e with
  | comparison k op v =>
    have hwrite := h.comparison k op v
    exact ⟨hwrite, fun c rights hrights => chain_congr c hwrite hrights⟩
  | membership k negated vs =>
    have hwrite := h.membership k negated vs
    exact ⟨hwrite, fun c rights hrights => chain_congr c hwrite hrights⟩
  | join c left right hl hr =>
    have hright : ∀ r ∈ [right], write r = d.plain r := by
      intro r hmem
      rw [List.mem_singleton.1 hmem]
      exact hr.1
    have hwrite : write (.join c left right) = d.plain (.join c left right) := by
      rw [h.join, hl.2 c [right] hright, ← followsChains_plain.join]
    refine ⟨hwrite, fun c' rights hrights => ?_⟩
    unfold gather
    split
    -- The right side joins the operands that have been gathered, and the run goes on to the left.
    · exact hl.2 c' (right :: rights) (List.forall_mem_cons.2 ⟨hr.1, hrights⟩)
    · exact chain_congr c' hwrite hrights
  | group inner ih => exact ⟨(h.group inner).trans ih.1, ih.2⟩

/-- A dialect writes runs as if in one pass. -/
theorem followsChains_render : d.FollowsChains d.render := by
  rw [show d.render = d.plain from funext render_eq_plain]
  exact followsChains_plain

end Dialect

/-- What is written for an expression in a language with infix operators, and which failure is
reported, is what recursion along the tree gives; and so it is for every way of writing that takes a
run apart before it writes its operands. -/
theorem infix_render_eq_plain (config : RenderConfig) (e : Expr) :
    render .text config e =
      ((FilterText.dialect config).plain e).mapError (RenderError.mk .text) ∧
    render .sql config e = ((Sql.dialect config).plain e).mapError (RenderError.mk .sql) ∧
    render .pgvector config e =
      ((JsonPath.dialect config).plain e).mapError (RenderError.mk .pgvector) ∧
    render .neo4j config e =
      ((Cypher.dialect config).plain e).mapError (RenderError.mk .neo4j) ∧
    ∀ d : Dialect, d.FollowsChains d.render ∧
      ∀ write, d.FollowsChains write → write e = d.plain e := by
  refine ⟨?_, ?_, ?_, ?_, fun d => ⟨d.followsChains_render, fun write h => ?_⟩⟩
  · exact congrArg _ (Dialect.render_eq_plain e)
  · exact congrArg _ (Dialect.render_eq_plain e)
  · exact congrArg _ (Dialect.render_eq_plain e)
  · exact congrArg _ (Dialect.render_eq_plain e)
  · exact Dialect.eq_plain_of_followsChains h e

/-- A run that goes on through parentheses, with the other connective at its start and a run of its
own connective on its right. -/
theorem infix_render_eq_plain_grouped_run :
    (FilterText.dialect .standard).FollowsChains (FilterText.render .standard) ∧
    FilterText.render .standard
        (.join .and (.group (.join .and (.group (.join .or
            (.comparison (.field "a") .equal (.integer 1))
            (.comparison (.field "b") .equal (.integer 2))))
          (.comparison (.field "c") .equal (.integer 3))))
          (.group (.join .and (.comparison (.field "d") .equal (.integer 4))
            (.comparison (.field "e") .equal (.integer 5))))) =
      .ok "(a == 1 OR b == 2) AND c == 3 AND (d == 4 AND e == 5)" := by
  obtain ⟨hchains, hplain⟩ := (infix_render_eq_plain .standard
    (.join .and (.group (.join .and (.group (.join .or
        (.comparison (.field "a") .equal (.integer 1))
        (.comparison (.field "b") .equal (.integer 2))))
      (.comparison (.field "c") .equal (.integer 3))))
      (.group (.join .and (.comparison (.field "d") .equal (.integer 4))
        (.comparison (.field "e") .equal (.integer 5)))))).2.2.2.2 (FilterText.dialect .standard)
  refine ⟨hchains, (hplain _ hchains).trans ?_⟩
  rfl

end MetadataFilter
