import MetadataFilter.Proofs.Expr.Size

/-!
# Nesting by whole runs

`Expr.depth` follows a run of a connective one operand at a time. `Expr.nesting` looks at the run as
a whole: all its operands stand one level below it, however long it is, and parentheses end it.

## Key results

- `height_lt_of_mem_run`: the operands of a run are lower than the run
- `nesting_eq_depth`: both count the same levels
-/

namespace MetadataFilter.Expr

/-- The operands of the run of `c` that leads to the left from the top of a tree. Parentheses end
the run, and a tree that is no such run is one operand. -/
def run (c : Connective) : Expr → List Expr
  | join d left right => if d = c then left.run c ++ [right] else [join d left right]
  | e => [e]

/-- The largest of some numbers, or zero if there are none. -/
def largest (ns : List Nat) : Nat := ns.foldr max 0

/-- No operand of a run is higher than the tree. -/
theorem height_le_of_mem_run {c : Connective} {operand e : Expr} (h : operand ∈ e.run c) :
    operand.height ≤ e.height := by
  induction e with
  | join d left right hl _ =>
    unfold run at h
    split at h
    -- an operand comes from the run on the left, or is the right side
    · rcases List.mem_append.1 h with h | h
      · have := hl h
        simp only [height]
        omega
      · rw [List.mem_singleton.1 h]
        simp only [height]
        omega
    · exact Nat.le_of_eq (congrArg height (List.mem_singleton.1 h))
  | _ => exact Nat.le_of_eq (congrArg height (List.mem_singleton.1 h))

/-- The operand on the right ends a run. -/
theorem run_join (c : Connective) (left right : Expr) :
    (join c left right).run c = left.run c ++ [right] := if_pos rfl

/-- The operands of a run are lower than the run. -/
theorem height_lt_of_mem_run {c : Connective} {operand left right : Expr}
    (h : operand ∈ (join c left right).run c) : operand.height < (join c left right).height := by
  rw [run_join] at h
  show _ < max left.height right.height + 1
  rcases List.mem_append.1 h with h | h
  · have := height_le_of_mem_run h
    omega
  · rw [List.mem_singleton.1 h]
    omega

/-- How many runs and parentheses stand around the deepest test of a tree. -/
def nesting : Expr → Nat
  | join c left right =>
    largest (((join c left right).run c).attach.map fun operand => operand.1.nesting) + 1
  | group inner => inner.nesting + 1
  | comparison _ _ _ | membership _ _ _ => 0
termination_by e => e.height
decreasing_by
  · exact height_lt_of_mem_run operand.2
  · exact Nat.lt_succ_self _

/-- A run stands one level above the deepest of its operands. -/
theorem nesting_join (c : Connective) (left right : Expr) :
    (join c left right).nesting = largest (((join c left right).run c).map nesting) + 1 := by
  rw [nesting, List.attach_map_val (f := nesting)]

/-- The largest number of two lists. -/
theorem largest_append (ms ns : List Nat) : largest (ms ++ ns) = max (largest ms) (largest ns) := by
  induction ms with
  | nil => simp [largest]
  | cons m ms ih =>
    show max m (largest (ms ++ ns)) = max (max m (largest ms)) (largest ns)
    rw [ih, Nat.max_assoc]

/-- The operands of a run are as deep as the tree is where it continues the run. -/
theorem largest_depth_run (c : Connective) (e : Expr) :
    largest ((e.run c).map depth) = e.depthAfter (some c) := by
  induction e with
  | join d left right hl _ =>
    by_cases h : d = c
    · subst h
      rw [run_join, List.map_append, largest_append, hl, depthAfter_join]
      simp [largest]
    -- a run of the other connective is one operand, and does not continue the run
    · simp only [run, if_neg h]
      simp [largest, depth, depthAfter, Ne.symm h]
  | _ => simp [run, largest, depth, depthAfter]

/-- Levels can be counted one operand at a time. -/
theorem nesting_eq_depth (e : Expr) : e.nesting = e.depth := by
  -- Runs are not subtrees, so the induction is on the height and not on the tree.
  induction hn : e.height using Nat.strongRecOn generalizing e with
  | ind n ih =>
    cases e with
    | join c left right =>
      have hrun : ((join c left right).run c).map nesting = ((join c left right).run c).map depth :=
        List.map_congr_left fun operand hmem => ih _ (hn ▸ height_lt_of_mem_run hmem) _ rfl
      rw [nesting_join, hrun, largest_depth_run, depthAfter_join]
      rfl
    | group inner =>
      rw [nesting, ih inner.height (hn ▸ Nat.lt_succ_self _) inner rfl]
      rfl
    | comparison | membership =>
      rw [nesting]
      rfl

end MetadataFilter.Expr
