import MetadataFilter.Expr

/-!
# The size of trees

How the depth of a tree depends on the run that it continues, and how it bounds the parentheses that
are open at once.

## Key results

- `depthAfter_join`: a run that goes on is as deep as its deepest operand
- `openGroups_le_depthAfter`: a tree is at least as deep as its parentheses
-/

namespace MetadataFilter.Expr

/-- The most parentheses that are open at once. -/
def openGroups : Expr → Nat
  | join _ left right => max left.openGroups right.openGroups
  | group inner => inner.openGroups + 1
  | _ => 0

/-- Where a tree continues a run it is at most as deep as on its own. -/
theorem depthAfter_le_depth (run : Option Connective) (e : Expr) : e.depthAfter run ≤ e.depth := by
  cases e with
  | join c left right => simp only [depth, depthAfter]; split <;> simp
  | _ => exact Nat.le_refl _

/-- A run on its own is one level above its deepest operand. -/
theorem depth_join (c : Connective) (left right : Expr) :
    (join c left right).depth = max (left.depthAfter (some c)) right.depth + 1 := rfl

/-- A run that goes on is as deep as its deepest operand. -/
theorem depthAfter_join (c : Connective) (left right : Expr) :
    (join c left right).depthAfter (some c) = max (left.depthAfter (some c)) right.depth := by
  simp [depthAfter, depth]

/-- A tree that continues a run is at most one level deeper on its own. -/
theorem depth_le_depthAfter_succ (run : Option Connective) (e : Expr) :
    e.depth ≤ e.depthAfter run + 1 := by
  cases e with
  | join c left right =>
    simp only [depth, depthAfter, reduceCtorEq, if_false]
    exact Nat.succ_le_succ (Nat.le_add_right _ _)
  | _ => exact Nat.le_succ _

/-- A tree is at least as deep as its parentheses, also where it continues a run. -/
theorem openGroups_le_depthAfter (run : Option Connective) (e : Expr) :
    e.openGroups ≤ e.depthAfter run := by
  induction e generalizing run with
  | join c left right hl hr =>
    have hl := hl (some c)
    have hr := hr none
    simp only [openGroups, depthAfter]
    omega
  | group inner ih => exact Nat.succ_le_succ (ih none)
  | _ => exact Nat.zero_le _

end MetadataFilter.Expr
