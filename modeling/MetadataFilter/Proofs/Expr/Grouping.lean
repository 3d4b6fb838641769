import MetadataFilter.Proofs.Expr.Size
import MetadataFilter.Render.Dialect

/-!
# Trees with the parentheses that they need

In a text with infix operators a tree can only stand as it is if its looser parts are in
parentheses. `Expr.regroup` puts in as few of them as will do.

## Key results

- `grouped_regroup`: the parentheses that are put in are enough
- `ungroupAll_regroup`: nothing but parentheses changes
- `depth_regroup_le`, `height_regroup_le`: a tree that had enough of them does not grow
-/

namespace MetadataFilter.Expr

/-- How tightly the outermost part of a tree is bound: a test or parentheses are one piece. -/
def binding : Expr → Nat
  | join c _ _ => c.precedence
  | _ => 3

/-- Whether the parts of a tree that bind too loosely are in parentheses: on the left of a
connective those that bind less tightly, on the right also those that bind as tightly. -/
def Grouped : Expr → Prop
  | join c left right => c.precedence ≤ left.binding ∧ c.precedence < right.binding ∧
      left.Grouped ∧ right.Grouped
  | group inner => inner.Grouped
  | _ => True

/-- The tree in parentheses if need be. -/
def enclose (needed : Bool) (e : Expr) : Expr := if needed then group e else e

/-- The tree with the fewest parentheses under which its text keeps its structure. -/
def regroup : Expr → Expr
  | join c left right =>
    join c (left.regroup.enclose (left.regroup.binding < c.precedence))
      (right.regroup.enclose (right.regroup.binding ≤ c.precedence))
  | group inner => inner.regroup
  | e => e

/-- A test or parentheses bind tighter than every connective. -/
theorem precedence_lt (c : Connective) : c.precedence < 3 := by cases c <;> decide

/-- Every tree binds more tightly than nothing does. -/
theorem binding_pos (e : Expr) : 0 < e.binding := by
  cases e with
  | join c => cases c <;> exact Nat.succ_pos _
  | _ => exact Nat.succ_pos _

/-- Parentheses around a tree change nothing about what stands inside. -/
theorem grouped_enclose (needed : Bool) (e : Expr) : (e.enclose needed).Grouped ↔ e.Grouped := by
  cases needed <;> rfl

/-- Parentheses around a tree are among those that are taken away. -/
theorem ungroupAll_enclose (needed : Bool) (e : Expr) :
    (e.enclose needed).ungroupAll = e.ungroupAll := by
  cases needed <;> rfl

/-- Parentheses make one piece of a tree. -/
theorem binding_enclose (needed : Bool) (e : Expr) :
    (e.enclose needed).binding = if needed then 3 else e.binding := by
  cases needed <;> rfl

/-- The parentheses that are put in are enough. -/
theorem grouped_regroup (e : Expr) : e.regroup.Grouped := by
  induction e with
  | join c left right hl hr =>
    have hc := precedence_lt c
    simp only [regroup, Grouped, grouped_enclose, binding_enclose, decide_eq_true_eq]
    refine ⟨?_, ?_, hl, hr⟩
    · split <;> omega
    · split <;> omega
  | group inner ih => exact ih
  | _ => trivial

/-- Nothing but parentheses changes. -/
theorem ungroupAll_regroup (e : Expr) : e.regroup.ungroupAll = e.ungroupAll := by
  induction e with
  | join c left right hl hr => simp only [regroup, ungroupAll, ungroupAll_enclose, hl, hr]
  | group inner ih => exact ih
  | _ => rfl

/-! ### Trees with enough parentheses do not grow -/

/-- A tree that had enough parentheses gets no deeper, also in the parentheses that it needs where
it stands if it is bound less tightly than before. -/
theorem depthAfter_enclose_regroup_le {e : Expr} (h : e.Grouped) (run : Option Connective)
    (needed : Bool) (hneeded : needed = true → e.regroup.binding < e.binding) :
    (e.regroup.enclose needed).depthAfter run ≤ e.depthAfter run := by
  induction e generalizing run needed with
  | join c left right hl hr =>
    obtain ⟨hleft, hright, hgl, hgr⟩ := h
    cases needed with
    | true => exact absurd (hneeded rfl) (Nat.lt_irrefl _)
    | false =>
      -- parentheses are put around a side only if taking others away has loosened it
      have hl := hl hgl (some c) (left.regroup.binding < c.precedence)
        fun h => Nat.lt_of_lt_of_le (of_decide_eq_true h) hleft
      have hr := hr hgr none (right.regroup.binding ≤ c.precedence)
        fun h => Nat.lt_of_le_of_lt (of_decide_eq_true h) hright
      show (join c _ _).depthAfter run ≤ _
      simp only [depthAfter]
      omega
  -- the parentheses are taken away first, so there is room for others in their place
  | group inner ih =>
    have hinner := ih h none false (absurd · Bool.false_ne_true)
    cases needed with
    | true => exact Nat.succ_le_succ hinner
    | false =>
      have hdepth := depthAfter_le_depth run inner.regroup
      exact Nat.le_succ_of_le (Nat.le_trans hdepth hinner)
  | _ =>
    cases needed with
    | true => exact absurd (hneeded rfl) (Nat.lt_irrefl _)
    | false => exact Nat.le_refl _

/-- A tree that had enough parentheses gets no higher, also in those that it needs. -/
theorem height_enclose_regroup_le {e : Expr} (h : e.Grouped) (needed : Bool)
    (hneeded : needed = true → e.regroup.binding < e.binding) :
    (e.regroup.enclose needed).height ≤ e.height := by
  -- As for the depth; a level that is put around a side takes the place of one that was taken away.
  induction e generalizing needed with
  | join c left right hl hr =>
    obtain ⟨hleft, hright, hgl, hgr⟩ := h
    cases needed with
    | true => exact absurd (hneeded rfl) (Nat.lt_irrefl _)
    | false =>
      have hl := hl hgl (left.regroup.binding < c.precedence)
        fun h => Nat.lt_of_lt_of_le (of_decide_eq_true h) hleft
      have hr := hr hgr (right.regroup.binding ≤ c.precedence)
        fun h => Nat.lt_of_le_of_lt (of_decide_eq_true h) hright
      show (join c _ _).height ≤ _
      simp only [height]
      omega
  | group inner ih =>
    have hinner : inner.regroup.height ≤ inner.height := ih h false (absurd · Bool.false_ne_true)
    cases needed with
    | true => exact Nat.succ_le_succ hinner
    | false => exact Nat.le_succ_of_le hinner
  | _ =>
    cases needed with
    | true => exact absurd (hneeded rfl) (Nat.lt_irrefl _)
    | false => exact Nat.le_refl _

/-- A tree that had enough parentheses gets no deeper. -/
theorem depth_regroup_le {e : Expr} (h : e.Grouped) : e.regroup.depth ≤ e.depth :=
  depthAfter_enclose_regroup_le h none false (absurd · Bool.false_ne_true)

/-- A tree that had enough parentheses gets no higher. -/
theorem height_regroup_le {e : Expr} (h : e.Grouped) : e.regroup.height ≤ e.height :=
  height_enclose_regroup_le h false (absurd · Bool.false_ne_true)

end MetadataFilter.Expr
