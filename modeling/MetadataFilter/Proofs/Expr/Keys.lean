import MetadataFilter.Proofs.Expr.Grouping

/-!
# Trees with other keys

`Expr.mapKeys` puts other keys in the place of a tree's keys. The shape of the tree does not depend
on them.

## Key results

- `ungroupAll_mapKeys`: parentheses and keys do not interfere
- `depthAfter_mapKeys`, `height_mapKeys`: the size stays
- `mapKeys_eq_of_coarser`: trees with the same keys under some map
-/

namespace MetadataFilter.Expr

/-- The tree with `f k` in the place of every key `k`. -/
def mapKeys (f : Key → Key) : Expr → Expr
  | comparison k op v => comparison (f k) op v
  | membership k negated vs => membership (f k) negated vs
  | join c left right => join c (left.mapKeys f) (right.mapKeys f)
  | group inner => group (inner.mapKeys f)

/-- Parentheses and keys do not interfere. -/
theorem ungroupAll_mapKeys (f : Key → Key) (e : Expr) :
    (e.mapKeys f).ungroupAll = e.ungroupAll.mapKeys f := by
  induction e with
  | join c left right hl hr => simp only [mapKeys, ungroupAll, hl, hr]
  | group inner ih => exact ih
  | _ => rfl

/-- The depth does not depend on the keys. -/
theorem depthAfter_mapKeys (f : Key → Key) (run : Option Connective) (e : Expr) :
    (e.mapKeys f).depthAfter run = e.depthAfter run := by
  induction e generalizing run with
  | join c left right hl hr => simp only [mapKeys, depthAfter, hl, hr]
  | group inner ih => simp only [mapKeys, depthAfter, ih]
  | _ => rfl

/-- The height does not depend on the keys. -/
theorem height_mapKeys (f : Key → Key) (e : Expr) : (e.mapKeys f).height = e.height := by
  induction e with
  | join c left right hl hr => simp only [mapKeys, height, hl, hr]
  | group inner ih => simp only [mapKeys, height, ih]
  | _ => rfl

/-- Trees that agree with some keys in the place of their own also agree with keys that tell fewer
of them apart. -/
theorem mapKeys_eq_of_coarser {f g : Key → Key} (hfg : ∀ k k', f k = f k' → g k = g k')
    {e e' : Expr} (h : e.mapKeys f = e'.mapKeys f) : e.mapKeys g = e'.mapKeys g := by
  -- Both trees have the same shape, since `mapKeys` leaves it, so only nodes of one kind are
  -- compared.
  induction e generalizing e' with
  | comparison k op v =>
    cases e' with
    | comparison k' op' v' =>
      injection h with hk hop hv
      rw [mapKeys, mapKeys, hfg k k' hk, hop, hv]
    | _ => cases h
  | membership k negated vs =>
    cases e' with
    | membership k' negated' vs' =>
      injection h with hk hnegated hvs
      rw [mapKeys, mapKeys, hfg k k' hk, hnegated, hvs]
    | _ => cases h
  | join c left right hl hr =>
    cases e' with
    | join c' left' right' =>
      injection h with hc hleft hright
      rw [mapKeys, mapKeys, hc, hl hleft, hr hright]
    | _ => cases h
  | group inner ih =>
    cases e' with
    | group inner' =>
      injection h with hinner
      rw [mapKeys, mapKeys, ih hinner]
    | _ => cases h

end MetadataFilter.Expr
