import MetadataFilter.Proofs.Expr.Keys
import MetadataFilter.Proofs.Render.Verbatim

/-!
# How many parentheses a tree needs

`Expr.regroup` puts in the fewest parentheses under which a tree keeps its structure. So a tree that
lacks some of them cannot have that structure: its text is that of another tree, which has as many
parentheses as are left.

## Key results

- `groups_regroup_le`: a tree that has enough parentheses has those of the regrouped tree at least
- `groups_without_le`, `groups_without_lt`: what is left if some are taken away
- `exists_grouped`: every tree's text is that of a tree with enough parentheses
- `ungroupAll_ne_of_groups_lt`: with fewer parentheses the structure is another one
-/

namespace MetadataFilter

namespace Expr

/-- How many parentheses a tree has. -/
def groups : Expr → Nat
  | join _ left right => left.groups + right.groups
  | group inner => inner.groups + 1
  | _ => 0

/-- The tree without those of its parentheses that `drop` holds of. They are numbered from
`opened` on, in the order in which a text opens them. -/
def without (drop : Nat → Bool) (opened : Nat) : Expr → Expr
  | join c left right =>
    join c (left.without drop opened) (right.without drop (opened + left.groups))
  | group inner => (inner.without drop (opened + 1)).enclose (!drop opened)
  | e => e

/-- Parentheses around a tree are one more. -/
theorem groups_enclose (needed : Bool) (e : Expr) :
    (e.enclose needed).groups = e.groups + needed.toNat := by
  cases needed <;> rfl

/-- Parentheses do not depend on keys. -/
theorem groups_mapKeys (f : Key → Key) (e : Expr) : (e.mapKeys f).groups = e.groups := by
  induction e with
  | join c left right hl hr => simp only [mapKeys, groups, hl, hr]
  | group inner ih => simp only [mapKeys, groups, ih]
  | _ => rfl

/-- Nor does it depend on keys whether a tree has enough of them. -/
theorem grouped_mapKeys (f : Key → Key) (e : Expr) : (e.mapKeys f).Grouped ↔ e.Grouped := by
  have hbinding : ∀ e : Expr, (e.mapKeys f).binding = e.binding := fun e => by cases e <;> rfl
  induction e with
  | join c left right hl hr => simp only [mapKeys, Grouped, hl, hr, hbinding]
  | group inner ih => exact ih
  | _ => exact Iff.rfl

/-! ### Enough parentheses -/

/-- A tree with enough parentheses has as many as the regrouped tree, also with those that this one
needs if it is bound less tightly. -/
theorem groups_enclose_regroup_le {e : Expr} (h : e.Grouped) (needed : Bool)
    (hneeded : needed = true → e.regroup.binding < e.binding) :
    (e.regroup.enclose needed).groups ≤ e.groups := by
  induction e generalizing needed with
  -- The flag `needed` is part of the induction, since a side may lose its own parentheses and then
  -- need some.
  | join c left right hl hr =>
    obtain ⟨hleft, hright, hgl, hgr⟩ := h
    cases needed with
    | true => exact absurd (hneeded rfl) (Nat.lt_irrefl _)
    | false =>
      have hl := hl hgl (left.regroup.binding < c.precedence)
        fun h => Nat.lt_of_lt_of_le (of_decide_eq_true h) hleft
      have hr := hr hgr (right.regroup.binding ≤ c.precedence)
        fun h => Nat.lt_of_le_of_lt (of_decide_eq_true h) hright
      exact Nat.add_le_add hl hr
  -- the parentheses of the tree make up for those that are needed
  | group inner ih =>
    have hinner : inner.regroup.groups ≤ inner.groups := ih h false (absurd · Bool.false_ne_true)
    cases needed with
    | true => exact Nat.succ_le_succ hinner
    | false => exact Nat.le_succ_of_le hinner
  | _ =>
    cases needed with
    | true => exact absurd (hneeded rfl) (Nat.lt_irrefl _)
    | false => exact Nat.le_refl _

/-- No tree with enough parentheses has fewer of them than the regrouped tree. -/
theorem groups_regroup_le {e : Expr} (h : e.Grouped) : e.regroup.groups ≤ e.groups :=
  groups_enclose_regroup_le h false (absurd · Bool.false_ne_true)

/-- A tree is regrouped as it is without its parentheses. -/
theorem regroup_ungroupAll (e : Expr) : e.ungroupAll.regroup = e.regroup := by
  induction e with
  | join c left right hl hr => simp only [ungroupAll, regroup, hl, hr]
  | group inner ih => exact ih
  | _ => rfl

/-- A tree with enough parentheses, but fewer than a tree needs, has another structure. -/
theorem ungroupAll_ne_of_groups_lt {e e' : Expr} (h : e'.Grouped)
    (hlt : e'.groups < e.regroup.groups) : e'.ungroupAll ≠ e.ungroupAll := by
  intro heq
  have hle := groups_regroup_le h
  rw [← regroup_ungroupAll, heq, regroup_ungroupAll] at hle
  exact absurd hlt (Nat.not_lt_of_le hle)

/-! ### Missing parentheses -/

/-- Taking parentheses away leaves no more of them. -/
theorem groups_without_le (drop : Nat → Bool) (opened : Nat) (e : Expr) :
    (e.without drop opened).groups ≤ e.groups := by
  induction e generalizing opened with
  | join c left right hl hr => exact Nat.add_le_add (hl opened) (hr _)
  | group inner ih =>
    have hinner := ih (opened + 1)
    have hone := Bool.toNat_le (!drop opened)
    rw [without, groups_enclose]
    exact Nat.add_le_add hinner hone
  | _ => exact Nat.le_refl _

/-- Taking away one of the tree's parentheses leaves fewer. -/
theorem groups_without_lt {drop : Nat → Bool} {opened k : Nat} {e : Expr} (hk : drop k = true)
    (hle : opened ≤ k) (hlt : k < opened + e.groups) :
    (e.without drop opened).groups < e.groups := by
  induction e generalizing opened with
  | join c left right hl hr =>
    have hleft := groups_without_le drop opened left
    have hright := groups_without_le drop (opened + left.groups) right
    simp only [without, groups] at hlt ⊢
    -- the parentheses are on one of the two sides
    by_cases hside : k < opened + left.groups
    · have := hl hle hside
      omega
    · have := hr (Nat.le_of_not_lt hside) (by omega)
      omega
  | group inner ih =>
    have hinner := groups_without_le drop (opened + 1) inner
    rw [without, groups_enclose]
    simp only [groups] at hlt ⊢
    -- The outermost parentheses are the ones in question, or these stand inside.
    rcases Nat.eq_or_lt_of_le hle with rfl | hinside
    · rw [hk]
      exact Nat.lt_succ_of_le hinner
    · have hinside : opened + 1 ≤ k := hinside
      have := ih hinside (by omega)
      have hone := Bool.toNat_le (!drop opened)
      omega
  | _ => exact absurd hlt (Nat.not_lt_of_le hle)

end Expr

/-! ### Trees of the same text -/

namespace Dialect

/-- Operators that follow each other make the same text however they are grouped. -/
theorem verbatim_rotate (d : Dialect) (c c' : Connective) (x y z : Expr) :
    d.verbatim (.join c (.join c' x y) z) = d.verbatim (.join c' x (.join c y z)) := by
  simp only [verbatim]
  cases d.verbatim x with
  | error => rfl
  | ok s =>
    cases d.verbatim y with
    | error => rfl
    | ok t =>
      cases d.verbatim z with
      | error => rfl
      | ok u => simp [bind, Except.bind, pure, Except.pure, String.append_assoc]

end Dialect

namespace Expr

/-- Trees of the same text, in every dialect. -/
def SameText (e e' : Expr) : Prop := ∀ d : Dialect, d.verbatim e = d.verbatim e'

namespace SameText

/-- Two connectives in a row make the same text whichever is applied first. -/
theorem rotate (c c' : Connective) (x y z : Expr) :
    SameText (join c (join c' x y) z) (join c' x (join c y z)) := fun d =>
  d.verbatim_rotate c c' x y z

/-- Trees of the same text as a third one have the same text. -/
theorem trans {e f g : Expr} (h : SameText e f) (h' : SameText f g) : SameText e g :=
  fun d => (h d).trans (h' d)

/-- A connective between trees of the same text. -/
theorem join (c : Connective) {l l' r r' : Expr} (hl : SameText l l') (hr : SameText r r') :
    SameText (join c l r) (join c l' r') := fun d => by
  rw [Dialect.verbatim, Dialect.verbatim, hl d, hr d]

theorem symm {e f : Expr} (h : SameText e f) : SameText f e := fun d => (h d).symm

theorem refl (e : Expr) : SameText e e := fun _ => rfl

/-- Parentheses around trees of the same text. -/
theorem group {e f : Expr} (h : SameText e f) : SameText (group e) (group f) := fun d => by
  rw [Dialect.verbatim, Dialect.verbatim, h d]

end SameText

/-- Only connectives are bound less tightly than tests and parentheses. -/
theorem exists_join_of_binding_lt {e : Expr} (h : e.binding < 3) :
    ∃ c left right, e = join c left right := by
  cases e with
  | join c left right => exact ⟨c, left, right, rfl⟩
  | _ => exact absurd h (Nat.lt_irrefl _)

/-- The text of two trees with enough parentheses and a connective between them is that of a tree
with enough parentheses, which has theirs and is bound as tightly as the loosest of the three. -/
theorem exists_grouped_join (c : Connective) (l r : Expr) (hl : l.Grouped) (hr : r.Grouped) :
    ∃ e, e.Grouped ∧ SameText e (join c l r) ∧ e.groups = l.groups + r.groups ∧
      min c.precedence (min l.binding r.binding) ≤ e.binding := by
  have hc := precedence_lt c
  -- The top of the tree that is looked for is found first, and what is left around it is lower,
  -- though no subtree; so the induction is on the two heights together.
  induction hn : l.height + r.height using Nat.strongRecOn generalizing l r with
  | ind n ih =>
    by_cases hright : r.binding ≤ c.precedence ∧ r.binding ≤ l.binding
    · -- the last one of the loosest connectives is at the top of the right side
      obtain ⟨d, rl, rr, rfl⟩ := exists_join_of_binding_lt (Nat.lt_of_le_of_lt hright.1 hc)
      obtain ⟨hfirst, hlast, hrl, hrr⟩ := hr
      have hlower : rl.height < (join d rl rr).height := Nat.lt_succ_of_le (Nat.le_max_left _ _)
      obtain ⟨e, he, hsame, hgroups, hbinding⟩ :=
        ih (l.height + rl.height) (by omega) l rl hl hrl rfl
      have hd : (join d rl rr).binding = d.precedence := rfl
      rw [hd] at hright ⊢
      refine ⟨join d e rr, ⟨by omega, hlast, he, hrr⟩, ?_, ?_, ?_⟩
      · exact (hsame.join d (.refl rr)).trans (.rotate d c l rl rr)
      · simp only [groups, hgroups]
        omega
      · show _ ≤ d.precedence
        omega
    by_cases hleft : l.binding < c.precedence
    · -- it is at the top of the left side
      obtain ⟨d, ll, lr, rfl⟩ := exists_join_of_binding_lt (Nat.lt_trans hleft hc)
      obtain ⟨hfirst, hlast, hll, hlr⟩ := hl
      have hlower : lr.height < (join d ll lr).height := Nat.lt_succ_of_le (Nat.le_max_right _ _)
      obtain ⟨e, he, hsame, hgroups, hbinding⟩ :=
        ih (lr.height + r.height) (by omega) lr r hlr hr rfl
      have hd : (join d ll lr).binding = d.precedence := rfl
      rw [hd] at hright hleft ⊢
      refine ⟨join d ll e, ⟨hfirst, by omega, hll, he⟩, ?_, ?_, ?_⟩
      · exact (SameText.join d (.refl ll) hsame).trans (SameText.rotate c d ll lr r).symm
      · simp only [groups, hgroups]
        omega
      · show _ ≤ d.precedence
        omega
    · -- it is the one between the two sides
      refine ⟨join c l r, ⟨by omega, by omega, hl, hr⟩, .refl _, rfl, ?_⟩
      show _ ≤ c.precedence
      omega

/-- The text of any tree is that of a tree with enough parentheses, which has as many of them. -/
theorem exists_grouped (e : Expr) : ∃ e', e'.Grouped ∧ SameText e' e ∧ e'.groups = e.groups := by
  -- by induction on the tree, where the two sides of a join are put together again
  induction e with
  | join c left right hl hr =>
    obtain ⟨l, hl, hleft, hlgroups⟩ := hl
    obtain ⟨r, hr, hright, hrgroups⟩ := hr
    obtain ⟨e, he, hsame, hgroups, -⟩ := exists_grouped_join c l r hl hr
    refine ⟨e, he, hsame.trans (hleft.join c hright), ?_⟩
    rw [hgroups, hlgroups, hrgroups]
    rfl
  | group inner ih =>
    obtain ⟨e, he, hsame, hgroups⟩ := ih
    exact ⟨group e, he, hsame.group, congrArg (· + 1) hgroups⟩
  | comparison k op v => exact ⟨.comparison k op v, trivial, .refl _, rfl⟩
  | membership k negated vs => exact ⟨.membership k negated vs, trivial, .refl _, rfl⟩

end Expr

end MetadataFilter
