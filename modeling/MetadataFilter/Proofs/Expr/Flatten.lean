import MetadataFilter.Proofs.Expr.Keys
import MetadataFilter.Proofs.Expr.Leaves

/-!
# Filters as nested runs

A filter is flattened if parentheses are left out and operands that are joined with one connective,
however they are grouped, stand in one list in their order.

## Key results

- `leaves_flatten`: the tests stay in their order
- `proper_flatten`: runs have two operands at least, and no operand goes on with the run
- `flatten_eq_iff`: nothing is lost but how runs are grouped, and parentheses
-/

namespace MetadataFilter

/-- A filter whose runs of one connective are lists of operands. -/
inductive Flat where
  | test (l : Leaf)
  | run (c : Connective) (operands : List Flat)

namespace Flat

/-- The operands that a filter adds to a run of the connective `c`: its own ones if it is such a
run, otherwise itself. -/
def operandsFor (c : Connective) : Flat → List Flat
  | run d operands => if d = c then operands else [run d operands]
  | f => [f]

/-- Whether a filter is a run of the connective `c`. -/
def isRun (c : Connective) : Flat → Bool
  | run d _ => d == c
  | test _ => false

mutual

/-- The tests of a filter, in order. -/
def leaves : Flat → List Leaf
  | test l => [l]
  | run _ operands => leavesOf operands

/-- The tests of some filters, in order. -/
def leavesOf : List Flat → List Leaf
  | [] => []
  | f :: fs => f.leaves ++ leavesOf fs

end

mutual

/-- Whether all runs of a filter have two operands at least, of which none is a run of the same
connective. -/
def Proper : Flat → Prop
  | test _ => True
  | run c operands =>
    2 ≤ operands.length ∧ (∀ f ∈ operands, f.isRun c = false) ∧ AllProper operands

/-- Whether all runs of some filters are proper. -/
def AllProper : List Flat → Prop
  | [] => True
  | f :: fs => f.Proper ∧ AllProper fs

end

/-- The tests of two lists of filters in a row. -/
theorem leavesOf_append (fs gs : List Flat) : leavesOf (fs ++ gs) = leavesOf fs ++ leavesOf gs := by
  induction fs with
  | nil => rfl
  | cons f fs ih => rw [List.cons_append, leavesOf, leavesOf, ih, List.append_assoc]

/-- A test of one of some filters is a test of theirs. -/
theorem mem_leavesOf {f : Flat} {fs : List Flat} {l : Leaf} (hf : f ∈ fs) (hl : l ∈ f.leaves) :
    l ∈ leavesOf fs := by
  obtain ⟨before, after, rfl⟩ := List.append_of_mem hf
  rw [leavesOf_append, leavesOf]
  exact List.mem_append_right _ (List.mem_append_left _ hl)

/-- Taking a run apart into its operands loses no test. -/
theorem leavesOf_operandsFor (c : Connective) (f : Flat) :
    leavesOf (f.operandsFor c) = f.leaves := by
  have hone : ∀ f : Flat, leavesOf [f] = f.leaves := fun f => by
    rw [leavesOf, leavesOf, List.append_nil]
  cases f with
  | test l => exact hone _
  | run d operands =>
    by_cases hd : d = c
    · rw [operandsFor, if_pos hd]
      rfl
    · rw [operandsFor, if_neg hd, hone]

/-- Two lists of filters with proper runs are one such list. -/
theorem allProper_append {fs gs : List Flat} (hfs : AllProper fs) (hgs : AllProper gs) :
    AllProper (fs ++ gs) := by
  induction fs with
  | nil => exact hgs
  | cons f fs ih => exact ⟨hfs.1, ih hfs.2⟩

/-- What a filter adds to a run. -/
theorem Proper.operandsFor {f : Flat} (h : f.Proper) (c : Connective) :
    1 ≤ (f.operandsFor c).length ∧ (∀ g ∈ f.operandsFor c, g.isRun c = false) ∧
      AllProper (f.operandsFor c) := by
  cases f with
  | test l => exact ⟨Nat.le_refl 1, by simp [Flat.operandsFor, isRun], h, trivial⟩
  | run d operands =>
    by_cases hd : d = c
    · -- a run of the same connective has proper operands, none of which goes on with it
      rw [Flat.operandsFor, if_pos hd]
      subst hd
      obtain ⟨hlength, hrun, hall⟩ := h
      exact ⟨by omega, hrun, hall⟩
    · rw [Flat.operandsFor, if_neg hd]
      exact ⟨Nat.le_refl 1, by simp [isRun, hd], h, trivial⟩

end Flat

namespace Expr

/-- The filter with the operands of its runs in lists. -/
def flatten : Expr → Flat
  | comparison k op v => .test (.comparison k op v)
  | membership k negated vs => .test (.membership k negated vs)
  | join c left right => .run c (left.flatten.operandsFor c ++ right.flatten.operandsFor c)
  | group inner => inner.flatten

/-- The tests stay in their order. -/
theorem leaves_flatten (e : Expr) : e.flatten.leaves = e.leaves := by
  induction e with
  | join c left right hl hr =>
    rw [flatten, Flat.leaves, Flat.leavesOf_append, Flat.leavesOf_operandsFor,
      Flat.leavesOf_operandsFor, hl, hr]
    rfl
  | group inner ih => exact ih
  | _ => rfl

/-- Other keys stand where the keys of a filter stand. -/
theorem exists_of_mem_leaves_mapKeys {f : Key → Key} {e : Expr} {l : Leaf}
    (h : l ∈ (e.mapKeys f).leaves) : ∃ l' ∈ e.leaves, l.key = f l'.key := by
  -- by induction on the tree, whose tests stay in their order
  induction e with
  | comparison k op v =>
    refine ⟨.comparison k op v, List.mem_singleton_self _, ?_⟩
    rw [List.mem_singleton.1 h]
    rfl
  | membership k negated vs =>
    refine ⟨.membership k negated vs, List.mem_singleton_self _, ?_⟩
    rw [List.mem_singleton.1 h]
    rfl
  | join c left right hl hr =>
    rcases List.mem_append.1 h with h | h
    · obtain ⟨l', hl', hkey⟩ := hl h
      exact ⟨l', List.mem_append_left _ hl', hkey⟩
    · obtain ⟨l', hl', hkey⟩ := hr h
      exact ⟨l', List.mem_append_right _ hl', hkey⟩
  | group inner ih => exact ih h

/-- Runs have been put together as far as they go. -/
theorem proper_flatten (e : Expr) : e.flatten.Proper := by
  induction e with
  | join c left right hl hr =>
    obtain ⟨hlength, hrun, hall⟩ := hl.operandsFor c
    obtain ⟨hlength', hrun', hall'⟩ := hr.operandsFor c
    -- Every side adds at least one operand, so there are two, and none of them goes on with the
    -- run.
    refine ⟨?_, ?_, Flat.allProper_append hall hall'⟩
    · rw [List.length_append]
      omega
    · intro f hf
      rcases List.mem_append.1 hf with hf | hf
      · exact hrun f hf
      · exact hrun' f hf
  | group inner ih => exact ih
  | _ => exact trivial

end Expr

/-! ### What is lost -/

/-- Filters that differ only in how runs are grouped and in parentheses. -/
inductive Regrouped : Expr → Expr → Prop
  | refl (e : Expr) : Regrouped e e
  | symm {e e' : Expr} (h : Regrouped e e') : Regrouped e' e
  | trans {e e' e'' : Expr} (h : Regrouped e e') (h' : Regrouped e' e'') : Regrouped e e''
  | join {l l' r r' : Expr} (c : Connective) (hl : Regrouped l l') (hr : Regrouped r r') :
      Regrouped (.join c l r) (.join c l' r')
  | group (e : Expr) : Regrouped (.group e) e
  | rotate (c : Connective) (x y z : Expr) :
      Regrouped (.join c (.join c x y) z) (.join c x (.join c y z))

/-- What differs only in grouping is the same once it is flattened. -/
theorem Regrouped.flatten_eq {e e' : Expr} (h : Regrouped e e') : e.flatten = e'.flatten := by
  induction h with
  | refl => rfl
  | symm _ ih => exact ih.symm
  | trans _ _ ih ih' => exact ih.trans ih'
  | join c _ _ hl hr => rw [Expr.flatten, Expr.flatten, hl, hr]
  | group => rfl
  | rotate c x y z => simp [Expr.flatten, Flat.operandsFor]

mutual

/-- A filter whose runs are grouped to the right, unless some run is empty. -/
def Flat.expr? : Flat → Option Expr
  | .test l => some l.expr
  | .run c operands => Flat.joined? c operands

/-- Operands that are joined with a connective and grouped to the right, unless there are none. -/
def Flat.joined? (c : Connective) : List Flat → Option Expr
  | [] => none
  | f :: fs =>
    match fs with
    | [] => f.expr?
    | _ => do return .join c (← f.expr?) (← Flat.joined? c fs)

end

/-- Joining with one more operand in front joins it to all the others. -/
theorem Flat.joined?_cons (c : Connective) (f : Flat) {fs : List Flat} (hfs : fs ≠ []) :
    joined? c (f :: fs) = f.expr?.bind fun x => (joined? c fs).map (.join c x) := by
  rw [joined?]
  · cases f.expr? <;> cases joined? c fs <;> rfl
  · exact hfs

/-- Joining the operands that a filter adds to a run gives the filter again. -/
theorem Flat.joined?_operandsFor (c : Connective) (f : Flat) :
    joined? c (f.operandsFor c) = f.expr? := by
  cases f with
  | test l => rfl
  | run d operands =>
    by_cases hd : d = c
    · rw [operandsFor, if_pos hd, hd]
      rfl
    · rw [operandsFor, if_neg hd]
      rfl

/-- Two lists of operands may be joined on their own or as one. -/
theorem exists_joined_append {c : Connective} {fs gs : List Flat} {x y : Expr}
    (hx : Flat.joined? c fs = some x) (hy : Flat.joined? c gs = some y) :
    ∃ z, Flat.joined? c (fs ++ gs) = some z ∧ Regrouped (.join c x y) z := by
  have hgs : gs ≠ [] := by
    rintro rfl
    cases hy
  -- The induction is on the operands of the left side; with one of them left there is nothing to
  -- move.
  induction fs generalizing x with
  | nil => cases hx
  | cons f fs ih =>
    by_cases hfs : fs = []
    · subst hfs
      have hx : f.expr? = some x := hx
      refine ⟨.join c x y, ?_, .refl _⟩
      rw [List.cons_append, List.nil_append, Flat.joined?_cons c f hgs, hx, hy]
      rfl
    · rw [Flat.joined?_cons c f hfs] at hx
      obtain ⟨first, hfirst, hx⟩ := Option.bind_eq_some_iff.1 hx
      obtain ⟨others, hothers, rfl⟩ := Option.map_eq_some_iff.1 hx
      obtain ⟨z, hz, hregrouped⟩ := ih hothers
      -- the first operand moves out of the left side
      refine ⟨.join c first z, ?_, (Regrouped.rotate c first others y).trans
        (.join c (.refl first) hregrouped)⟩
      rw [List.cons_append, Flat.joined?_cons c f (by simp [hfs]), hfirst, hz]
      rfl

/-- A filter can be put together again from the flattened one, but for the grouping of runs and the
parentheses. -/
theorem Expr.exists_expr_flatten (e : Expr) :
    ∃ e', e.flatten.expr? = some e' ∧ Regrouped e e' := by
  induction e with
  | comparison k op v => exact ⟨_, rfl, .refl _⟩
  | membership k negated vs => exact ⟨_, rfl, .refl _⟩
  | join c left right hl hr =>
    obtain ⟨x, hx, hleft⟩ := hl
    obtain ⟨y, hy, hright⟩ := hr
    -- A side that is a run of `c` is read as its operands, so that the two lists can be joined as
    -- one.
    rw [← Flat.joined?_operandsFor c] at hx hy
    obtain ⟨z, hz, hregrouped⟩ := exists_joined_append hx hy
    exact ⟨z, hz, (Regrouped.join c hleft hright).trans hregrouped⟩
  | group inner ih =>
    obtain ⟨e', he', hregrouped⟩ := ih
    exact ⟨e', he', (Regrouped.group inner).trans hregrouped⟩

/-- Two filters are the same once they are flattened if and only if they differ only in how runs are
grouped and in parentheses. -/
theorem Expr.flatten_eq_iff (e e' : Expr) : e.flatten = e'.flatten ↔ Regrouped e e' := by
  constructor
  · intro h
    obtain ⟨x, hx, hregrouped⟩ := e.exists_expr_flatten
    obtain ⟨x', hx', hregrouped'⟩ := e'.exists_expr_flatten
    rw [h, hx'] at hx
    cases hx
    exact hregrouped.trans hregrouped'.symm
  · exact Regrouped.flatten_eq

end MetadataFilter
