import MetadataFilter.Proofs.Expr.Grouping
import MetadataFilter.Proofs.Grammar

/-!
# Levels of the grammar and bindings of trees

The levels at which expressions stand in the grammar are how tightly their trees are bound. A tree
that is derivable has the parentheses that it needs.

## Key results

- `Derives.loosen`: what stands at a level also stands at the looser ones
- `Derives.grouped`: what is derivable has the parentheses that it needs
-/

namespace MetadataFilter.Grammar

/-- How tightly what stands at a level is bound at least. -/
def Level.binding : Level → Nat
  | .primary => 3
  | .run c => c.precedence

/-- The operands of a run are bound one step tighter than the run. -/
theorem binding_operandLevel (c : Connective) : (operandLevel c).binding = c.precedence + 1 := by
  cases c <;> rfl

/-- What stands at a level also stands at the looser ones. -/
theorem Derives.loosen {level level' : Level} {ts : List Token} {e : Expr}
    (h : Derives level ts e) (hle : level'.binding ≤ level.binding) : Derives level' ts e := by
  -- All pairs of levels; a tighter one reaches a looser one by counting a part as a run of one
  -- operand.
  cases level with
  | primary =>
    cases level' with
    | primary => exact h
    | run c =>
      cases c with
      | and => exact .operand h
      | or => exact .operand (.operand h)
  | run c =>
    cases level' with
    | primary => cases c <;> exact absurd hle (by decide)
    | run c' =>
      cases c with
      | and =>
        cases c' with
        | and => exact h
        | or => exact .operand h
      | or =>
        cases c' with
        | and => exact absurd hle (by decide)
        | or => exact h

/-- What is derivable has the parentheses that it needs. -/
theorem Derives.grouped {level : Level} {ts : List Token} {e : Expr} (h : Derives level ts e) :
    e.Grouped ∧ level.binding ≤ e.binding := by
  induction h with
  | test test => cases test <;> exact ⟨trivial, Nat.le_refl _⟩
  | group open_kind inner close_kind ih => exact ⟨ih.1, Nat.le_refl _⟩
  | @operand c ts e operand ih =>
    rw [binding_operandLevel] at ih
    exact ⟨ih.1, Nat.le_of_succ_le ih.2⟩
  | @join c ts us left right t run kind operand ihl ihr =>
    rw [binding_operandLevel] at ihr
    exact ⟨⟨ihl.2, ihr.2, ihl.1, ihr.1⟩, Nat.le_refl _⟩

end MetadataFilter.Grammar
