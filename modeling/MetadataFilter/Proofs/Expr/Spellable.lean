import MetadataFilter.Proofs.Expr.Leaves
import MetadataFilter.Token.Lexer

/-!
# Trees that texts can spell

A text cannot spell every tree. Its names are identifiers or strings, its strings end on their line,
its decimals are finite, and its operators lean to the left with AND inside OR, so that whatever
stands in another way has to be in parentheses.

## Key results

- `leansLeft_iff_grouped`: the shape of such trees, with and without counting how tightly operators
  bind
- `leaves_regroup`: parentheses that are put in or taken away leave the tests as they are
-/

namespace MetadataFilter

/-- The constants of a test, in order. -/
def Leaf.values : Leaf → List Value
  | comparison _ _ v => [v]
  | membership _ _ vs => vs.toList

/-- A key of one or two identifiers, or a string that is not empty and has no line break. -/
def Key.Spellable : Key → Prop
  | field name => Token.isIdentifier name = true
  | nested parent child => Token.isIdentifier parent = true ∧ Token.isIdentifier child = true
  | quoted name => name ≠ "" ∧ ∀ c ∈ name.toList, Token.isLineBreak c = false

/-- A string without line breaks, a finite decimal, or any integer or truth value. -/
def Value.Spellable : Value → Prop
  | text s => ∀ c ∈ s.toList, Token.isLineBreak c = false
  | decimal x => x.isFinite = true
  | integer _ | boolean _ => True

/-- A test of such a key with such constants. -/
def Leaf.Spellable (l : Leaf) : Prop := l.key.Spellable ∧ ∀ v ∈ l.values, v.Spellable

namespace Expr

/-- The connective at the very top of a tree; parentheses hide what is inside of them. -/
def top? : Expr → Option Connective
  | join c _ _ => some c
  | _ => none

/-- AND joins no OR that is not in parentheses, and no connective has its own kind, or a looser one,
directly on its right. -/
def LeansLeft : Expr → Prop
  | join .and left right =>
    left.top? ≠ some .or ∧ right.top? = none ∧ left.LeansLeft ∧ right.LeansLeft
  | join .or left right => right.top? ≠ some .or ∧ left.LeansLeft ∧ right.LeansLeft
  | group inner => inner.LeansLeft
  | _ => True

/-- How tightly a tree is bound is read off its top. -/
theorem binding_eq (e : Expr) : e.binding = (e.top?.map Connective.precedence).getD 3 := by
  cases e <;> rfl

/-- A tree leans to the left exactly if its looser parts are in parentheses. -/
theorem leansLeft_iff_grouped (e : Expr) : e.LeansLeft ↔ e.Grouped := by
  induction e with
  | join c left right hl hr =>
    unfold Grouped
    rw [← hl, ← hr, binding_eq left, binding_eq right]
    -- two connectives and no connective: all tops that the two sides can have
    cases c with
    | and =>
      show _ ∧ _ ∧ _ ∧ _ ↔ _
      rcases left.top? with _ | _ | _ <;> rcases right.top? with _ | _ | _ <;>
        simp [Connective.precedence]
    | or =>
      show _ ∧ _ ∧ _ ↔ _
      rcases left.top? with _ | _ | _ <;> rcases right.top? with _ | _ | _ <;>
        simp [Connective.precedence]
  | group inner ih => exact ih
  | comparison | membership => exact Iff.rfl

/-- Parentheses around a tree change none of its tests. -/
theorem leaves_enclose (needed : Bool) (e : Expr) : (e.enclose needed).leaves = e.leaves := by
  cases needed <;> rfl

/-- Putting in the parentheses that are needed changes none of the tests. -/
theorem leaves_regroup (e : Expr) : e.regroup.leaves = e.leaves := by
  induction e with
  | join c left right hl hr => simp only [regroup, leaves, leaves_enclose, hl, hr]
  | group inner ih => exact ih
  | _ => rfl

end Expr

end MetadataFilter
