import Mathlib.Data.List.Forall2

/-!
# Reading expressions by the precedence of their operators

The second step of reading what has been written in another language. `Operators` say how an operand
is read, how tightly an operator binds, and what an operator makes of the operand in front of it;
`Operators.expr` reads an operand and then goes on while the next operator binds tightly enough.

## Key results

- `Reads.operand`, `Reads.unary`, `Reads.operator`, `Reads.suffix`: operands, and operators in front
  of them or after them
- `Reads.read_eq`: a whole text that is one expression
-/

namespace MetadataFilter.Reading

/-- A part of a language: what it reads from lexemes, and what is left after it. -/
abbrev Part (τ β : Type) := List τ → Option (β × List τ)

/-- How expressions are made up of lexemes. Each of the parts is given a reader for expressions
whose operators all bind at least as tightly as a level. -/
structure Operators (τ β : Type) where
  /-- Reads an operand. -/
  operand : (Nat → Part τ β) → Part τ β
  /-- How tightly the operator binds that comes next; none counts as zero. -/
  binding : List τ → Nat
  /-- Reads an operator and what follows it, with the expression in front of it. -/
  extend : (Nat → Part τ β) → β → Part τ β
  binding_nil : binding [] = 0

namespace Operators

variable {τ β : Type} (ops : Operators τ β)

/-- Goes on with the expression `x` while the operator that comes next binds tightly enough. -/
def goOn (inner : Nat → Part τ β) (level : Nat) (x : β) (ts : List τ) : Option (β × List τ) :=
  if ops.binding ts < level then some (x, ts)
  else
    match ops.extend inner x ts with
    | none => none
    -- an operator that takes nothing would be found again and again
    | some (x, rest) => if rest.length < ts.length then goOn inner level x rest else none
termination_by ts.length

/-- Reads an expression whose operators bind at least as tightly as a level, and in which
expressions are nested less than `depth` deep. -/
def expr : Nat → Nat → Part τ β
  | 0, _, _ => none
  | depth + 1, level, ts =>
    match ops.operand (expr depth) ts with
    | none => none
    | some (x, rest) => ops.goOn (expr depth) level x rest

/-- Reads a whole text. No expression is nested more deeply than there are lexemes. -/
def read (ts : List τ) : Option β :=
  match ops.expr (ts.length + 1) 1 ts with
  | some (x, []) => some x
  | _ => none

/-- Reads expressions with commas between them, up to a closing mark that is taken as well. -/
def list [DecidableEq τ] (comma close : τ) (inner : Part τ β) (ts : List τ) :
    Option (List β × List τ) :=
  match inner ts with
  | some (x, t :: rest) =>
    if t = close then some ([x], rest)
    else if t = comma ∧ rest.length < ts.length then
      (list comma close inner rest).map fun r => (x :: r.1, r.2)
    else none
  | _ => none
termination_by ts.length

/-- An operator that does not bind tightly enough ends the expression. -/
theorem goOn_of_lt {inner : Nat → Part τ β} {level : Nat} {x : β} {ts : List τ}
    (h : ops.binding ts < level) : ops.goOn inner level x ts = some (x, ts) := by
  rw [goOn, if_pos h]

/-- An operator that binds tightly enough goes on with what it makes of the expression. -/
theorem goOn_of_extend {inner : Nat → Part τ β} {level : Nat} {x y : β} {ts rest : List τ}
    (h : level ≤ ops.binding ts) (hextend : ops.extend inner x ts = some (y, rest))
    (hlt : rest.length < ts.length) :
    ops.goOn inner level x ts = ops.goOn inner level y rest := by
  rw [goOn, if_neg (Nat.not_lt_of_le h)]
  simp only [hextend, if_pos hlt]

/-- The lexemes `ts` are an expression that stands for `x`, and all its operators bind at least as
tightly as `p`: with any of them the reader can go on after them. -/
def Reads (p : Nat) (ts : List τ) (x : β) : Prop :=
  ∀ depth level rest, ts.length ≤ depth → level ≤ p → ops.binding rest ≤ p →
    ops.expr (depth + 1) level (ts ++ rest) = ops.goOn (ops.expr depth) level x rest

namespace Reads

variable {ops} {p q : Nat} {ts us : List τ} {x y : β}

/-- What binds at least as tightly as `p` binds at least as tightly as anything looser. -/
theorem loosen (hle : q ≤ p) (h : ops.Reads p ts x) : ops.Reads q ts x := by
  intro depth level rest hdepth hlevel hrest
  exact h depth level rest hdepth (Nat.le_trans hlevel hle) (Nat.le_trans hrest hle)

/-- An expression after which nothing binds tightly enough to go on. -/
theorem expr_eq (h : ops.Reads p ts x) {depth level : Nat} {rest : List τ}
    (hdepth : ts.length < depth) (hlevel : level ≤ p) (hrest : ops.binding rest < level) :
    ops.expr depth level (ts ++ rest) = some (x, rest) := by
  obtain ⟨depth, rfl⟩ := Nat.exists_eq_succ_of_ne_zero (Nat.ne_zero_of_lt hdepth)
  -- what comes next does not bind tightly enough, so the loop ends at once
  rw [h depth level rest (Nat.le_of_lt_succ hdepth) hlevel
    (Nat.le_of_lt (Nat.lt_of_lt_of_le hrest hlevel)), ops.goOn_of_lt hrest]

/-- An operand has no operators. -/
theorem operand (p : Nat) (h : ∀ depth rest, ts.length ≤ depth →
    ops.operand (ops.expr depth) (ts ++ rest) = some (x, rest)) : ops.Reads p ts x := by
  intro depth level rest hdepth _ _
  rw [expr, h depth rest hdepth]

/-- An operator between two operands, of which the right one binds more tightly. -/
theorem operator {t : τ} {f : β → β → β} (hbinding : ∀ rest, ops.binding (t :: rest) = p)
    (hextend : ∀ inner x rest, ops.extend inner x (t :: rest) =
      (inner (p + 1) rest).map fun r => (f x r.1, r.2))
    (hx : ops.Reads p ts x) (hy : ops.Reads (p + 1) us y) :
    ops.Reads p (ts ++ t :: us) (f x y) := by
  intro depth level rest hdepth hlevel hrest
  rw [List.length_append, List.length_cons] at hdepth
  -- the left operand is read first, and the loop goes on with the operator
  rw [List.append_assoc, List.cons_append,
    hx depth level _ (by omega) hlevel (Nat.le_of_eq (hbinding _))]
  -- nothing that binds like the operator itself can go on with the right operand
  have hright : ops.expr depth (p + 1) (us ++ rest) = some (y, rest) :=
    hy.expr_eq (by omega) (Nat.le_refl _) (Nat.lt_succ_of_le hrest)
  refine ops.goOn_of_extend ?_ ?_ ?_
  · rw [hbinding]
    exact hlevel
  · rw [hextend, hright]
    rfl
  · rw [List.length_cons, List.length_append]
    omega

/-- An operator in front of its operand, which binds more tightly. -/
theorem unary {t : τ} {f : β → β} (hoperand : ∀ inner rest, ops.operand inner (t :: rest) =
      (inner (p + 1) rest).map fun r => (f r.1, r.2))
    (hx : ops.Reads (p + 1) ts x) : ops.Reads p (t :: ts) (f x) := by
  intro depth level rest hdepth hlevel hrest
  rw [List.length_cons] at hdepth
  -- what follows does not bind tightly enough to belong to the operand
  have hinner : ops.expr depth (p + 1) (ts ++ rest) = some (x, rest) :=
    hx.expr_eq hdepth (Nat.le_refl _) (Nat.lt_succ_of_le hrest)
  rw [List.cons_append, expr, hoperand, hinner]
  rfl

/-- An operator after an operand, with all that belongs to it. -/
theorem suffix {t : τ} (hbinding : ∀ rest, ops.binding (t :: us ++ rest) = p)
    (hextend : ∀ depth rest, us.length < depth →
      ops.extend (ops.expr depth) x (t :: us ++ rest) = some (y, rest))
    (hx : ops.Reads p ts x) : ops.Reads p (ts ++ t :: us) y := by
  intro depth level rest hdepth hlevel hrest
  rw [List.length_append, List.length_cons] at hdepth
  -- the loop takes the operator with all that belongs to it, and goes on after it
  rw [List.append_assoc,
    hx depth level (t :: us ++ rest) (by omega) hlevel (Nat.le_of_eq (hbinding _))]
  refine ops.goOn_of_extend ?_ (hextend depth rest (by omega)) ?_
  · rw [hbinding]
    exact hlevel
  · rw [List.length_append, List.length_cons]
    omega

/-- Expressions with commas between them. -/
theorem list_eq [DecidableEq τ] {comma close : τ} (hne : comma ≠ close)
    (hcomma : ∀ rest, ops.binding (comma :: rest) = 0)
    (hclose : ∀ rest, ops.binding (close :: rest) = 0) (hp : 1 ≤ p) {xs : List β}
    {tss : List (List τ)} (h : List.Forall₂ (fun x ts => ops.Reads p ts x) xs tss)
    (hxs : xs ≠ []) {depth : Nat} (hdepth : ([comma].intercalate tss).length < depth)
    (rest : List τ) :
    list comma close (ops.expr depth 1) ([comma].intercalate tss ++ close :: rest) =
      some (xs, rest) := by
  -- The induction is on the items; the last one is followed by the closing mark, every other one by
  -- a comma.
  induction h with
  | nil => exact absurd rfl hxs
  | @cons x ts xs tss hx htail ih =>
    cases htail with
    | nil =>
      rw [List.intercalate_singleton] at hdepth ⊢
      rw [list, hx.expr_eq hdepth hp (by rw [hclose]; exact Nat.one_pos)]
      exact if_pos rfl
    | @cons x' ts' xs tss hx' htail =>
      rw [List.intercalate_cons_cons] at hdepth ⊢
      simp only [List.length_append, List.length_singleton] at hdepth
      have hrest := ih (by simp) (by omega)
      -- a comma is no operator, so the first expression ends in front of it
      have hbinding : ops.binding (comma :: ([comma].intercalate (ts' :: tss) ++ close :: rest)) <
          1 := by
        rw [hcomma]
        exact Nat.one_pos
      have hfirst := hx.expr_eq (Nat.lt_of_le_of_lt (by omega) hdepth) hp hbinding
      rw [List.append_assoc, List.append_assoc, List.singleton_append, list, hfirst]
      simp only [if_neg hne]
      rw [if_pos ⟨trivial, by simp; omega⟩, hrest]
      rfl

/-- A whole text that is one expression. -/
theorem read_eq (h : ops.Reads p ts x) (hp : 1 ≤ p) : ops.read ts = some x := by
  have hbinding : ops.binding [] < 1 := Nat.lt_succ_of_le (Nat.le_of_eq ops.binding_nil)
  have hexpr := h.expr_eq (Nat.lt_succ_self ts.length) hp hbinding
  rw [List.append_nil] at hexpr
  rw [read, hexpr]

end Reads

end Operators

end MetadataFilter.Reading
