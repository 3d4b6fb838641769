import Mathlib.Data.List.Forall2
import MetadataFilter.Proofs.Expr.Grouping

/-!
# Dialects write regrouped trees verbatim

A dialect ignores the parentheses of the source and decides about its own while it joins runs. What
it writes is the text of the regrouped tree, with the parentheses of that tree and no others, so
that texts can be read back along the tree.

## Key results

- `render_eq_verbatim`: a dialect writes the regrouped tree as it stands
- `render_induction`: what holds of tests, joined texts and texts in parentheses holds of every text
-/

namespace MetadataFilter

/-- What is written with parts has been written with each of them. -/
theorem Rendered.bind_eq_ok {ε α β : Type} {x : Except ε α} {f : α → Except ε β} {b : β}
    (h : x >>= f = .ok b) : ∃ a, x = .ok a ∧ f a = .ok b := by
  cases x with
  | error c => cases h
  | ok a => exact ⟨a, rfl, h⟩

namespace Dialect

/-! ### Texts -/

/-- Two texts with a word between them, as characters. -/
theorem toList_joined (s w t : String) :
    (s ++ (" " ++ w ++ " ") ++ t).toList = s.toList ++ ' ' :: (w.toList ++ ' ' :: t.toList) := by
  simp

/-- A text in parentheses, as characters. -/
theorem toList_parenthesized (s : String) :
    ("(" ++ s ++ ")").toList = '(' :: (s.toList ++ [')']) := by
  simp

/-- The text of a tree with its own parentheses. -/
def verbatim (d : Dialect) : Expr → Rendered String
  | .comparison key op value => d.comparison key op value
  | .membership key negated values => d.membership key negated values
  | .join c left right =>
    return (← d.verbatim left) ++ (" " ++ d.word c ++ " ") ++ (← d.verbatim right)
  | .group inner => return "(" ++ (← d.verbatim inner) ++ ")"

variable {d : Dialect}

/-- The text of an enclosed tree is the text of the tree in parentheses. -/
theorem verbatim_enclose (e : Expr) (needed : Bool) :
    d.verbatim (e.enclose needed) = (d.verbatim e).map (wrap needed) := by
  cases needed with
  | false =>
    show d.verbatim e = (d.verbatim e).map id
    cases d.verbatim e <;> rfl
  | true =>
    show (do return "(" ++ (← d.verbatim e) ++ ")") = (d.verbatim e).map fun s => "(" ++ s ++ ")"
    cases d.verbatim e <;> rfl

/-! ### Runs and trees -/

/-- The text of joined runs is that of the left run, the connective and the right run. -/
theorem text_join (c : Connective) {left : Run} (hleft : left.operands ≠ []) (right : Run) :
    (left.join d c right).text d =
      wrap (left.precedence < c.precedence) (left.text d) ++ (" " ++ d.word c ++ " ") ++
        wrap (right.precedence ≤ c.precedence) (right.text d) := by
  unfold Run.join
  split
  · next h =>
    -- the left run goes on, so it is bound as tightly as the whole
    have hnot : ¬ left.precedence < c.precedence := by simp [Run.precedence, h]
    have hrev : left.operands.reverse ≠ [] := by simpa using hleft
    rw [decide_eq_false hnot]
    simp only [Run.text, h, List.reverse_cons]
    rw [String.intercalate_append_of_ne_nil hrev (by simp), String.intercalate_singleton]
    rfl
  -- a run of the other connective is one operand of the new one, as is the right run
  · next h =>
    simp only [Run.text, List.reverse_cons, List.reverse_nil, List.nil_append, List.cons_append,
      String.intercalate_cons_cons, String.intercalate_singleton]

/-- The run of an expression has the text and the binding of the regrouped tree. -/
theorem run_eq (e : Expr) :
    (∃ r, d.run e = .ok r ∧ r.operands ≠ [] ∧ r.precedence = e.regroup.binding ∧
      d.verbatim e.regroup = .ok (r.text d)) ∨
    ∃ c, d.run e = .error c ∧ d.verbatim e.regroup = .error c := by
  -- a run and its tree go together, so both the text and the binding are carried along
  induction e with
  | comparison k op v =>
    cases h : d.comparison k op v with
    | error c => exact .inr ⟨c, by simp [run, h, bind, Except.bind], h⟩
    | ok s =>
      refine .inl ⟨⟨none, [s]⟩, by simp [run, h, bind, Except.bind]; rfl, by simp, rfl, ?_⟩
      simpa [Run.text, Expr.regroup, verbatim] using h
  | membership k negated vs =>
    cases h : d.membership k negated vs with
    | error c => exact .inr ⟨c, by simp [run, h, bind, Except.bind], h⟩
    | ok s =>
      refine .inl ⟨⟨none, [s]⟩, by simp [run, h, bind, Except.bind]; rfl, by simp, rfl, ?_⟩
      simpa [Run.text, Expr.regroup, verbatim] using h
  -- an error on the left comes before whatever is on the right
  | join c l r hl hr =>
    unfold run Expr.regroup verbatim
    obtain ⟨left, hrun, hne, hprec, htext⟩ | ⟨x, hrun, htext⟩ := hl
    · rw [hrun, verbatim_enclose, htext]
      obtain ⟨right, hrun', hne', hprec', htext'⟩ | ⟨x, hrun', htext'⟩ := hr
      · rw [hrun', verbatim_enclose, htext', ← hprec, ← hprec']
        refine .inl ⟨left.join d c right, rfl, ?_, ?_, ?_⟩
        · unfold Run.join
          split <;> simp
        · unfold Run.join
          split <;> rfl
        · rw [text_join c hne]
          rfl
      · rw [hrun', verbatim_enclose, htext']
        exact .inr ⟨x, rfl, rfl⟩
    -- the error of the left side is the error of the whole
    · rw [hrun, verbatim_enclose, htext]
      exact .inr ⟨x, rfl, rfl⟩
  | group inner ih => exact ih

/-- A dialect writes the regrouped tree as it stands. -/
theorem render_eq_verbatim (e : Expr) : d.render e = d.verbatim e.regroup := by
  unfold render
  obtain ⟨r, hrun, -, -, htext⟩ | ⟨c, hrun, htext⟩ := run_eq (d := d) e
  · rw [hrun, htext]
    rfl
  · rw [hrun, htext]
    rfl

/-- Parts that have been written one after the other. -/
theorem forall₂_of_mapM {ε α β : Type} {write : α → Except ε β} {xs : List α} {ys : List β}
    (h : xs.mapM write = .ok ys) : List.Forall₂ (fun x y => write x = .ok y) xs ys := by
  induction xs generalizing ys with
  | nil =>
    cases h
    exact .nil
  | cons x xs ih =>
    rw [List.mapM_cons] at h
    obtain ⟨y, hx, h⟩ := Rendered.bind_eq_ok h
    obtain ⟨ys', hxs, h⟩ := Rendered.bind_eq_ok h
    cases h
    exact .cons hx (ih hxs)

/-- Each part of a list that has been written has been written on its own. -/
theorem exists_of_mem_mapM {ε α β : Type} {write : α → Except ε β} {xs : List α} {ys : List β}
    (h : xs.mapM write = .ok ys) {y : β} (hy : y ∈ ys) : ∃ x ∈ xs, write x = .ok y := by
  have hwritten := forall₂_of_mapM h
  clear h
  induction hwritten with
  | nil => cases hy
  | cons hfirst _ ih =>
    rcases List.mem_cons.1 hy with rfl | hy
    · exact ⟨_, List.mem_cons_self, hfirst⟩
    · obtain ⟨x, hx, hwrite⟩ := ih hy
      exact ⟨x, List.mem_cons_of_mem _ hx, hwrite⟩

/-! ### Induction along the text -/

section

variable {Q : Nat → String → Expr → Prop}

/-- The text of a tree with the parentheses that it needs, along the tree. The tree is bound as
tightly as its outermost part. -/
theorem verbatim_induction
    (comparison : ∀ {k op v s}, d.comparison k op v = .ok s → Q 3 s (.comparison k op v))
    (membership : ∀ {k negated vs s}, d.membership k negated vs = .ok s →
      Q 3 s (.membership k negated vs))
    (loosen : ∀ {p q s e}, q ≤ p → Q p s e → Q q s e)
    (join : ∀ {c s t l r}, Q c.precedence s l → Q (c.precedence + 1) t r →
      Q c.precedence (s ++ (" " ++ d.word c ++ " ") ++ t) (.join c l r))
    (group : ∀ {s e}, Q 1 s e → Q 3 ("(" ++ s ++ ")") (.group e))
    {e : Expr} (hgrouped : e.Grouped) {s : String} (h : d.verbatim e = .ok s) :
    Q e.binding s e := by
  induction e generalizing s with
  | comparison k op v => exact comparison h
  | membership k negated vs => exact membership h
  | join c l r hl hr =>
    -- both sides bind tightly enough, so their texts hold at the levels of the connective
    obtain ⟨hleft, hright, hgl, hgr⟩ := hgrouped
    unfold verbatim at h
    obtain ⟨s, hs, h⟩ := Rendered.bind_eq_ok h
    obtain ⟨t, ht, h⟩ := Rendered.bind_eq_ok h
    cases h
    exact join (loosen hleft (hl hgl hs)) (loosen hright (hr hgr ht))
  | group inner ih =>
    unfold verbatim at h
    obtain ⟨s, hs, h⟩ := Rendered.bind_eq_ok h
    cases h
    exact group (loosen inner.binding_pos (ih hgrouped hs))

/-- What holds of the texts of tests, and is kept by looser levels, by connectives and by
parentheses, holds of what a dialect writes. -/
theorem render_induction
    (comparison : ∀ {k op v s}, d.comparison k op v = .ok s → Q 3 s (.comparison k op v))
    (membership : ∀ {k negated vs s}, d.membership k negated vs = .ok s →
      Q 3 s (.membership k negated vs))
    (loosen : ∀ {p q s e}, q ≤ p → Q p s e → Q q s e)
    (join : ∀ {c s t l r}, Q c.precedence s l → Q (c.precedence + 1) t r →
      Q c.precedence (s ++ (" " ++ d.word c ++ " ") ++ t) (.join c l r))
    (group : ∀ {s e}, Q 1 s e → Q 3 ("(" ++ s ++ ")") (.group e))
    {e : Expr} {s : String} (h : d.render e = .ok s) : Q 1 s e.regroup := by
  rw [render_eq_verbatim] at h
  exact loosen e.regroup.binding_pos
    (verbatim_induction comparison membership loosen join group e.grouped_regroup h)

end

end Dialect

end MetadataFilter
