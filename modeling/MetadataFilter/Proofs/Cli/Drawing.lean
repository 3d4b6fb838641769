import MetadataFilter.Proofs.Cli.Faults
import MetadataFilter.Proofs.Expr.Nodes
import MetadataFilter.Proofs.Render.OneLine
import MetadataFilter.Proofs.Text.Lines

/-!
# Drawings of trees

A drawing has one line for each node, in pre-order. In front of a node stand four characters for
each node above it and the mark that leads to it, and they tell which of these nodes are last
children. The text of a node tells what kind of node it is, and of a test nearly all, so that a
drawing can be taken apart again: what is lost is only which keys were quoted without need.

## Key results

- `drawLines_eq`: the lines belong to the nodes, one for each
- `forall₂_rows`: what stands in front of a node
- `drawLines_inj`: trees with the same lines
- `drawing_faithful`: all of this for whole drawings
-/

namespace MetadataFilter.Cli

open Text

/-! ### What stands in front of a node -/

/-- The mark that leads to a node: a corner if it is the last child of its parent. -/
def branch (last : Bool) : String := if last then "└── " else "├── "

/-- What stands below the mark of a node: a bar if other children of its parent follow. -/
def column (last : Bool) : String := if last then "    " else "│   "

/-- The characters `cs` indent the node at a place: four for each level of depth. The last four are
the mark that leads to the node, and the others say for each node above it, other than the root,
whether it is the last child of its own parent. -/
structure Indents (e : Expr) (place : List Nat) (cs : List Char) : Prop where
  length_eq : cs.length = 4 * place.length
  branch_eq : place ≠ [] → cs.drop (4 * (place.length - 1)) = (branch (e.isLast place)).toList
  column_eq : ∀ depth, 0 < depth → depth < place.length →
    (cs.drop (4 * (depth - 1))).take 4 = (column (e.isLast (place.take depth))).toList

/-- Below a mark there are four characters. -/
theorem length_column (last : Bool) : (column last).toList.length = 4 := by
  cases last <;> rfl

namespace Indents

/-- Nothing stands in front of the root. -/
theorem root (e : Expr) : Indents e [] [] where
  length_eq := rfl
  branch_eq h := absurd rfl h
  column_eq depth _ h := absurd h (Nat.not_lt_zero depth)

/-- In front of a child of the root stands its mark. -/
theorem single (e : Expr) (i : Nat) : Indents e [i] (branch (e.isLast [i])).toList where
  length_eq := by cases e.isLast [i] <;> rfl
  branch_eq _ := rfl
  column_eq depth hpos hlt := by
    rw [List.length_singleton] at hlt
    omega

/-- Below a child there are four characters more in front, as its place says. -/
theorem below {e child : Expr} {i : Nat} (hchild : e.children[i]? = some child)
    {place : List Nat} (hplace : place ≠ [])
    {cs : List Char} (h : Indents child place cs) :
    Indents e (i :: place) ((column (e.isLast [i])).toList ++ cs) := by
  have hpos : 0 < place.length := List.length_pos_iff.2 hplace
  have hdrop : ∀ n, ((column (e.isLast [i])).toList ++ cs).drop (4 + n) = cs.drop n := by
    intro n
    rw [← length_column (e.isLast [i]), List.drop_length_add_append]
  -- the length, the mark and the columns, each shifted by the four characters of the child
  refine ⟨?_, fun _ => ?_, fun depth hdepth hlt => ?_⟩
  · rw [List.length_append, length_column, h.length_eq, List.length_cons]
    omega
  · have hsteps : 4 * ((i :: place).length - 1) = 4 + 4 * (place.length - 1) := by
      rw [List.length_cons]
      omega
    rw [hsteps, hdrop, h.branch_eq hplace, Expr.isLast_cons hchild hplace]
  · rw [List.length_cons] at hlt
    obtain rfl | hdepth := Nat.eq_or_lt_of_le (Nat.succ_le_of_lt hdepth)
    -- the first four characters belong to the child, the others to the nodes below it
    · have htake : (i :: place).take 1 = [i] := rfl
      rw [htake, Nat.sub_self, Nat.mul_zero, List.drop_zero, ← length_column (e.isLast [i]),
        List.take_left]
    · have hsteps : 4 * (depth - 1) = 4 + 4 * (depth - 1 - 1) := by omega
      have htake : (i :: place).take depth = i :: place.take (depth - 1) := by
        obtain ⟨n, rfl⟩ : ∃ n, depth = n + 1 := ⟨depth - 1, by omega⟩
        rfl
      have hne : place.take (depth - 1) ≠ [] := by
        rw [← List.length_pos_iff, List.length_take]
        omega
      rw [hsteps, hdrop, h.column_eq (depth - 1) (by omega) (by omega), htake,
        Expr.isLast_cons hchild hne]

end Indents

/-- What stands in front of the node at a place, if `lead` stands in front of the root and `margin`
in front of all lines below it. -/
def InFront (lead margin : String) (e : Expr) (place : List Nat) (s : String) : Prop :=
  (place = [] ∧ s = lead) ∨
    (place ≠ [] ∧ ∃ cs, Indents e place cs ∧ s.toList = margin.toList ++ cs)

/-- What stands in front of a node indents it as its place says. -/
theorem InFront.indents {e : Expr} {place : List Nat} {s : String} (h : InFront "" "" e place s) :
    Indents e place s.toList := by
  rcases h with ⟨rfl, rfl⟩ | ⟨-, cs, hcs, htext⟩
  · exact .root e
  · rw [htext]
    exact hcs

/-- What stands in front of a node below a child stands in front of it in the whole tree. -/
theorem InFront.below {e child : Expr} {i : Nat} (hchild : e.children[i]? = some child)
    (lead margin : String) {place : List Nat} {s : String}
    (h : InFront (margin ++ branch (e.isLast [i])) (margin ++ column (e.isLast [i]))
      child place s) :
    InFront lead margin e (i :: place) s := by
  refine .inr ⟨List.cons_ne_nil i place, ?_⟩
  rcases h with ⟨rfl, rfl⟩ | ⟨hplace, cs, hcs, htext⟩
  · exact ⟨_, .single e i, String.toList_append⟩
  · exact ⟨_, hcs.below hchild hplace, by rw [htext, String.toList_append, List.append_assoc]⟩

/-! ### Nodes and lines -/

/-- The nodes of a tree in the order in which they are drawn, each with what stands in front of
it. -/
def rows (lead margin : String) : Expr → List (String × Expr)
  | .join c left right =>
    (lead, .join c left right) :: (rows (margin ++ "├── ") (margin ++ "│   ") left ++
      rows (margin ++ "└── ") (margin ++ "    ") right)
  | .group inner =>
    (lead, .group inner) :: rows (margin ++ "└── ") (margin ++ "    ") inner
  | e => [(lead, e)]

/-- The line of a node. -/
def drawRow (colours : Bool) (row : String × Expr) : Except RenderError String := do
  return row.1 ++ (← label colours row.2)

/-- The lines belong to the nodes, one for each. -/
theorem drawLines_eq (colours : Bool) (lead margin : String) (e : Expr) :
    drawLines colours lead margin e = (rows lead margin e).mapM (drawRow colours) := by
  induction e generalizing lead margin with
  | comparison k op v => simp [drawLines, rows, drawRow]
  | membership k negated vs => simp [drawLines, rows, drawRow]
  | join c left right hl hr => simp [drawLines, rows, drawRow, hl, hr, List.mapM_append]
  | group inner ih => simp [drawLines, rows, drawRow, ih]

/-- The nodes below a child, with their places in the whole tree. -/
theorem forall₂_below {e child : Expr} {i : Nat} (hchild : e.children[i]? = some child)
    (lead margin : String) {rows : List (String × Expr)}
    (h : List.Forall₂ (fun place row => child.node? place = some row.2 ∧
      InFront (margin ++ branch (e.isLast [i])) (margin ++ column (e.isLast [i])) child place row.1)
      child.places rows) :
    List.Forall₂ (fun place row => e.node? place = some row.2 ∧ InFront lead margin e place row.1)
      (child.places.map (i :: ·)) rows := by
  rw [List.forall₂_map_left_iff]
  refine h.imp fun place row hrow => ?_
  obtain ⟨hnode, hfront⟩ := hrow
  exact ⟨(Expr.node?_cons hchild place).trans hnode, hfront.below hchild lead margin⟩

/-- The nodes that are drawn are those at the places of the tree, and in front of each stands what
its place says. -/
theorem forall₂_rows (lead margin : String) (e : Expr) :
    List.Forall₂ (fun place row => e.node? place = some row.2 ∧ InFront lead margin e place row.1)
      e.places (rows lead margin e) := by
  -- by induction on the tree, whose parts have other characters in front of them
  induction e generalizing lead margin with
  | comparison k op v => exact .cons ⟨rfl, .inl ⟨rfl, rfl⟩⟩ .nil
  | membership k negated vs => exact .cons ⟨rfl, .inl ⟨rfl, rfl⟩⟩ .nil
  | join c left right hl hr =>
    have hleft := @forall₂_below (.join c left right) left 0 rfl lead margin _
      (hl (margin ++ "├── ") (margin ++ "│   "))
    have hright := @forall₂_below (.join c left right) right 1 rfl lead margin _
      (hr (margin ++ "└── ") (margin ++ "    "))
    exact .cons ⟨rfl, .inl ⟨rfl, rfl⟩⟩ (List.rel_append hleft hright)
  | group inner ih =>
    have hinner := @forall₂_below (.group inner) inner 0 rfl lead margin _
      (ih (margin ++ "└── ") (margin ++ "    "))
    exact .cons ⟨rfl, .inl ⟨rfl, rfl⟩⟩ hinner

/-- What stands in front of nodes, four characters at a time. -/
def marks : List String := ["├── ", "│   ", "└── ", "    "]

/-- What stands in front of a node is made of the characters in front of the root and below it, and
of those of marks. -/
theorem forall_mem_rows {P : Char → Prop} (hmarks : ∀ mark ∈ marks, FilterText.MadeOf P mark)
    {e : Expr} {lead margin : String} (hlead : FilterText.MadeOf P lead)
    (hmargin : FilterText.MadeOf P margin) :
    ∀ row ∈ rows lead margin e, FilterText.MadeOf P row.1 := by
  have hmark : ∀ {margin : String}, FilterText.MadeOf P margin →
      ∀ mark ∈ marks, FilterText.MadeOf P (margin ++ mark) :=
    fun hmargin mark hmem => FilterText.MadeOf.append hmargin (hmarks mark hmem)
  -- by induction on the tree: each child gets one of the marks behind the margin
  induction e generalizing lead margin with
  | comparison k op v => simpa [rows] using hlead
  | membership k negated vs => simpa [rows] using hlead
  | join c left right hl hr =>
    intro row hrow
    rcases List.mem_cons.1 hrow with rfl | hrow
    · exact hlead
    rcases List.mem_append.1 hrow with hrow | hrow
    · exact hl (hmark hmargin _ (by decide)) (hmark hmargin _ (by decide)) row hrow
    · exact hr (hmark hmargin _ (by decide)) (hmark hmargin _ (by decide)) row hrow
  | group inner ih =>
    intro row hrow
    rcases List.mem_cons.1 hrow with rfl | hrow
    · exact hlead
    · exact ih (hmark hmargin _ (by decide)) (hmark hmargin _ (by decide)) row hrow

/-! ### What a node is drawn as -/

/-- What a connective is drawn as. -/
def word : Connective → String
  | .and => "AND"
  | .or => "OR"

/-- A test is drawn as its canonical spelling. -/
theorem label_test (l : Leaf) : label false l.expr = render .text .standard l.expr := by
  cases l <;> rfl

/-- A connective is drawn as its word. -/
theorem label_join (c : Connective) (left right : Expr) :
    label false (.join c left right) = .ok (word c) := by
  cases c <;> rfl

/-- Parentheses are drawn as a pair of them. -/
theorem label_group (inner : Expr) : label false (.group inner) = .ok "( )" := rfl

/-- What a test is drawn as is read as that test. -/
theorem parse_of_label {l : Leaf} {s : String} (h : label false l.expr = .ok s) :
    ∃ e, Expr.parse s = .ok e ∧ e.ungroupAll = l.expr.mapKeys Key.asRead := by
  rw [label_test, render_eq_ok_iff] at h
  have hungroup : l.expr.ungroupAll = l.expr := by cases l <;> rfl
  have hdepth : l.expr.regroup.depth = 0 := by cases l <;> rfl
  have hheight : l.expr.regroup.height = 1 := by cases l <;> rfl
  rcases parse_of_render rfl h with ⟨e, he, hread, -⟩ | ⟨-, -, hlt⟩ | ⟨-, -, hlt⟩
  · exact ⟨e, he, hread.trans (by rw [hungroup])⟩
  · exact absurd hlt (by rw [hdepth]; decide)
  · exact absurd hlt (by rw [hheight]; decide)

/-- No test is drawn as a connective or as parentheses. -/
theorem not_test_of_mem {l : Leaf} {s : String} (h : label false l.expr = .ok s) :
    s ∉ ["AND", "OR", "( )"] := by
  have hall : ∀ word ∈ ["AND", "OR", "( )"], (Expr.parse word).toOption = none := by
    decide +kernel
  intro hword
  obtain ⟨e, he, -⟩ := parse_of_label h
  have hnone := hall s hword
  rw [he] at hnone
  cases hnone

/-- Trees whose roots are drawn alike: the same test but for needless quotes, the same connective,
or parentheses. -/
inductive SameRoot : Expr → Expr → Prop
  | comparison {k : Key} {op : CompareOp} {v : Value} {e : Expr}
      (same : (Expr.comparison k op v).mapKeys Key.asRead = e.mapKeys Key.asRead) :
      SameRoot (.comparison k op v) e
  | membership {k : Key} {negated : Bool} {vs : ValueList} {e : Expr}
      (same : (Expr.membership k negated vs).mapKeys Key.asRead = e.mapKeys Key.asRead) :
      SameRoot (.membership k negated vs) e
  | join (c : Connective) (left right left' right' : Expr) :
      SameRoot (.join c left right) (.join c left' right')
  | group (inner inner' : Expr) : SameRoot (.group inner) (.group inner')

/-- What is drawn like a test is that test but for needless quotes. -/
theorem mapKeys_eq_of_label {l : Leaf} {e : Expr} {s : String} (h : label false l.expr = .ok s)
    (h' : label false e = .ok s) : l.expr.mapKeys Key.asRead = e.mapKeys Key.asRead := by
  -- two tests of one spelling are read as one test
  have htest : ∀ l' : Leaf, label false l'.expr = .ok s →
      l.expr.mapKeys Key.asRead = l'.expr.mapKeys Key.asRead := by
    intro l' h'
    obtain ⟨t, ht, hread⟩ := parse_of_label h
    obtain ⟨t', ht', hread'⟩ := parse_of_label h'
    rw [ht] at ht'
    cases ht'
    rw [← hread, ← hread']
  cases e with
  | comparison k op v => exact htest (.comparison k op v) h'
  | membership k negated vs => exact htest (.membership k negated vs) h'
  | join c left right =>
    cases (label_join c left right).symm.trans h'
    exact absurd (by cases c <;> decide) (not_test_of_mem h)
  | group inner =>
    cases h'
    exact absurd (by decide) (not_test_of_mem h)

/-- What the root of a tree is drawn as tells what it is. -/
theorem sameRoot_of_label {e e' : Expr} {s : String} (h : label false e = .ok s)
    (h' : label false e' = .ok s) : SameRoot e e' := by
  cases e with
  | comparison k op v => exact .comparison (@mapKeys_eq_of_label (.comparison k op v) _ _ h h')
  | membership k negated vs =>
    exact .membership (@mapKeys_eq_of_label (.membership k negated vs) _ _ h h')
  | join c left right =>
    cases (label_join c left right).symm.trans h
    -- a test is no connective, and no parentheses either
    cases e' with
    | comparison k op v => cases @mapKeys_eq_of_label (.comparison k op v) _ _ h' h
    | membership k negated vs => cases @mapKeys_eq_of_label (.membership k negated vs) _ _ h' h
    | join c' left' right' =>
      have hword : word c = word c' := Except.ok.inj (h'.symm.trans (label_join c' left' right'))
      have hc : c = c' := by
        cases c <;> cases c' <;> first | rfl | exact absurd hword (by decide)
      subst hc
      exact .join c left right left' right'
    | group inner =>
      have hword : word c = "( )" := Except.ok.inj (h'.symm.trans (label_group inner))
      cases c <;> exact absurd hword (by decide)
  | group inner =>
    cases h
    -- the same for parentheses, where the other tree is looked at
    cases e' with
    | comparison k op v =>
      exact absurd (by decide) (@not_test_of_mem (.comparison k op v) _ h')
    | membership k negated vs =>
      exact absurd (by decide) (@not_test_of_mem (.membership k negated vs) _ h')
    | join c left right =>
      have hword : word c = "( )" := Except.ok.inj ((label_join c left right).symm.trans h')
      cases c <;> exact absurd hword (by decide)
    | group inner' => exact .group inner inner'

/-! ### Lines of different trees -/

section

variable {lead margin : String} {ls ls' rest rest' : List String}

/-- The lines of a join are its own line and those of both sides. -/
theorem exists_of_drawLines_join {c : Connective} {left right : Expr}
    (h : drawLines false lead margin (.join c left right) = .ok ls) :
    ∃ upper lower, drawLines false (margin ++ "├── ") (margin ++ "│   ") left = .ok upper ∧
      drawLines false (margin ++ "└── ") (margin ++ "    ") right = .ok lower ∧
      ls = (lead ++ word c) :: (upper ++ lower) := by
  rw [drawLines, label_join] at h
  obtain ⟨own, hown, h⟩ := Rendered.bind_eq_ok h
  obtain ⟨upper, hupper, h⟩ := Rendered.bind_eq_ok h
  obtain ⟨lower, hlower, h⟩ := Rendered.bind_eq_ok h
  cases hown
  cases h
  exact ⟨upper, lower, hupper, hlower, rfl⟩

/-- The lines of a group are its own line and those of what is in it. -/
theorem exists_of_drawLines_group {inner : Expr}
    (h : drawLines false lead margin (.group inner) = .ok ls) :
    ∃ lower, drawLines false (margin ++ "└── ") (margin ++ "    ") inner = .ok lower ∧
      ls = (lead ++ "( )") :: lower := by
  rw [drawLines, label_group] at h
  obtain ⟨own, hown, h⟩ := Rendered.bind_eq_ok h
  obtain ⟨lower, hlower, h⟩ := Rendered.bind_eq_ok h
  cases hown
  cases h
  exact ⟨lower, hlower, rfl⟩

/-- The first line is that of the root. -/
theorem exists_label_of_drawLines {e : Expr} (h : drawLines false lead margin e = .ok ls) :
    ∃ own below, label false e = .ok own ∧ ls = (lead ++ own) :: below := by
  cases e with
  | comparison k op v =>
    obtain ⟨own, hown, h⟩ := Rendered.bind_eq_ok h
    cases h
    exact ⟨own, [], hown, rfl⟩
  | membership k negated vs =>
    obtain ⟨own, hown, h⟩ := Rendered.bind_eq_ok h
    cases h
    exact ⟨own, [], hown, rfl⟩
  | join c left right =>
    obtain ⟨upper, lower, -, -, rfl⟩ := exists_of_drawLines_join h
    exact ⟨word c, upper ++ lower, label_join c left right, rfl⟩
  | group inner =>
    obtain ⟨lower, -, rfl⟩ := exists_of_drawLines_group h
    exact ⟨"( )", lower, rfl, rfl⟩

/-- There is one line for each node. -/
theorem length_drawLines {e : Expr} (h : drawLines false lead margin e = .ok ls) :
    ls.length = e.places.length := by
  rw [drawLines_eq] at h
  rw [← (Dialect.forall₂_of_mapM h).length_eq, (forall₂_rows lead margin e).length_eq]

/-- Drawings that start alike have roots that are alike. -/
theorem sameRoot_of_drawLines {e e' : Expr} (h : drawLines false lead margin e = .ok ls)
    (h' : drawLines false lead margin e' = .ok ls') (heq : ls ++ rest = ls' ++ rest') :
    SameRoot e e' := by
  obtain ⟨own, below, hown, rfl⟩ := exists_label_of_drawLines h
  obtain ⟨own', below', hown', rfl⟩ := exists_label_of_drawLines h'
  have hlabel : own = own' := (String.append_right_inj lead).1 (List.cons.inj heq).1
  exact sameRoot_of_label hown (hlabel ▸ hown')

/-- Lines in front of any others tell which tree they are the lines of. -/
theorem drawLines_inj {e e' : Expr} (h : drawLines false lead margin e = .ok ls)
    (h' : drawLines false lead margin e' = .ok ls') (heq : ls ++ rest = ls' ++ rest') :
    e.mapKeys Key.asRead = e'.mapKeys Key.asRead := by
  -- by induction on the tree, with any lines behind those of the tree
  induction e generalizing e' lead margin ls ls' rest rest' with
  | comparison k op v =>
    cases sameRoot_of_drawLines h h' heq with
    | comparison same => exact same
  | membership k negated vs =>
    cases sameRoot_of_drawLines h h' heq with
    | membership same => exact same
  | join c left right hl hr =>
    cases sameRoot_of_drawLines h h' heq with
    | join c left right left' right' =>
      obtain ⟨upper, lower, hupper, hlower, rfl⟩ := exists_of_drawLines_join h
      obtain ⟨upper', lower', hupper', hlower', rfl⟩ := exists_of_drawLines_join h'
      have hlines : upper ++ (lower ++ rest) = upper' ++ (lower' ++ rest') := by
        simpa using (List.cons.inj heq).2
      have hleft := hl hupper hupper' hlines
      -- trees of one shape have equally many lines, so the right sides start at the same line
      have hlength : upper.length = upper'.length := by
        rw [length_drawLines hupper, length_drawLines hupper',
          ← Expr.places_mapKeys Key.asRead left, hleft, Expr.places_mapKeys]
      have hright := hr hlower hlower' (List.append_inj_right hlines hlength)
      rw [Expr.mapKeys, Expr.mapKeys, hleft, hright]
  | group inner ih =>
    cases sameRoot_of_drawLines h h' heq with
    | group inner inner' =>
      obtain ⟨lower, hlower, rfl⟩ := exists_of_drawLines_group h
      obtain ⟨lower', hlower', rfl⟩ := exists_of_drawLines_group h'
      rw [Expr.mapKeys, Expr.mapKeys, ih hlower hlower' (List.cons.inj heq).2]

end

/-! ### Whole drawings -/

/-- Lists that go together with one list go together. -/
theorem forall₂_comp {α β γ : Type} {R : α → β → Prop} {S : β → γ → Prop} {as : List α}
    {bs : List β} {cs : List γ} (h : List.Forall₂ R as bs) (h' : List.Forall₂ S bs cs) :
    List.Forall₂ (fun a c => ∃ b, R a b ∧ S b c) as cs := by
  induction h generalizing cs with
  | nil =>
    cases h'
    exact .nil
  | cons hab _ ih =>
    cases h' with
    | cons hbc h' => exact .cons ⟨_, hab, hbc⟩ (ih h')

/-- What a node is drawn as is one line. -/
theorem oneLine_label {e : Expr} {s : String} (h : label false e = .ok s) :
    FilterText.OneLine s := by
  have htest : ∀ l : Leaf, label false l.expr = .ok s → FilterText.OneLine s := by
    intro l h
    rw [label_test, render_eq_ok_iff] at h
    exact FilterText.OneLine.render h
  -- a test is drawn as its text, and the other nodes as a word
  cases e with
  | comparison k op v => exact htest (.comparison k op v) h
  | membership k negated vs => exact htest (.membership k negated vs) h
  | join c left right =>
    cases (label_join c left right).symm.trans h
    cases c <;> decide
  | group inner =>
    cases h
    decide

/-- The lines of a drawing are lines of its text. -/
theorem exists_lines_of_drawing {e : Expr} {text : String} (h : drawing false e = .ok text) :
    ∃ ls, drawLines false "" "" e = .ok ls ∧ lines text.toList = ls.map String.toList ∧
      text.toList = (lines text.toList).flatMap fun line => line ++ ['\n'] := by
  obtain ⟨ls, hls, h⟩ := Rendered.bind_eq_ok h
  cases h
  have htext : ("".intercalate (ls.map (· ++ "\n"))).toList =
      (ls.map String.toList).flatMap fun line => line ++ ['\n'] := by
    rw [toList_intercalate_empty, List.flatMap_map, List.flatMap_map]
    simp
  -- neither the marks nor what nodes are drawn as have line breaks
  have honeLine : ∀ line ∈ ls.map String.toList, '\n' ∉ line ∧ '\r' ∉ line := by
    have hrows := hls
    rw [drawLines_eq] at hrows
    have hfront := @forall_mem_rows (fun c => Token.isLineBreak c = false) (by decide) e "" ""
      nofun nofun
    rintro _ hmem
    obtain ⟨line, hline, rfl⟩ := List.mem_map.1 hmem
    obtain ⟨row, hrow, hdraw⟩ := Dialect.exists_of_mem_mapM hrows hline
    obtain ⟨own, hown, hdraw⟩ := Rendered.bind_eq_ok hdraw
    cases hdraw
    have hone : FilterText.OneLine (row.1 ++ own) :=
      FilterText.OneLine.append (hfront row hrow) (oneLine_label hown)
    exact ⟨fun hfeed => absurd (hone _ hfeed) (by decide),
      fun hreturn => absurd (hone _ hreturn) (by decide)⟩
  have hlines : lines ("".intercalate (ls.map (· ++ "\n"))).toList = ls.map String.toList := by
    rw [htext, lines_flatMap honeLine]
  exact ⟨ls, hls, hlines, by rw [hlines, htext]⟩

/-- The line of the node at a place: its indentation and what the node is drawn as. -/
def IsLineOf (e : Expr) (place : List Nat) (line : List Char) : Prop :=
  ∃ node own indent, e.node? place = some node ∧ label false node = .ok own ∧
    Indents e place indent ∧ line = indent ++ own.toList

/-- A tree whose tests can all be written is drawn with one line for each node, in pre-order. Each
line is indented by four characters for each level of depth; the last four of them end in a corner
exactly for last children, and a bar stands below a node that is not the last child of its parent.
Another tree with the same drawing has the same shape, the same tests, and the same keys but for
quotes around names that are no identifiers. -/
theorem drawing_faithful {e : Expr}
    (h : ∀ l ∈ e.leaves, ∃ s, render .text .standard l.expr = .ok s) :
    ∃ text, drawing false e = .ok text ∧
      text.toList = (lines text.toList).flatMap (fun line => line ++ ['\n']) ∧
      List.Forall₂ (IsLineOf e) e.places (lines text.toList) ∧
      (∀ place, place ∈ e.places ↔ (e.node? place).isSome) ∧ e.places.Pairwise (· < ·) ∧
      ∀ e', drawing false e' = .ok text → e.mapKeys Key.asRead = e'.mapKeys Key.asRead := by
  -- the tests can all be written, so the drawing does not fail
  have hnone : failure? (drawing false e) = none := by
    have hlines : failure? (drawLines false "" "" e) = none := by
      rw [failure?_drawLines, List.findSome?_eq_none_iff]
      exact fun l hl => failure?_eq_none_iff.2 (h l hl)
    exact (failure?_map _ _).trans hlines
  obtain ⟨text, htext⟩ := failure?_eq_none_iff.1 hnone
  obtain ⟨ls, hls, hlines, hwhole⟩ := exists_lines_of_drawing htext
  refine ⟨text, htext, hwhole, ?_, fun place => Expr.mem_places_iff, e.pairwise_places, ?_⟩
  -- nodes go with their lines, and places with nodes
  · have hrows := hls
    rw [drawLines_eq] at hrows
    rw [hlines, List.forall₂_map_right_iff]
    refine (forall₂_comp (forall₂_rows "" "" e) (Dialect.forall₂_of_mapM hrows)).imp ?_
    rintro place line ⟨row, ⟨hnode, hfront⟩, hdraw⟩
    obtain ⟨own, hown, hdraw⟩ := Rendered.bind_eq_ok hdraw
    cases hdraw
    exact ⟨row.2, own, row.1.toList, hnode, hown, hfront.indents, String.toList_append⟩
  -- the text determines the lines, which determine the tree
  · intro e' htext'
    obtain ⟨ls', hls', hlines', -⟩ := exists_lines_of_drawing htext'
    have hsame : ls = ls' :=
      List.map_injective_iff.2 (fun _ _ => String.toList_injective) (hlines.symm.trans hlines')
    exact drawLines_inj hls hls' (congrArg (· ++ []) hsame)

/-- A connective, a group with a test and a key that has to be quoted, with one line for each
node. -/
theorem drawing_faithful_quoted_key :
    (∀ l ∈ (Expr.join .or (.group (.comparison (.field "x") .equal (.integer 1)))
        (.membership (.field "y z") false ⟨.integer 2, []⟩)).leaves,
      ∃ s, render .text .standard l.expr = .ok s) ∧
    drawing false (.join .or (.group (.comparison (.field "x") .equal (.integer 1)))
        (.membership (.field "y z") false ⟨.integer 2, []⟩)) =
      .ok "OR\n├── ( )\n│   └── x == 1\n└── \x22y z\x22 IN [2]\n" ∧
    List.Forall₂ (IsLineOf (.join .or (.group (.comparison (.field "x") .equal (.integer 1)))
        (.membership (.field "y z") false ⟨.integer 2, []⟩)))
      [[], [0], [0, 0], [1]]
      (lines "OR\n├── ( )\n│   └── x == 1\n└── \x22y z\x22 IN [2]\n".toList) := by
  have hleaves : ∀ l ∈ (Expr.join .or (.group (.comparison (.field "x") .equal (.integer 1)))
      (.membership (.field "y z") false ⟨.integer 2, []⟩)).leaves,
      ∃ s, render .text .standard l.expr = .ok s := by
    simp only [Expr.leaves, List.cons_append, List.nil_append, List.mem_cons, List.not_mem_nil,
      or_false, forall_eq_or_imp, forall_eq]
    exact ⟨⟨"x == 1", by decide +kernel⟩, ⟨"\x22y z\x22 IN [2]", by decide +kernel⟩⟩
  have hdrawing : drawing false (.join .or (.group (.comparison (.field "x") .equal (.integer 1)))
      (.membership (.field "y z") false ⟨.integer 2, []⟩)) =
      .ok "OR\n├── ( )\n│   └── x == 1\n└── \x22y z\x22 IN [2]\n" := by decide +kernel
  obtain ⟨text, htext, -, hlines, -⟩ := drawing_faithful hleaves
  cases hdrawing.symm.trans htext
  exact ⟨hleaves, hdrawing, hlines⟩

end MetadataFilter.Cli
