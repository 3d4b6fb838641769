import MetadataFilter.Proofs.Grammar.Parse
import MetadataFilter.Proofs.Grammar.Recognition

/-!
# Filters with a place for a constant

A constant stands alone in a comparison or among others in a list. A truth value can stand nowhere
else, so its token marks the place: what is around it are the tokens around any constant that can
stand there, and the tree is the same but for the constant.

## Key results

- `ValueContext.depth_fill`, `ValueContext.height_fill`: the constant does not count for the size
- `Derives.exists_fills`: any constant can stand in place of a truth value
- `Derives.exists_context`: a truth value can stand in place of any constant
-/

namespace MetadataFilter

/-- A filter with a place for a constant. -/
inductive ValueContext where
  /-- The constant of a comparison. -/
  | comparison (key : Key) (op : CompareOp)
  /-- A constant of a list, with those in front of it and behind it. -/
  | member (key : Key) (negated : Bool) (front back : List Value)
  | onLeft (connective : Connective) (context : ValueContext) (right : Expr)
  | onRight (connective : Connective) (left : Expr) (context : ValueContext)
  | group (context : ValueContext)

namespace ValueContext

/-- The values `front`, then `v`, then `back`. -/
def listOf (front : List Value) (v : Value) (back : List Value) : ValueList :=
  match front with
  | [] => ⟨v, back⟩
  | w :: front => ⟨w, front ++ v :: back⟩

/-- The filter with a constant at the place. -/
def fill (v : Value) : ValueContext → Expr
  | comparison key op => .comparison key op v
  | member key negated front back => .membership key negated (listOf front v back)
  | onLeft c context right => .join c (context.fill v) right
  | onRight c left context => .join c left (context.fill v)
  | group context => .group (context.fill v)

/-- The size of the filter around the place does not depend on the constant. -/
theorem depthAfter_fill (context : ValueContext) (v w : Value) (run : Option Connective) :
    (context.fill v).depthAfter run = (context.fill w).depthAfter run := by
  induction context generalizing run with
  | comparison | member => rfl
  | onLeft c context right ih => simp only [fill, Expr.depthAfter, ih]
  | onRight c left context ih => simp only [fill, Expr.depthAfter, ih]
  | group context ih => simp only [fill, Expr.depthAfter, ih]

/-- Nor does its depth. -/
theorem depth_fill (context : ValueContext) (v w : Value) :
    (context.fill v).depth = (context.fill w).depth :=
  context.depthAfter_fill v w none

/-- Nor does its height. -/
theorem height_fill (context : ValueContext) (v w : Value) :
    (context.fill v).height = (context.fill w).height := by
  induction context with
  | comparison | member => rfl
  | onLeft c context right ih => simp only [fill, Expr.height, ih]
  | onRight c left context ih => simp only [fill, Expr.height, ih]
  | group context ih => simp only [fill, Expr.height, ih]

end ValueContext

namespace Grammar

/-! ### Where one of several tokens stands -/

section

variable {a b t : Token} {as bs xs ys : List Token}

/-- In a row of tokens around `a`, a token other than `a` is in front of it or behind it. -/
theorem append_cons_cases (h : as ++ a :: bs = xs ++ t :: ys) (hne : a ≠ t) :
    (∃ zs, as = xs ++ t :: zs ∧ ys = zs ++ a :: bs) ∨
      ∃ zs, xs = as ++ a :: zs ∧ bs = zs ++ t :: ys := by
  -- The two ways to split one row of tokens overlap on one side or the other.
  rcases List.append_eq_append_iff.1 h with ⟨zs, rfl, hzs⟩ | ⟨zs, rfl, hzs⟩
  · cases zs with
    | nil =>
      injection hzs with ha
      exact absurd ha hne
    | cons z zs =>
      injection hzs with hz hbs
      subst hz
      exact .inr ⟨zs, rfl, hbs⟩
  · cases zs with
    | nil =>
      injection hzs with ha
      exact absurd ha.symm hne
    | cons z zs =>
      injection hzs with hz hys
      subst hz
      exact .inl ⟨zs, rfl, hys⟩

/-- Between two tokens, a token other than the two is inside. -/
theorem cons_concat_cases (h : a :: as ++ [b] = xs ++ t :: ys) (ha : a ≠ t) (hb : b ≠ t) :
    ∃ zs ws, xs = a :: zs ∧ as = zs ++ t :: ws ∧ ys = ws ++ [b] := by
  rcases append_cons_cases h hb with ⟨ws, has, rfl⟩ | ⟨zs, -, hzs⟩
  · cases xs with
    | nil =>
      injection has with ha'
      exact absurd ha' ha
    | cons x zs =>
      injection has with hx has
      subst hx
      exact ⟨zs, ws, rfl, has, rfl⟩
  · cases zs <;> cases hzs

end

/-! ### Any constant in place of a truth value -/

/-- Between the tokens `xs` and `ys` any constant can stand, and `fill` says what the tokens stand
for then. No string comes next, which a text value would go on with. -/
structure Fills {α : Type} (P : List Token → α → Prop) (xs ys : List Token) (fill : Value → α) :
    Prop where
  literal : ∀ {us : List Token} {v : Value}, Literal us v → P (xs ++ us ++ ys) (fill v)
  stops : ∀ u ∈ ys.head?, u.kind ≠ .quotedString

section

variable {t : Token} {xs ys : List Token}

/-- The truth value that a token stands for. -/
def truthOf (t : Token) : Value := .boolean (t.lexeme.map Char.toLower = "true")

/-- Tokens of different kinds are different. -/
theorem ne_of_kind {a t : Token} {kind : Token.Kind} (ha : a.kind = kind) (ht : t.kind = .boolean)
    (h : kind ≠ .boolean) : a ≠ t := by
  rintro rfl
  exact h (ha.symm.trans ht)

/-- A truth value is a constant of its own, and stands in no other one. -/
theorem Literal.boolean_or {ts : List Token} {v : Value} (h : Literal ts v) :
    (∃ u, ts = [u] ∧ v = truthOf u) ∨ ∀ u ∈ ts, u.kind ≠ .boolean := by
  have hnumber : ∀ {negative : Bool} {u : Token} {v : Value}, Number negative u v →
      u.kind ≠ .boolean := by
    intro negative u v h
    rcases h.kind_eq with hk | hk <;> simp [hk]
  -- Only one form of a constant has a token of this kind.
  cases h with
  | unsigned number =>
    right
    simpa using hnumber number
  | plus kind number | minus kind number =>
    right
    simpa [kind] using hnumber number
  | strings first others =>
    right
    intro u hu
    rcases List.mem_cons.1 hu with rfl | hu
    · simp [first]
    · simp [others u hu]
  | boolean kind => exact .inl ⟨_, rfl, rfl⟩

/-- A constant with a truth value among its tokens is that truth value. -/
theorem Literal.eq_of_boolean (ht : t.kind = .boolean) {v : Value}
    (h : Literal (xs ++ t :: ys) v) : xs = [] ∧ ys = [] ∧ v = truthOf t := by
  rcases h.boolean_or with ⟨u, hu, hv⟩ | hnone
  · cases xs with
    | nil =>
      cases hu
      exact ⟨rfl, rfl, hv⟩
    | cons x xs =>
      injection hu with _ hxs
      simp at hxs
  · exact absurd ht (hnone t (by simp))

/-- The tokens of a name are no truth values. -/
theorem Name.kind_ne {ks : List Token} {k : Key} (h : Name ks k) :
    ∀ u ∈ ks, u.kind ≠ .boolean := by
  cases h with
  | field kind | quoted kind => simp [kind]
  | nested parent_kind dot_kind child_kind => simp [parent_kind, dot_kind, child_kind]

/-- Constants around a truth value are constants around any constant. -/
theorem Literals.exists_fills (ht : t.kind = .boolean) {vs : List Value}
    (h : Literals (xs ++ t :: ys) vs) :
    ∃ front back, vs = front ++ truthOf t :: back ∧
      Fills Literals xs ys fun v => front ++ v :: back := by
  generalize hts : xs ++ t :: ys = ts at h
  -- The induction is on the constants; the token is in the first one or behind its comma.
  induction h generalizing xs with
  | one literal =>
    subst hts
    obtain ⟨rfl, rfl, rfl⟩ := literal.eq_of_boolean ht
    refine ⟨[], [], rfl, fun {us v} hv => ?_, by simp⟩
    rw [List.nil_append, List.append_nil]
    exact .one hv
  | @more ts us v vs comma literal kind others ih =>
    rcases append_cons_cases hts.symm (ne_of_kind kind ht (by simp)) with
      ⟨zs, rfl, rfl⟩ | ⟨zs, rfl, rfl⟩
    -- the first constant, or one of the others
    · obtain ⟨rfl, rfl, rfl⟩ := literal.eq_of_boolean ht
      refine ⟨[], vs, rfl, fun {us' v} hv => ?_, by simp [kind]⟩
      exact .more hv kind others
    · obtain ⟨front, back, rfl, hfills⟩ := ih rfl
      refine ⟨v :: front, back, rfl, fun {us' w} hw => ?_, hfills.stops⟩
      rw [List.append_assoc ts, List.append_assoc ts]
      exact .more literal kind (hfills.literal hw)

/-- Constants in brackets are the first one and the others. -/
theorem Literals.bracketed {ts : List Token} {opening closing : Token} {front back : List Value}
    {v : Value} (h : Literals ts (front ++ v :: back)) (hopen : opening.kind = .leftBracket)
    (hclose : closing.kind = .rightBracket) :
    Bracketed (opening :: ts ++ [closing]) (ValueContext.listOf front v back) := by
  cases front with
  | nil => exact .mk hopen h hclose
  | cons w front => exact .mk hopen h hclose

/-- A list around a truth value is a list around any constant. -/
theorem Bracketed.exists_fills (ht : t.kind = .boolean) {values : ValueList}
    (h : Bracketed (xs ++ t :: ys) values) :
    ∃ front back, values = ValueContext.listOf front (truthOf t) back ∧
      Fills Bracketed xs ys fun v => ValueContext.listOf front v back := by
  generalize hts : xs ++ t :: ys = ts at h
  cases h with
  | @mk ts opening closing first others open_kind values close_kind =>
    -- the value is not one of the brackets, so it stands between them
    obtain ⟨zs, ws, rfl, rfl, rfl⟩ := cons_concat_cases hts.symm
      (ne_of_kind open_kind ht (by simp)) (ne_of_kind close_kind ht (by simp))
    obtain ⟨front, back, hvalues, hfills⟩ := values.exists_fills ht
    refine ⟨front, back, ?_, fun {us v} hv => ?_, ?_⟩
    · cases front <;> cases hvalues <;> rfl
    · have hbracketed := (hfills.literal hv).bracketed open_kind close_kind
      simpa using hbracketed
    · cases ws with
      | nil => simp [close_kind]
      | cons w ws => exact hfills.stops

/-- The list of a membership test, behind the tokens `ks`. -/
theorem Fills.member {k : Key} {negated : Bool} {front back : List Value} (ks : List Token)
    (h : Fills Bracketed xs ys fun v => ValueContext.listOf front v back)
    (htest : ∀ {vs : List Token} {values : ValueList}, Bracketed vs values →
      Test (ks ++ vs) (.membership k negated values)) :
    Fills Test (ks ++ xs) ys fun v => (ValueContext.member k negated front back).fill v := by
  refine ⟨fun {us v} hv => ?_, h.stops⟩
  rw [List.append_assoc ks, List.append_assoc ks]
  exact htest (h.literal hv)

/-- A test around a truth value is a test around any constant. -/
theorem Test.exists_fills (ht : t.kind = .boolean) {e : Expr} (h : Test (xs ++ t :: ys) e) :
    ∃ context : ValueContext, e = context.fill (truthOf t) ∧
      Fills Test xs ys fun v => context.fill v := by
  generalize hts : xs ++ t :: ys = ts at h
  -- the token is none of those of the name, so that it is behind the operator
  have hbehind : ∀ {ks vs : List Token} {k : Key} {o : Token}, Name ks k → o.kind ≠ .boolean →
      ks ++ o :: vs = xs ++ t :: ys → ∃ zs, xs = ks ++ o :: zs ∧ vs = zs ++ t :: ys := by
    intro ks vs k o hname ho hsplit
    rcases append_cons_cases hsplit (ne_of_kind rfl ht ho) with ⟨zs, rfl, -⟩ | hinside
    · exact absurd ht (hname.kind_ne t (by simp))
    · exact hinside
  -- In each test the token stands behind the words, in the constant or in the list.
  cases h with
  | @comparison ks vs k v o op name kind literal =>
    obtain ⟨zs, rfl, rfl⟩ :=
      hbehind name (by rw [kind]; cases op <;> simp [compareKind]) hts.symm
    -- a truth value is a constant of one token, so nothing stands around it
    obtain ⟨rfl, rfl, rfl⟩ := literal.eq_of_boolean ht
    refine ⟨.comparison k op, rfl, fun {us v} hv => ?_, by simp⟩
    rw [List.append_nil, List.append_assoc]
    exact .comparison name kind hv
  | @among ks vs k values i name kind list =>
    obtain ⟨zs, rfl, rfl⟩ := hbehind name (by simp [kind]) hts.symm
    obtain ⟨front, back, rfl, hfills⟩ := list.exists_fills ht
    rw [List.append_cons ks]
    refine ⟨.member k false front back, rfl, hfills.member (ks ++ [i]) fun hlist => ?_⟩
    rw [← List.append_cons]
    exact .among name kind hlist
  | @notAmong ks vs k values n i name not_kind in_kind list =>
    obtain ⟨zs, rfl, hzs⟩ := hbehind name (by simp [not_kind]) hts.symm
    cases zs with
    -- the token is not the second word
    | nil =>
      injection hzs with hi
      exact absurd hi (ne_of_kind in_kind ht (by simp))
    | cons z zs =>
      injection hzs with hz hvs
      subst hz hvs
      obtain ⟨front, back, rfl, hfills⟩ := list.exists_fills ht
      rw [List.append_cons ks, List.append_cons (ks ++ [n])]
      refine ⟨.member k true front back, rfl, hfills.member (ks ++ [n] ++ [i]) fun hlist => ?_⟩
      rw [← List.append_cons, ← List.append_cons]
      exact .notAmong name not_kind in_kind hlist
  | @noneOf ks vs k values n name kind list =>
    obtain ⟨zs, rfl, rfl⟩ := hbehind name (by simp [kind]) hts.symm
    obtain ⟨front, back, rfl, hfills⟩ := list.exists_fills ht
    rw [List.append_cons ks]
    refine ⟨.member k true front back, rfl, hfills.member (ks ++ [n]) fun hlist => ?_⟩
    rw [← List.append_cons]
    exact .noneOf name kind hlist

/-- The tree of tokens around a truth value is that of a filter with a place for a constant. -/
theorem Derives.exists_fills (ht : t.kind = .boolean) {level : Level} {e : Expr}
    (h : Derives level (xs ++ t :: ys) e) :
    ∃ context : ValueContext, e = context.fill (truthOf t) ∧
      Fills (Derives level) xs ys fun v => context.fill v := by
  generalize hts : xs ++ t :: ys = ts at h
  -- The induction is on the derivation, and the token is on one side of each production.
  induction h generalizing xs ys with
  | test test =>
    subst hts
    obtain ⟨context, rfl, hfills⟩ := test.exists_fills ht
    exact ⟨context, rfl, fun hv => .test (hfills.literal hv), hfills.stops⟩
  | @group ts e opening closing open_kind inner close_kind ih =>
    -- neither of the parentheses is the token
    obtain ⟨zs, ws, rfl, rfl, rfl⟩ := cons_concat_cases hts.symm
      (ne_of_kind open_kind ht (by simp)) (ne_of_kind close_kind ht (by simp))
    obtain ⟨context, rfl, hfills⟩ := ih rfl
    refine ⟨.group context, rfl, fun {us v} hv => ?_, ?_⟩
    · have hgroup : Derives .primary (opening :: (zs ++ us ++ ws) ++ [closing])
          ((ValueContext.group context).fill v) :=
        .group open_kind (hfills.literal hv) close_kind
      simpa using hgroup
    · cases ws with
      | nil => simp [close_kind]
      | cons w ws => exact hfills.stops
  | operand _ ih =>
    obtain ⟨context, rfl, hfills⟩ := ih hts
    exact ⟨context, rfl, fun hv => .operand (hfills.literal hv), hfills.stops⟩
  | @join c ts us left right o run kind operand ihRun ihOperand =>
    -- the connective is not the token, which is on one side of it
    have hconnective : o.kind ≠ .boolean := by
      rw [kind]
      cases c <;> simp [Expr.Parser.connectiveKind]
    rcases append_cons_cases hts.symm (ne_of_kind rfl ht hconnective) with
      ⟨zs, rfl, rfl⟩ | ⟨zs, rfl, rfl⟩
    -- in the run so far, or in its last operand
    · obtain ⟨context, rfl, hfills⟩ := ihRun rfl
      refine ⟨.onLeft c context right, rfl, fun {us' v} hv => ?_, ?_⟩
      · rw [← List.append_assoc]
        exact .join (hfills.literal hv) kind operand
      · cases zs with
        | nil =>
          rintro _ ⟨⟩
          rw [kind]
          cases c <;> simp [Expr.Parser.connectiveKind]
        | cons z zs => exact hfills.stops
    · obtain ⟨context, rfl, hfills⟩ := ihOperand rfl
      refine ⟨.onRight c left context, rfl, fun {us' v} hv => ?_, hfills.stops⟩
      rw [List.append_assoc ts, List.append_assoc ts]
      exact .join run kind (hfills.literal hv)

/-! ### A truth value in place of any constant -/

/-- A truth value leads on from a place where a constant has to come, and from nowhere else. -/
theorem State.eq_of_step?_boolean {s s' : State} (ht : t.kind = .boolean)
    (h : s.step? t = some s') :
    ∃ inList groups, s = ⟨.value inList, groups⟩ ∧ s' = ⟨.ended inList, groups⟩ := by
  have hnext := State.next_of_next? (State.step?_eq_some_iff.1 h).2
  generalize t.kind = kind at ht hnext
  cases hnext with
  | boolean => exact ⟨_, _, rfl, rfl⟩
  | comparison named op => cases op <;> cases ht
  | connective ends c => cases c <;> cases ht
  | number number | signed number => rcases number with rfl | rfl <;> cases ht
  | _ => cases ht

/-- Behind a constant it makes no difference which constant it is, unless a string comes next. -/
theorem State.Over.run?_eq {inList : Bool} {groups : Nat} {s : State} {ts : List Token}
    (h : State.Over inList groups s) (hne : ts ≠ []) (hts : ∀ u ∈ ts.head?, u.kind ≠ .quotedString) :
    s.run? ts = (⟨.ended inList, groups⟩ : State).run? ts := by
  cases ts with
  | nil => exact absurd rfl hne
  | cons u ts =>
    have hk := hts u rfl
    have hended : State.Over inList groups ⟨.ended inList, groups⟩ := .ended
    have hstep : s.step? u = (⟨.ended inList, groups⟩ : State).step? u := by
      unfold State.step?
      rw [h.admits, hended.admits, h.next?_eq hk, hended.next?_eq hk]
    rw [State.run?_cons, State.run?_cons, hstep]

/-- Where a truth value can stand, every constant stands at a place for a constant. -/
theorem Derives.exists_context {us : List Token} {opening : Token} {v : Value} {e : Expr}
    (ht : t.kind = .boolean) (hopen : opening.kind = .whereWord)
    (hplace : Viable (opening :: xs ++ [t])) (hus : Literal us v)
    (hys : ∀ y ∈ ys.head?, y.kind ≠ .quotedString)
    (h : Derives (.run .or) (xs ++ us ++ ys) e) :
    ∃ context : ValueContext, e = context.fill v ∧
      Fills (Derives (.run .or)) xs ys fun v => context.fill v := by
  -- the tokens in front lead to a place where a constant has to come
  obtain ⟨s', hplace⟩ := Option.isSome_iff_exists.1 ((viable_iff _).1 hplace)
  obtain ⟨s, hfront, -⟩ := State.exists_of_run?_append hplace
  have hstep : s.step? t = some s' := (State.run?_concat_of_eq hfront).symm.trans hplace
  obtain ⟨inList, groups, rfl, rfl⟩ := State.eq_of_step?_boolean ht hstep
  obtain ⟨behind, hrun, hover⟩ := @hus.run? inList groups
  -- and what follows the constant can follow a truth value
  let closing : Token := .endOfInput .start
  have hclose : closing.kind = .endOfInput := rfl
  have hwhole := (Sentence.mk hopen h hclose).run?
  have hend : ∀ u ∈ (ys ++ [closing]).head?, u.kind ≠ .quotedString := by
    cases ys with
    | nil => simp [hclose]
    | cons y ys => exact hys
  rw [show opening :: (xs ++ us ++ ys) ++ [closing] = (opening :: xs) ++ (us ++ (ys ++ [closing]))
      by simp, State.run?_append_of_eq hfront, State.run?_append_of_eq hrun,
    hover.run?_eq (by simp) hend] at hwhole
  have htruth : State.start.run? (opening :: (xs ++ t :: ys) ++ [closing]) = some State.finish := by
    rw [show opening :: (xs ++ t :: ys) ++ [closing] = opening :: xs ++ [t] ++ (ys ++ [closing])
        by simp, State.run?_append_of_eq hplace, hwhole]
  obtain ⟨e', hsentence⟩ := (run?_eq_finish_iff _).1 htruth
  obtain ⟨context, rfl, hfills⟩ := hsentence.derives.exists_fills ht
  exact ⟨context, Sentence.unique (.mk hopen h hclose) (.mk hopen (hfills.literal hus) hclose),
    hfills⟩

end

end Grammar

end MetadataFilter
