import MetadataFilter.Proofs.Grammar.Feed

/-!
# What has been read is derivable

Each reader of `Expr.Parser` takes tokens that the grammar derives for its result: what it started
from is those tokens in front of what it leaves.

## Key results

- `numberValue?_eq_some_iff`: the range checks of numbers are those of the grammar
- `value_sound`, `key_sound`, `predicate_sound`: the parts of a test
- `orExpr_sound`: whole expressions, by induction on the parentheses that may be open
- `filter_sound`: whole filters
-/

namespace MetadataFilter.Expr.Parser

open Feed Grammar

/-- Whatever `r` reads, it reads from tokens that `P` relates to it. -/
def Sound {α : Type} (P : List Token → α → Prop) (r : Reader α) : Prop :=
  ∀ feed x feed', r feed = .ok (x, feed') → ∃ ts, P ts x ∧ feed = prepend ts feed'

/-! ### Values -/

/-- The range checks of numbers are those of the grammar. -/
theorem numberValue?_eq_some_iff {t : Token} {negative : Bool} {v : Value}
    (hk : t.kind = .integer ∨ t.kind = .decimal) :
    numberValue? t.kind negative t.lexeme.toList = some v ↔ Number negative t v := by
  rcases hk with hk | hk
  · simp only [numberValue?, hk, if_true]
    -- the sign counts before the range is checked
    generalize hn : (if negative then -(Text.ofDigits t.lexeme.toList : Int)
      else Text.ofDigits t.lexeme.toList) = n
    constructor
    · intro h
      split at h
      · next hrange =>
        cases h
        refine .integer hk ?_
        -- the bounds of the type, as powers of two
        have hlow : (-2 : Int) ^ 63 ≤ n := hrange.1
        have hhigh : n ≤ (2 : Int) ^ 63 - 1 := hrange.2
        rw [hn, Int64.toInt_ofInt_of_le (by omega) (by omega)]
      · cases h
    · intro h
      cases h with
      | integer _ value =>
        rw [hn] at value
        subst value
        rw [if_pos ⟨Int64.minValue_le_toInt _, Int64.toInt_le _⟩, Int64.ofInt_toInt]
      | decimal kind => rw [hk] at kind; cases kind
  -- a decimal is read in any case, and counts if it is finite
  · simp only [numberValue?, hk, reduceCtorEq, if_false]
    show (if (decimalValue negative t).isFinite = true then some (Value.decimal _) else none) = _ ↔
      _
    constructor
    · intro h
      split at h
      · next hfinite => cases h; exact .decimal hk hfinite
      · cases h
    · intro h
      cases h with
      | integer kind => rw [hk] at kind; cases kind
      | decimal _ finite => rw [if_pos finite]; rfl

/-- What is read as a number is one token, a number with that value. -/
theorem number_sound {negative : Bool} {feed feed' : Feed} {v : Value}
    (h : number negative feed = .ok (v, feed'))
    (hk : feed.current.kind = .integer ∨ feed.current.kind = .decimal) :
    ∃ t, Number negative t v ∧ feed = prepend [t] feed' := by
  obtain ⟨t, next, ht, hv⟩ := bind_eq_ok h
  have hend : feed.current.kind ≠ .endOfInput := by rcases hk with hk | hk <;> simp [hk]
  have hfeed := eq_prepend_of_advance ht hend
  rw [hfeed, current_prepend_cons] at hk
  cases hvalue : numberValue? t.kind negative t.lexeme.toList with
  | none => rw [hvalue] at hv; cases hv
  | some value =>
    rw [hvalue] at hv
    cases hv
    exact ⟨t, (numberValue?_eq_some_iff hk).1 hvalue, hfeed⟩

/-- What is read after a string are strings, joined as the grammar joins them. -/
theorem moreStrings_sound {previous : Token} {feed feed' : Feed} {text : List Char}
    (h : moreStrings previous feed = .ok (text, feed')) :
    ∃ ts, (∀ u ∈ ts, u.kind = .quotedString) ∧ text = joined previous ts ∧
      feed = prepend ts feed' := by
  -- each string becomes the previous one for the seam with the next
  fun_induction moreStrings previous feed generalizing text feed' with
  | case1 => cases h
  | case2 previous feed hk t next ht _ ih =>
    cases hr : moreStrings t next with
    | error e => simp [hr, Except.map] at h
    | ok r =>
      simp only [hr, Except.map, Except.ok.injEq, Prod.mk.injEq] at h
      obtain ⟨rfl, rfl⟩ := h
      obtain ⟨ts, hts, htext, hnext⟩ := ih hr
      have hfeed := eq_prepend_of_advance ht (by simp [hk])
      rw [hfeed, current_prepend_cons] at hk
      refine ⟨t :: ts, ?_, ?_, ?_⟩
      · intro u hu
        rcases List.mem_cons.1 hu with rfl | hu
        · exact hk
        · exact hts u hu
      · rw [joined, htext]
      · simp only [hfeed, hnext, prepend_cons, prepend_nil]
  | case3 => cases h; exact ⟨[], by simp, rfl, rfl⟩

/-- What is read as strings is a constant. -/
theorem strings_sound {feed feed' : Feed} {v : Value} (h : strings feed = .ok (v, feed'))
    (hk : feed.current.kind = .quotedString) :
    ∃ ts, Literal ts v ∧ feed = prepend ts feed' := by
  obtain ⟨t, next, ht, h⟩ := bind_eq_ok h
  obtain ⟨text, last, hmore, h⟩ := bind_eq_ok h
  cases h
  obtain ⟨ts, hts, htext, hnext⟩ := moreStrings_sound hmore
  have hfeed := eq_prepend_of_advance ht (by simp [hk])
  rw [hfeed, current_prepend_cons] at hk
  refine ⟨t :: ts, ?_, ?_⟩
  · rw [htext]; exact .strings hk hts
  · simp only [hfeed, hnext, prepend_cons, prepend_nil]

/-- What is read behind a sign is a number, and the sign was the token in front. -/
theorem signed_sound {negative : Bool} {feed feed' : Feed} {v : Value}
    (h : value.signed negative feed = .ok (v, feed')) (hk : feed.current.kind ≠ .endOfInput) :
    ∃ sign t, sign.kind = feed.current.kind ∧ Number negative t v ∧
      feed = prepend [sign, t] feed' := by
  obtain ⟨sign, next, hsign, h⟩ := bind_eq_ok h
  have hfeed := eq_prepend_of_advance hsign hk
  rw [peek_bind] at h
  -- only a number may follow the sign
  have hnumber : ∃ t, Number negative t v ∧ next = prepend [t] feed' := by
    cases hk : next.current.kind <;> rw [hk] at h
    case integer => exact number_sound h (.inl hk)
    case decimal => exact number_sound h (.inr hk)
    all_goals cases h
  obtain ⟨t, ht, hnext⟩ := hnumber
  refine ⟨sign, t, ?_, ht, ?_⟩
  · rw [hfeed, current_prepend_cons]
  · simp only [hfeed, hnext, prepend_cons, prepend_nil]

/-- What is read as a value is a constant. -/
theorem value_sound : Sound Literal value := by
  intro feed v feed' h
  unfold value at h
  rw [peek_bind] at h
  -- the kind of the next token decides which constant is read
  cases hk : feed.current.kind <;> rw [hk] at h
  case minus =>
    obtain ⟨sign, t, hsign, ht, hfeed⟩ := signed_sound h (by simp [hk])
    exact ⟨[sign, t], .minus (hsign.trans hk) ht, hfeed⟩
  case plus =>
    obtain ⟨sign, t, hsign, ht, hfeed⟩ := signed_sound h (by simp [hk])
    exact ⟨[sign, t], .plus (hsign.trans hk) ht, hfeed⟩
  case integer =>
    obtain ⟨t, ht, hfeed⟩ := number_sound h (.inl hk)
    exact ⟨[t], .unsigned ht, hfeed⟩
  case decimal =>
    obtain ⟨t, ht, hfeed⟩ := number_sound h (.inr hk)
    exact ⟨[t], .unsigned ht, hfeed⟩
  case quotedString => exact strings_sound h hk
  case boolean =>
    obtain ⟨t, next, ht, h⟩ := bind_eq_ok h
    cases h
    have hfeed := eq_prepend_of_advance ht (by simp [hk])
    rw [hfeed, current_prepend_cons] at hk
    exact ⟨[t], .boolean hk, hfeed⟩
  -- no constant starts with any other token
  all_goals cases h

/-! ### Lists, keys and tests -/

/-- The constants after the first one, each behind its comma. -/
theorem moreValues_sound {feed feed' : Feed} {vs : List Value}
    (h : moreValues feed = .ok (vs, feed')) {ts : List Token} {v : Value} (hv : Literal ts v) :
    ∃ us, Literals (ts ++ us) (v :: vs) ∧ feed = prepend us feed' := by
  -- the tokens read so far are generalized, since each comma puts a constant after them
  fun_induction moreValues feed generalizing vs feed' ts v with
  | case1 => cases h
  | case2 => cases h
  | case3 feed hk comma feed1 h1 w feed2 h2 _ ih =>
    cases hr : moreValues feed2 with
    | error e => simp [hr, Except.map] at h
    | ok r =>
      simp only [hr, Except.map, Except.ok.injEq, Prod.mk.injEq] at h
      obtain ⟨rfl, rfl⟩ := h
      obtain ⟨ws, hw, hfeed1⟩ := value_sound _ _ _ h2
      obtain ⟨us, hus, hfeed2⟩ := ih hr hw
      have hfeed := eq_prepend_of_advance h1 (by simp [hk])
      rw [hfeed, current_prepend_cons] at hk
      refine ⟨comma :: (ws ++ us), .more hv hk hus, ?_⟩
      simp only [hfeed, hfeed1, hfeed2, prepend_cons, prepend_append, prepend_nil]
  | case4 => cases h; exact ⟨[], by simpa using .one hv, rfl⟩

/-- What is read as a list are constants in brackets. -/
theorem valueList_sound : Sound Bracketed valueList := by
  intro feed values feed' h
  -- The four parts of a list, each with the tokens it has taken; together they are the tokens in
  -- front.
  obtain ⟨opening, feed1, hopen, h⟩ := bind_eq_ok h
  obtain ⟨first, feed2, hfirst, h⟩ := bind_eq_ok h
  obtain ⟨others, feed3, hothers, h⟩ := bind_eq_ok h
  obtain ⟨closing, feed4, hclose, h⟩ := bind_eq_ok h
  cases h
  obtain ⟨hopenKind, hfeed⟩ := eq_prepend_of_expect hopen (by simp)
  obtain ⟨hcloseKind, hfeed3⟩ := eq_prepend_of_expect hclose (by simp)
  obtain ⟨ts, hts, hfeed1⟩ := value_sound _ _ _ hfirst
  obtain ⟨us, hus, hfeed2⟩ := moreValues_sound hothers hts
  refine ⟨opening :: (ts ++ us) ++ [closing], .mk hopenKind hus hcloseKind, ?_⟩
  simp only [hfeed, hfeed1, hfeed2, hfeed3, List.cons_append, prepend_cons, prepend_append,
    prepend_nil]

/-- What is read as a key is a name. -/
theorem key_sound : Sound Name key := by
  intro feed k feed' h
  unfold key at h
  rw [peek_bind] at h
  dsimp only at h
  -- a string is a key on its own, an identifier may go on with a point
  split at h
  · next hk =>
    obtain ⟨t, next, ht, h⟩ := bind_eq_ok h
    have hfeed := eq_prepend_of_advance ht (by simp [hk])
    rw [hfeed, current_prepend_cons] at hk
    split at h
    · cases h
    · next hempty =>
      cases h
      refine ⟨[t], .quoted hk ?_, hfeed⟩
      simpa using hempty
  -- an identifier alone is a field, and one with a point needs a second identifier
  · obtain ⟨parent, next, hparent, h⟩ := bind_eq_ok h
    obtain ⟨hparentKind, hfeed⟩ := eq_prepend_of_expect hparent (by simp)
    rw [peek_bind] at h
    split at h
    · next hdotKind =>
      obtain ⟨dot, feed2, hdot, h⟩ := bind_eq_ok h
      obtain ⟨child, feed3, hchild, h⟩ := bind_eq_ok h
      cases h
      obtain ⟨hchildKind, hfeed2⟩ := eq_prepend_of_expect hchild (by simp)
      have hnext := eq_prepend_of_advance hdot (by simp [hdotKind])
      rw [hnext, current_prepend_cons] at hdotKind
      refine ⟨[parent, dot, child], .nested hparentKind hdotKind hchildKind, ?_⟩
      simp only [hfeed, hnext, hfeed2, prepend_cons, prepend_nil]
    · cases h
      exact ⟨[parent], .field hparentKind, hfeed⟩

/-- The operator that is chosen by a kind is the one that the grammar spells with it. -/
theorem compareOp?_eq_some_iff {kind : Token.Kind} {op : CompareOp} :
    compareOp? kind = some op ↔ kind = compareKind op := by
  constructor
  · intro h
    unfold compareOp? at h
    split at h <;> cases h <;> rfl
  · rintro rfl
    cases op <;> rfl

/-- The list of a membership test behind its word. -/
theorem membership_sound {k : Key} {negated : Bool} {feed feed' : Feed} {e : Expr}
    (h : predicate.membership k negated feed = .ok (e, feed'))
    (hk : feed.current.kind ≠ .endOfInput) :
    ∃ i vs values, i.kind = feed.current.kind ∧ Bracketed vs values ∧
      e = .membership k negated values ∧ feed = prepend (i :: vs) feed' := by
  obtain ⟨i, next, hi, h⟩ := bind_eq_ok h
  obtain ⟨values, last, hvalues, h⟩ := bind_eq_ok h
  cases h
  have hfeed := eq_prepend_of_advance hi hk
  obtain ⟨vs, hvs, hnext⟩ := valueList_sound _ _ _ hvalues
  refine ⟨i, vs, values, ?_, hvs, rfl, ?_⟩
  · rw [hfeed, current_prepend_cons]
  · simp only [hfeed, hnext, prepend_cons, prepend_nil]

/-- What is read as a predicate makes a test with the name in front of it. -/
theorem predicate_sound {ks : List Token} {k : Key} (name : Name ks k) {feed feed' : Feed}
    {e : Expr} (h : predicate k feed = .ok (e, feed')) :
    ∃ ts, Test (ks ++ ts) e ∧ feed = prepend ts feed' := by
  unfold predicate at h
  rw [peek_bind] at h
  -- An operator makes a comparison.
  cases hop : compareOp? feed.current.kind with
  | some op =>
    simp only [hop] at h
    obtain ⟨o, next, ho, h⟩ := bind_eq_ok h
    obtain ⟨v, last, hv, h⟩ := bind_eq_ok h
    cases h
    have hkind := compareOp?_eq_some_iff.1 hop
    have hfeed := eq_prepend_of_advance ho (by rw [hkind]; cases op <;> simp [compareKind])
    rw [hfeed, current_prepend_cons] at hkind
    obtain ⟨vs, hvs, hnext⟩ := value_sound _ _ _ hv
    refine ⟨o :: vs, .comparison name hkind hvs, ?_⟩
    simp only [hfeed, hnext, prepend_cons, prepend_nil]
  | none =>
    simp only [hop] at h
    -- no comparison: the word that comes next decides
    clear hop
    cases hk : feed.current.kind <;> rw [hk] at h
    case inWord =>
      obtain ⟨i, vs, values, hi, hvs, rfl, hfeed⟩ := membership_sound h (by simp [hk])
      exact ⟨i :: vs, .among name (hi.trans hk) hvs, hfeed⟩
    case ninWord =>
      obtain ⟨n, vs, values, hn, hvs, rfl, hfeed⟩ := membership_sound h (by simp [hk])
      exact ⟨n :: vs, .noneOf name (hn.trans hk) hvs, hfeed⟩
    case notWord =>
      -- NOT is taken before the word after it is looked at
      obtain ⟨n, next, hn, h⟩ := bind_eq_ok h
      have hfeed := eq_prepend_of_advance hn (by simp [hk])
      rw [hfeed, current_prepend_cons] at hk
      rw [peek_bind] at h
      split at h
      · next hin =>
        obtain ⟨i, vs, values, hi, hvs, rfl, hnext⟩ := membership_sound h (by simp [hin])
        refine ⟨n :: i :: vs, .notAmong name hk (hi.trans hin) hvs, ?_⟩
        simp only [hfeed, hnext, prepend_cons, prepend_nil]
      · cases h
    all_goals cases h

/-! ### Expressions -/

variable {limits : Limits}

/-- What is read as parentheses is an expression in parentheses. -/
theorem parenthesized_sound {inner : Option (Reader Node)}
    (hinner : ∀ r ∈ inner, Sound (fun ts node => Derives (.run .or) ts node.expr) r)
    {feed feed' : Feed} {node : Node} (h : parenthesized limits inner feed = .ok (node, feed'))
    (hk : feed.current.kind = .leftParen) :
    ∃ ts, Derives .primary ts node.expr ∧ feed = prepend ts feed' := by
  obtain ⟨opening, feed1, hopen, h⟩ := bind_eq_ok h
  have hfeed := eq_prepend_of_advance hopen (by simp [hk])
  rw [hfeed, current_prepend_cons] at hk
  cases inner with
  | none => cases h
  | some r =>
    obtain ⟨node, feed2, hnode, h⟩ := bind_eq_ok h
    obtain ⟨closing, feed3, hclose, h⟩ := bind_eq_ok h
    obtain ⟨hcloseKind, hfeed2⟩ := eq_prepend_of_expect hclose (by simp)
    obtain ⟨ts, hts, hfeed1⟩ := hinner r rfl _ _ _ hnode
    -- neither limit has been passed, else there would be no result
    split at h
    · cases h
    · split at h
      · cases h
      · cases h
        refine ⟨opening :: ts ++ [closing], .group hk hts hcloseKind, ?_⟩
        simp only [hfeed, hfeed1, hfeed2, List.cons_append, prepend_cons, prepend_append,
          prepend_nil]

/-- What is read as an operand of AND is one. -/
theorem primary_sound {inner : Option (Reader Node)}
    (hinner : ∀ r ∈ inner, Sound (fun ts node => Derives (.run .or) ts node.expr) r) :
    Sound (fun ts node => Derives .primary ts node.expr) (primary limits inner) := by
  -- what starts with a name is a test, whichever kind of name it is
  have test : ∀ (feed : Feed) (node : Node) (feed' : Feed),
      (key >>= fun k => predicate k >>= fun e => pure ⟨e, 0, 1⟩ : Reader Node) feed =
        .ok (node, feed') → ∃ ts, Derives .primary ts node.expr ∧ feed = prepend ts feed' := by
    intro feed node feed' h
    obtain ⟨k, next, hk, h⟩ := bind_eq_ok h
    obtain ⟨e, last, he, h⟩ := bind_eq_ok h
    cases h
    obtain ⟨ks, name, hfeed⟩ := key_sound _ _ _ hk
    obtain ⟨ts, hts, hnext⟩ := predicate_sound name he
    exact ⟨ks ++ ts, .test hts, by rw [hfeed, hnext, prepend_append]⟩
  intro feed node feed' h
  unfold primary at h
  rw [peek_bind] at h
  cases hk : feed.current.kind <;> rw [hk] at h
  case leftParen => exact parenthesized_sound hinner h hk
  case identifier => exact test _ _ _ h
  case quotedString => exact test _ _ _ h
  all_goals cases h

/-- A run goes on from the tokens of the operands that have been read. -/
theorem moreOperands_sound {c : Connective} {operand : Reader Node}
    (hoperand : Sound (fun ts node => Derives (operandLevel c) ts node.expr) operand)
    {deepest : Nat} {node node' : Node} {feed feed' : Feed}
    (h : moreOperands limits c operand deepest node feed = .ok (node', feed')) {ts : List Token}
    (hts : Derives (.run c) ts node.expr) :
    ∃ us, Derives (.run c) (ts ++ us) node'.expr ∧ feed = prepend us feed' := by
  -- every operand makes the run higher, and no run passes the limit
  induction hm : limits.height - node.height using Nat.strongRecOn
    generalizing deepest node feed ts with
  | ind m ih =>
    rw [moreOperands, peek_bind] at h
    split at h
    · next hk =>
      obtain ⟨t, feed1, ht, h⟩ := bind_eq_ok h
      obtain ⟨right, feed2, hright, h⟩ := bind_eq_ok h
      have hfeed := eq_prepend_of_advance ht (by rw [hk]; cases c <;> simp [connectiveKind])
      rw [hfeed, current_prepend_cons] at hk
      obtain ⟨us, hus, hfeed1⟩ := hoperand _ _ _ hright
      simp only at h
      split at h
      · cases h
      · split at h
        · cases h
        -- the run with its new operand is within the limits, so it may go on
        · next hheight =>
          obtain ⟨ws, hws, hfeed2⟩ := ih _ (by simp only; omega) h (.join hts hk hus) rfl
          refine ⟨t :: us ++ ws, ?_, ?_⟩
          · rw [← List.append_assoc]; exact hws
          · simp only [hfeed, hfeed1, hfeed2, List.cons_append, prepend_cons, prepend_append,
              prepend_nil]
    · cases h
      exact ⟨[], by simpa using hts, rfl⟩

/-- What is read as a run is one. -/
theorem chain_sound {c : Connective} {operand : Reader Node}
    (hoperand : Sound (fun ts node => Derives (operandLevel c) ts node.expr) operand) :
    Sound (fun ts node => Derives (.run c) ts node.expr) (chain limits c operand) := by
  intro feed node feed' h
  obtain ⟨first, next, hfirst, h⟩ := bind_eq_ok h
  obtain ⟨ts, hts, hfeed⟩ := hoperand _ _ _ hfirst
  obtain ⟨us, hus, hnext⟩ := moreOperands_sound hoperand h (.operand hts)
  exact ⟨ts ++ us, hus, by rw [hfeed, hnext, prepend_append]⟩

/-- What is read as an expression is one, whatever the room for parentheses. -/
theorem orExpr_sound (room : Nat) :
    Sound (fun ts node => Derives (.run .or) ts node.expr) (orExpr limits room) := by
  induction room with
  | zero =>
    exact chain_sound (chain_sound (primary_sound (by simp)))
  | succ room ih =>
    refine chain_sound (chain_sound (primary_sound ?_))
    intro r hr
    cases hr
    exact ih

/-- A whole filter: nothing but its end is left. -/
theorem filter_sound {feed feed' : Feed} {node : Node}
    (h : filter limits feed = .ok (node, feed')) :
    ∃ opening ts, opening.kind = .whereWord ∧ Derives (.run .or) ts node.expr ∧
      feed = prepend (opening :: ts) feed' ∧ feed'.current.kind = .endOfInput := by
  obtain ⟨opening, feed1, hopen, h⟩ := bind_eq_ok h
  obtain ⟨node, feed2, hnode, h⟩ := bind_eq_ok h
  rw [peek_bind] at h
  split at h
  · next hend =>
    cases h
    obtain ⟨hkind, hfeed⟩ := eq_prepend_of_expect hopen (by simp)
    obtain ⟨ts, hts, hfeed1⟩ := orExpr_sound _ _ _ _ hnode
    exact ⟨opening, ts, hkind, hts, by simp only [hfeed, hfeed1, prepend_cons, prepend_nil], hend⟩
  · cases h

end MetadataFilter.Expr.Parser
