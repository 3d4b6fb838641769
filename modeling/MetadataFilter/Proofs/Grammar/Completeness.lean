import MetadataFilter.Proofs.Expr.Size
import MetadataFilter.Proofs.Grammar.Soundness

/-!
# What is derivable is read

Tokens that the grammar derives are read in front of anything that does not carry them on, unless a
limit is passed. `Outcome` says exactly when that is: the result is an error about depth only if the
tree is too deep, and one about size only if it is too high.

## Key results

- `value_prepend`, `key_prepend`, `valueList_prepend`: the parts of a test
- `outcome_of_derives`: expressions of every level, by induction on the derivation
- `outcome_filter`, `filter_of_derives`: whole filters
-/

namespace MetadataFilter

namespace Expr.Parser

open Feed Grammar

/-! ### Values -/

/-- A number is read whatever follows it. -/
theorem number_prepend {negative : Bool} {t : Token} {v : Value} (h : Number negative t v)
    (feed : Feed) : number negative (prepend [t] feed) = .ok (v, feed) := by
  have hk : t.kind = .integer ∨ t.kind = .decimal := by
    cases h with
    | integer kind => exact .inl kind
    | decimal kind => exact .inr kind
  unfold number
  rw [advance_bind, (numberValue?_eq_some_iff hk).2 h]
  rfl

/-- A number with its sign is read whatever follows it. -/
theorem signed_prepend {negative : Bool} {sign t : Token} {v : Value} (h : Number negative t v)
    (feed : Feed) : value.signed negative (prepend [sign, t] feed) = .ok (v, feed) := by
  unfold value.signed
  rw [advance_bind, peek_bind, current_prepend_cons]
  cases h with
  | integer kind value => rw [kind]; exact number_prepend (.integer kind value) feed
  | decimal kind finite => rw [kind]; exact number_prepend (.decimal kind finite) feed

/-- Where no string follows, no more strings are read. -/
theorem moreStrings_of_ne {previous : Token} {feed : Feed}
    (h : feed.current.kind ≠ .quotedString) : moreStrings previous feed = .ok ([], feed) := by
  rw [moreStrings, dif_neg h]

/-- A string that follows adds its characters, and what stands at the seam, in front of those of
the others. -/
theorem moreStrings_cons {previous t : Token} (ts : List Token) (feed : Feed)
    (h : t.kind = .quotedString) :
    moreStrings previous (prepend (t :: ts) feed) =
      (moreStrings t (prepend ts feed)).map fun (text, rest) =>
        (seam previous t ++ Text.unquote t.lexeme.toList ++ text, rest) := by
  rw [moreStrings, dif_pos (by rwa [current_prepend_cons])]
  split
  · next e he => rw [advance_prepend] at he; cases he
  · next token rest ht => rw [advance_prepend] at ht; cases ht; rfl

/-- All strings in a row are read and joined. -/
theorem moreStrings_prepend {ts : List Token} (hts : ∀ u ∈ ts, u.kind = .quotedString)
    {feed : Feed} (h : feed.current.kind ≠ .quotedString) (previous : Token) :
    moreStrings previous (prepend ts feed) = .ok (joined previous ts, feed) := by
  induction ts generalizing previous with
  | nil => exact moreStrings_of_ne h
  | cons t ts ih =>
    rw [moreStrings_cons ts feed (hts t (by simp)), ih (fun u hu => hts u (by simp [hu]))]
    rfl

/-- A constant is read unless a string after it carries it on. -/
theorem value_prepend {ts : List Token} {v : Value} (h : Literal ts v) {feed : Feed}
    (hstop : feed.current.kind ≠ .quotedString) : value (prepend ts feed) = .ok (v, feed) := by
  unfold value
  rw [peek_bind]
  -- One production after the other; in all but one the first token says which it is.
  cases h with
  | unsigned number =>
    rw [current_prepend_cons]
    cases number with
    | integer kind value => rw [kind]; exact number_prepend (.integer kind value) feed
    | decimal kind finite => rw [kind]; exact number_prepend (.decimal kind finite) feed
  | plus kind number => rw [current_prepend_cons, kind]; exact signed_prepend number feed
  | minus kind number => rw [current_prepend_cons, kind]; exact signed_prepend number feed
  -- the first string is taken, and then all that follow it
  | @strings t ts first others =>
    rw [current_prepend_cons, first]
    show strings (prepend (t :: ts) feed) = _
    unfold strings
    rw [advance_bind, bind_of_ok (moreStrings_prepend others hstop t)]
    rfl
  | boolean kind =>
    rw [current_prepend_cons, kind]
    exact advance_bind _ _ _ _

/-! ### Lists, keys and tests -/

/-- Where no comma follows, no more values are read. -/
theorem moreValues_of_ne {feed : Feed} (h : feed.current.kind ≠ .comma) :
    moreValues feed = .ok ([], feed) := by
  rw [moreValues, dif_neg h]

/-- A value behind a comma is read in front of the others. -/
theorem moreValues_cons {comma : Token} {ts : List Token} {feed next : Feed} {v : Value}
    (h : comma.kind = .comma) (hv : value (prepend ts feed) = .ok (v, next)) :
    moreValues (prepend (comma :: ts) feed) =
      (moreValues next).map fun (vs, rest) => (v :: vs, rest) := by
  rw [moreValues, dif_pos (by rwa [current_prepend_cons])]
  split
  · next e he => rw [advance_prepend] at he; cases he
  · next t rest ht =>
    rw [advance_prepend] at ht
    cases ht
    split
    · next e he => rw [hv] at he; cases he
    · next w rest' hw => rw [hv] at hw; cases hw; rfl

/-- Constants with commas between them are read up to what follows the last of them. -/
theorem moreValues_prepend {ts : List Token} {vs : List Value} (h : Literals ts vs) {feed : Feed}
    (hcomma : feed.current.kind ≠ .comma) (hstring : feed.current.kind ≠ .quotedString) :
    ∃ first others next, vs = first :: others ∧ value (prepend ts feed) = .ok (first, next) ∧
      moreValues next = .ok (others, feed) := by
  induction h with
  | one literal =>
    exact ⟨_, _, feed, rfl, value_prepend literal hstring, moreValues_of_ne hcomma⟩
  -- a constant ends in front of the comma, whatever it is
  | @more ts us v vs comma literal kind _ ih =>
    obtain ⟨first, others, next, rfl, hfirst, hothers⟩ := ih
    refine ⟨v, first :: others, prepend (comma :: us) feed, rfl, ?_, ?_⟩
    · rw [prepend_append]
      exact value_prepend literal (by simp [kind])
    · rw [moreValues_cons kind hfirst, hothers]
      rfl

/-- A list in brackets is read whatever follows it. -/
theorem valueList_prepend {ts : List Token} {vs : ValueList} (h : Bracketed ts vs) (feed : Feed) :
    valueList (prepend ts feed) = .ok (vs, feed) := by
  cases h with
  | @mk ts opening closing first others open_kind values close_kind =>
    have hcomma : (prepend [closing] feed).current.kind ≠ .comma := by simp [close_kind]
    have hstring : (prepend [closing] feed).current.kind ≠ .quotedString := by simp [close_kind]
    obtain ⟨_, _, next, heq, hfirst, hothers⟩ := moreValues_prepend values hcomma hstring
    cases heq
    unfold valueList
    rw [List.cons_append, expect_bind _ _ _ _ open_kind, prepend_append, bind_of_ok hfirst,
      bind_of_ok hothers, expect_bind _ _ _ _ close_kind]
    rfl

/-- A name is read unless a point after it carries it on. -/
theorem key_prepend {ts : List Token} {k : Key} (h : Name ts k) {feed : Feed}
    (hdot : feed.current.kind ≠ .dot) : key (prepend ts feed) = .ok (k, feed) := by
  unfold key
  rw [peek_bind]
  -- The key has been looked at up to its second token, so that a point behind it has to be ruled
  -- out.
  cases h with
  | field kind =>
    rw [if_neg (by simp [kind]), expect_bind _ _ _ _ kind, peek_bind, prepend_nil, if_neg hdot]
    rfl
  -- a point goes on with the key, so the name before it is a parent
  | nested parent_kind dot_kind child_kind =>
    rw [if_neg (by simp [parent_kind]), expect_bind _ _ _ _ parent_kind, peek_bind,
      current_prepend_cons, if_pos dot_kind, advance_bind, expect_bind _ _ _ _ child_kind]
    rfl
  | quoted kind nonempty =>
    rw [if_pos (by simp [kind]), advance_bind]
    simp only [List.isEmpty_iff, if_neg nonempty]
    rfl

/-- A membership test is read behind its word, whatever follows the list. -/
theorem membership_prepend {i : Token} {vs : List Token} {values : ValueList}
    (list : Bracketed vs values) (k : Key) (negated : Bool) (feed : Feed) :
    predicate.membership k negated (prepend (i :: vs) feed) =
      .ok (.membership k negated values, feed) := by
  unfold predicate.membership
  rw [advance_bind, bind_of_ok (valueList_prepend list feed)]
  rfl

/-- A test is read by its two parts, unless a string after it carries it on. -/
theorem test_prepend {ts : List Token} {e : Expr} (h : Test ts e) {feed : Feed}
    (hstop : feed.current.kind ≠ .quotedString) :
    ∃ k next, key (prepend ts feed) = .ok (k, next) ∧ predicate k next = .ok (e, feed) := by
  -- the token after the key says which test it is
  cases h with
  | @comparison ks vs k v o op name kind literal =>
    refine ⟨k, prepend (o :: vs) feed, ?_, ?_⟩
    · rw [prepend_append]
      exact key_prepend name (by cases op <;> simp [kind, compareKind])
    · unfold predicate
      rw [peek_bind, current_prepend_cons, compareOp?_eq_some_iff.2 kind]
      simp only
      rw [advance_bind, bind_of_ok (value_prepend literal hstop)]
      rfl
  | @among ks vs k values i name kind list =>
    refine ⟨k, prepend (i :: vs) feed, ?_, ?_⟩
    · rw [prepend_append]
      exact key_prepend name (by simp [kind])
    -- the word IN is looked at and taken together with the list
    · unfold predicate
      rw [peek_bind, current_prepend_cons, kind]
      exact membership_prepend list k false feed
  | @notAmong ks vs k values n i name not_kind in_kind list =>
    refine ⟨k, prepend (n :: i :: vs) feed, ?_, ?_⟩
    · rw [prepend_append]
      exact key_prepend name (by simp [not_kind])
    -- the word NOT is taken, and the word IN is looked at behind it
    · unfold predicate
      rw [peek_bind, current_prepend_cons, not_kind]
      show (advance >>= _) (prepend (n :: i :: vs) feed) = _
      rw [advance_bind, peek_bind, current_prepend_cons, if_pos in_kind]
      exact membership_prepend list k true feed
  | @noneOf ks vs k values n name kind list =>
    refine ⟨k, prepend (n :: vs) feed, ?_, ?_⟩
    · rw [prepend_append]
      exact key_prepend name (by simp [kind])
    · unfold predicate
      rw [peek_bind, current_prepend_cons, kind]
      exact membership_prepend list k true feed

/-! ### Expressions -/

/-- A tree with its size. -/
def Node.ofExpr (e : Expr) : Node := ⟨e, e.depth, e.height⟩

/-- The reader of a level, where `inner` reads what stands in parentheses. -/
def levelReader (limits : Limits) (inner : Option (Reader Node)) : Level → Reader Node
  | .primary => primary limits inner
  | .run .and => chain limits .and (primary limits inner)
  | .run .or => chain limits .or (chain limits .and (primary limits inner))

/-- The reader of what stands in parentheses if `room` more of them may be open. -/
def innerReader (limits : Limits) : Nat → Option (Reader Node)
  | 0 => none
  | room + 1 => some (orExpr limits room)

/-- A run is read with the reader of its operands. -/
theorem levelReader_run (limits : Limits) (inner : Option (Reader Node)) (c : Connective) :
    levelReader limits inner (.run c) =
      chain limits c (levelReader limits inner (operandLevel c)) := by
  cases c <;> rfl

/-- An expression is a run of OR. -/
theorem orExpr_eq (limits : Limits) (room : Nat) :
    orExpr limits room = levelReader limits (innerReader limits room) (.run .or) := by
  cases room <;> rfl

/-- What happens once the tree `e` of a level has been read: a run looks for its next operand. -/
def goOn (limits : Limits) (inner : Option (Reader Node)) (level : Level) (e : Expr)
    (feed : Feed) : Except FilterError (Node × Feed) :=
  match level with
  | .primary => .ok (.ofExpr e, feed)
  | .run c => moreOperands limits c (levelReader limits inner (operandLevel c))
      (e.depthAfter (some c)) (.ofExpr e) feed

/-- Where the connective does not follow, the run is over. -/
theorem moreOperands_of_ne {limits : Limits} {c : Connective} {operand : Reader Node}
    {deepest : Nat} {node : Node} {feed : Feed} (h : feed.current.kind ≠ connectiveKind c) :
    moreOperands limits c operand deepest node feed = .ok (node, feed) := by
  rw [moreOperands, peek_bind, if_neg h]
  rfl

/-- What comes next does not carry on an operand of the level. -/
def Stops (level : Level) (feed : Feed) : Prop :=
  feed.current.kind ≠ .quotedString ∧ (level = .run .or → feed.current.kind ≠ .andWord)

/-- The result of reading `e` with room for `room` more parentheses: `next` if `e` keeps within the
limits, else an error that says which limit `e` passes. -/
inductive Outcome (limits : Limits) (room : Nat) (e : Expr)
    (next : Except FilterError (Node × Feed)) : Except FilterError (Node × Feed) → Prop
  | fits (depth : e.depth ≤ limits.depth) (groups : e.openGroups ≤ room)
      (height : e.height ≤ limits.height) : Outcome limits room e next next
  | tooDeep (position : Position) (h : limits.depth < e.depth ∨ room < e.openGroups) :
      Outcome limits room e next (.error (.tooDeep position))
  | tooLarge (position : Position) (h : limits.height < e.height) :
      Outcome limits room e next (.error (.tooLarge position))

section

variable {limits : Limits} {room room' : Nat} {part whole : Expr}
  {mid next result : Except FilterError (Node × Feed)}

/-- A whole is read like its first part, and then goes on. -/
theorem Outcome.trans (h : Outcome limits room part mid result)
    (hdepth : part.depth ≤ whole.depth)
    (hgroups : room < part.openGroups → room' < whole.openGroups)
    (hheight : part.height ≤ whole.height)
    (hmid : part.depth ≤ limits.depth → part.openGroups ≤ room → part.height ≤ limits.height →
      Outcome limits room' whole next mid) : Outcome limits room' whole next result := by
  cases h with
  | fits depth groups height => exact hmid depth groups height
  | tooDeep position h =>
    refine .tooDeep position ?_
    rcases h with h | h
    · exact .inl (by omega)
    · exact .inr (hgroups h)
  | tooLarge position h => exact .tooLarge position (by omega)

/-- A part is read first, and the rest of the whole after it. -/
theorem Outcome.bind {r : Reader Node} {f : Node → Reader Node} {start feed : Feed}
    (h : Outcome limits room part (.ok (.ofExpr part, feed)) (r start))
    (hdepth : part.depth ≤ whole.depth)
    (hgroups : room < part.openGroups → room' < whole.openGroups)
    (hheight : part.height ≤ whole.height)
    (hrest : part.depth ≤ limits.depth → part.openGroups ≤ room → part.height ≤ limits.height →
      Outcome limits room' whole next (f (.ofExpr part) feed)) :
    Outcome limits room' whole next ((r >>= f) start) := by
  -- Either the part is within the limits, or its error is the error of the whole.
  generalize hr : r start = result at h
  cases h with
  | fits depth groups height =>
    -- the part keeps within the limits, so it is up to the rest
    rw [bind_of_ok hr]
    exact hrest depth groups height
  | tooDeep position h =>
    rw [bind_of_error hr]
    refine .tooDeep position ?_
    rcases h with h | h
    · exact .inl (by omega)
    · exact .inr (hgroups h)
  | tooLarge position h =>
    rw [bind_of_error hr]
    exact .tooLarge position (by omega)

end

/-- The first operand of a run does not go on with the run. -/
theorem depthAfter_operand {c : Connective} {ts : List Token} {e : Expr}
    (h : Derives (operandLevel c) ts e) : e.depthAfter (some c) = e.depth := by
  cases c with
  | and =>
    cases h with
    | test test => cases test <;> rfl
    | group => rfl
  | or =>
    cases h with
    | operand operand =>
      cases operand with
      | test test => cases test <;> rfl
      | group => rfl
    | join => simp [depthAfter, depth]

/-- A test is one node without depth. -/
theorem ofExpr_test {ts : List Token} {e : Expr} (h : Test ts e) : Node.ofExpr e = ⟨e, 0, 1⟩ := by
  cases h <;> rfl

/-- A test opens no parentheses. -/
theorem openGroups_test {ts : List Token} {e : Expr} (h : Test ts e) : e.openGroups = 0 := by
  cases h <;> rfl

/-- An operand is complete in front of what follows its run. -/
theorem goOn_operandLevel {limits : Limits} {inner : Option (Reader Node)} {c : Connective}
    {e : Expr} {feed : Feed} (h : Stops (.run c) feed) :
    goOn limits inner (operandLevel c) e feed = .ok (.ofExpr e, feed) := by
  cases c with
  | and => rfl
  | or => exact moreOperands_of_ne (h.2 rfl)

/-! ### One production -/

/-- The tokens of a test are read as their tree. -/
theorem primary_test {limits : Limits} {inner : Option (Reader Node)} {ts : List Token} {e : Expr}
    (test : Test ts e) {feed : Feed} (hstop : feed.current.kind ≠ .quotedString) :
    primary limits inner (prepend ts feed) = .ok (.ofExpr e, feed) := by
  obtain ⟨k, mid, hkey, hpredicate⟩ := test_prepend test hstop
  obtain ⟨t, us, rfl, ht⟩ := test.exists_cons
  rw [ofExpr_test test]
  unfold primary
  rw [peek_bind, current_prepend_cons]
  rcases ht with ht | ht <;>
    · rw [ht]
      simp only
      rw [bind_of_ok hkey, bind_of_ok hpredicate]
      rfl

/-- A test is too small to pass a limit. -/
theorem Outcome.test {limits : Limits} (hpos : 0 < limits.height) {ts : List Token} {e : Expr}
    (test : Test ts e) (room : Nat) (next : Except FilterError (Node × Feed)) :
    Outcome limits room e next next := by
  have hnode := ofExpr_test test
  have hdepth : e.depth = 0 := congrArg Node.depth hnode
  have hheight : e.height = 1 := congrArg Node.height hnode
  have hgroups := openGroups_test test
  exact .fits (by omega) (by omega) (by omega)

section

variable {limits : Limits} {feed : Feed}

/-- Parentheses leave room for one less inside them. -/
theorem outcome_group {ts : List Token} {e : Expr} {opening closing : Token}
    (open_kind : opening.kind = .leftParen) (close_kind : closing.kind = .rightParen)
    (hinner : ∀ room, Outcome limits room e
      (goOn limits (innerReader limits room) (.run .or) e (prepend [closing] feed))
      (levelReader limits (innerReader limits room) (.run .or)
        (prepend ts (prepend [closing] feed))))
    (room : Nat) :
    Outcome limits room (.group e) (.ok (.ofExpr (.group e), feed))
      (primary limits (innerReader limits room) (prepend (opening :: ts ++ [closing]) feed)) := by
  unfold primary
  rw [peek_bind, List.cons_append, current_prepend_cons, open_kind]
  show Outcome limits room _ _ (parenthesized limits _ _)
  unfold parenthesized
  rw [advance_bind, prepend_append]
  -- With no room left the opening parenthesis itself is the error.
  cases room with
  | zero => exact .tooDeep _ (.inr (Nat.succ_pos _))
  | succ room =>
    have hinner := hinner room
    have hend : goOn limits (innerReader limits room) (.run .or) e (prepend [closing] feed) =
        .ok (.ofExpr e, prepend [closing] feed) :=
      moreOperands_of_ne (by simp [close_kind, connectiveKind])
    rw [← orExpr_eq, hend] at hinner
    refine hinner.bind (by simp only [depth, depthAfter]; omega)
      (by simp only [openGroups]; omega) (by simp only [height]; omega) fun hd hg hh => ?_
    rw [expect_bind _ _ _ _ close_kind]
    -- the limits are checked once the closing parenthesis has been taken
    show Outcome _ _ _ _ ((if _ then _ else _ : Reader Node) feed)
    split
    · next hdeep => exact .tooDeep _ (.inl hdeep)
    · next hdeep =>
      split
      · next hlarge => exact .tooLarge _ hlarge
      · next hlarge =>
        exact .fits (Nat.le_of_not_lt hdeep) (Nat.succ_le_succ hg) (Nat.le_of_not_lt hlarge)

/-- One more operand after a connective: the depth of the run so far is carried along. -/
theorem outcome_join {c : Connective} {us : List Token} {left right : Expr} {t : Token}
    {room : Nat} (kind : t.kind = connectiveKind c)
    (hg : left.openGroups ≤ room)
    (hright : Outcome limits room right (.ok (.ofExpr right, feed))
      (levelReader limits (innerReader limits room) (operandLevel c) (prepend us feed))) :
    Outcome limits room (.join c left right)
      (goOn limits (innerReader limits room) (.run c) (.join c left right) feed)
      (goOn limits (innerReader limits room) (.run c) left (prepend (t :: us) feed)) := by
  have hdepth := depth_join c left right
  have hleftDepth := depth_le_depthAfter_succ (some c) left
  have hgroups : (join c left right).openGroups = max left.openGroups right.openGroups := rfl
  have hheight : (join c left right).height = max left.height right.height + 1 := rfl
  -- the connective is taken, then the right side is read like any operand
  show Outcome _ _ _ _ (moreOperands limits c _ _ _ _)
  rw [moreOperands, peek_bind, current_prepend_cons, if_pos kind, advance_bind]
  refine hright.bind (by omega) (by omega) (by omega) fun hd' hg' hh' => ?_
  show Outcome _ _ _ _ ((if limits.depth < max (left.depthAfter (some c)) right.depth + 1
    then _ else _ : Reader Node) feed)
  split
  · next hdeep => exact .tooDeep _ (.inl (by omega))
  · next hdeep =>
    show Outcome _ _ _ _ ((if _ : limits.height < max left.height right.height + 1
      then _ else _ : Reader Node) feed)
    split
    · next hlarge => exact .tooLarge _ (by omega)
    · next hlarge =>
      show Outcome _ _ _ _ (moreOperands limits c _
        (max (left.depthAfter (some c)) right.depth) (.ofExpr (join c left right)) feed)
      rw [← depthAfter_join]
      exact .fits (by omega) (by omega) (by omega)

end

/-! ### All productions -/

/-- What ends a run ends its operands as well. -/
theorem stops_operandLevel {c : Connective} {feed : Feed} (h : Stops (.run c) feed) :
    Stops (operandLevel c) feed := by
  refine ⟨h.1, fun hlevel => ?_⟩
  cases c with
  | and => cases hlevel
  | or => cases hlevel

/-- Derivable tokens are read as their tree, unless a limit is passed. -/
theorem outcome_of_derives {limits : Limits} (hpos : 0 < limits.height) {level : Level}
    {ts : List Token} {e : Expr} (h : Derives level ts e) (room : Nat) (feed : Feed)
    (hstop : Stops level feed) :
    Outcome limits room e (goOn limits (innerReader limits room) level e feed)
      (levelReader limits (innerReader limits room) level (prepend ts feed)) := by
  -- The induction is on the derivation. It is for all rooms and for all that may follow, because a
  -- group leaves less room inside and an operand is followed by the rest of its run.
  induction h generalizing room feed with
  | @test ts e test =>
    show Outcome limits room e (.ok (.ofExpr e, feed)) (primary limits _ _)
    rw [primary_test test hstop.1]
    exact .test hpos test room _
  | @group ts e opening closing open_kind inner close_kind ih =>
    refine outcome_group open_kind close_kind (fun room => ih room _ ?_) room
    constructor <;> simp [close_kind]
  | @operand c ts e operand ih =>
    -- An operand on its own is followed by what follows its run.
    have hoperand := ih room feed (stops_operandLevel hstop)
    rw [goOn_operandLevel hstop] at hoperand
    rw [levelReader_run]
    refine hoperand.bind (Nat.le_refl _) id (Nat.le_refl _) fun hd hg hh => ?_
    -- the run starts with the depth of its first operand
    show Outcome _ _ _ _ (moreOperands limits c _ e.depth (.ofExpr e) feed)
    rw [← depthAfter_operand operand]
    exact .fits hd hg hh
  | @join c ts us left right t run kind operand ihrun ihoperand =>
    -- the run up to `left` is read in front of the connective, then one more operand
    have hstop' : Stops (.run c) (prepend (t :: us) feed) := by
      cases c <;> constructor <;> simp [kind, connectiveKind]
    have hleft := ihrun room (prepend (t :: us) feed) hstop'
    have hright := ihoperand room feed (stops_operandLevel hstop)
    rw [goOn_operandLevel hstop] at hright
    have hdepth := depth_join c left right
    have hleftDepth := depth_le_depthAfter_succ (some c) left
    have hgroups : (join c left right).openGroups = max left.openGroups right.openGroups := rfl
    have hheight : (join c left right).height = max left.height right.height + 1 := rfl
    rw [prepend_append]
    exact hleft.trans (by omega) (by omega) (by omega) fun _ hg _ =>
      outcome_join kind hg hright

/-- Tokens of a whole filter are read as their tree, unless a limit is passed. -/
theorem outcome_filter {limits : Limits} (hpos : 0 < limits.height) {opening : Token}
    {ts : List Token} {e : Expr} {feed : Feed} (hopen : opening.kind = .whereWord)
    (h : Derives (.run .or) ts e) (hend : feed.current.kind = .endOfInput) :
    Outcome limits limits.depth e (.ok (.ofExpr e, feed))
      (filter limits (prepend (opening :: ts) feed)) := by
  have hexpr := outcome_of_derives hpos h limits.depth feed (by constructor <;> simp [hend])
  rw [← orExpr_eq] at hexpr
  -- nothing goes on after the end
  have hgo : goOn limits (innerReader limits limits.depth) (.run .or) e feed =
      .ok (.ofExpr e, feed) := moreOperands_of_ne (by simp [hend, connectiveKind])
  rw [hgo] at hexpr
  unfold filter
  rw [expect_bind _ _ _ _ hopen]
  refine hexpr.bind (Nat.le_refl _) id (Nat.le_refl _) fun hd hg hh => ?_
  rw [peek_bind, if_pos hend]
  exact .fits hd hg hh

/-- Tokens of a whole filter are read as their tree, or an error names the limit that it passes. -/
theorem filter_of_derives {limits : Limits} (hpos : 0 < limits.height) {opening : Token}
    {ts : List Token} {e : Expr} {feed : Feed} (hopen : opening.kind = .whereWord)
    (h : Derives (.run .or) ts e) (hend : feed.current.kind = .endOfInput) :
    (filter limits (prepend (opening :: ts) feed) = .ok (.ofExpr e, feed) ∧
      e.depth ≤ limits.depth ∧ e.height ≤ limits.height) ∨
    (∃ position, filter limits (prepend (opening :: ts) feed) = .error (.tooDeep position) ∧
      limits.depth < e.depth) ∨
    ∃ position, filter limits (prepend (opening :: ts) feed) = .error (.tooLarge position) ∧
      limits.height < e.height := by
  have hout := outcome_filter hpos hopen h hend
  generalize filter limits (prepend (opening :: ts) feed) = result at hout
  -- no more parentheses are open than the tree is deep
  have hgroups := e.openGroups_le_depthAfter none
  have hnone : e.depth = e.depthAfter none := rfl
  cases hout with
  | fits hdepth _ hheight => exact .inl ⟨rfl, hdepth, hheight⟩
  | tooDeep position h => exact .inr (.inl ⟨position, rfl, by omega⟩)
  | tooLarge position h => exact .inr (.inr ⟨position, rfl, h⟩)

end Expr.Parser

end MetadataFilter
