import MetadataFilter.Proofs.Grammar.Lookahead
import MetadataFilter.Proofs.Grammar.Recognition

/-!
# The reader follows the automaton

Whatever a reader takes leads from one state of the automaton to another, and it refuses a token
where the automaton has no step for it, with the kinds of token that are expected there. `Tracks`
says so for one feed: where a reader ends, and how it can get stuck.

## Key results

- `Tracks.bind`, `Tracks.advance_bind`, `Tracks.take`: readers in a row
- `value_tracks`, `key_tracks`, `predicate_tracks`: the parts of a test
- `orExpr_tracks`: whole expressions, by induction on the parentheses that may be open
- `filter_tracks`: whole filters
-/

namespace MetadataFilter.Expr.Parser

open Feed Grammar State

/-- The errors about a token that the automaton has no step for: the kind is not among those that
can come next, or its text is not admitted. -/
inductive Refusal (s : State) (t : Token) : ParseError → Prop
  | noViableAlternative (none : s.next? t.kind = none) :
      Refusal s t (.noViableAlternative t s.expected)
  | mismatchedInput (none : s.next? t.kind = none) : Refusal s t (.mismatchedInput t s.expected)
  | emptyKey (spot : s.spot = .operand) (kind : t.kind = .quotedString)
      (empty : Text.unquote t.lexeme.toList = []) : Refusal s t (.emptyKey t)
  | numberOutOfRange {negative : Bool} (sign : s.spot.negative? = some negative)
      (kind : t.kind = .integer ∨ t.kind = .decimal) (range : inRange negative t = false) :
      Refusal s t (.numberOutOfRange t (if negative then "-" ++ t.lexeme else t.lexeme))

/-- The automaton has no step for a token that is refused. -/
theorem Refusal.step?_eq_none {s : State} {t : Token} {e : ParseError} (h : Refusal s t e) :
    s.step? t = none := by
  unfold State.step?
  cases h with
  | noViableAlternative none | mismatchedInput none => rw [none, ite_self]
  | emptyKey spot kind empty =>
    refine if_neg ?_
    simp [spot, Spot.admits, kind, empty]
  | numberOutOfRange sign kind range =>
    refine if_neg ?_
    simp [Spot.admits_of_negative? sign, range]

/-- An error about a limit at a token that makes a filter deeper or larger: a parenthesis that opens
a group, or a connective. -/
structure LimitError (t : Token) (e : FilterError) : Prop where
  names : e.LimitAt t
  kind : t.kind = .leftParen ∨ t.kind = .andWord ∨ t.kind = .orWord

section

variable {α β : Type} {passed : List Token} {s s' : State} {r : Reader α} {k : α → Reader β}
  {stop mid : State → Token.Kind → Prop} {feed : Feed}

/-- How reading from the state `s` on can get stuck: at the first fault, at a token that is refused
in the state it is met in, or at a limit that is passed, which is reported at a token that comes or
at one that has been passed before. -/
inductive Stuck (passed : List Token) (s : State) (feed : Feed) : FilterError → Prop
  | fault {e : LexError} (first : feed.stream.fault? = some e) : Stuck passed s feed (.lex e)
  | refused {ts : List Token} {rest : Feed} {s' : State} {e : ParseError}
      (split : feed = prepend ts rest) (run : s.run? ts = some s')
      (refusal : Refusal s' rest.current e) : Stuck passed s feed (.parse e)
  | limit {ts : List Token} {rest : Feed} {e : FilterError} (split : feed = prepend ts rest)
      (limit : LimitError rest.current e) : Stuck passed s feed e
  | passed {t : Token} {e : FilterError} (mem : t ∈ passed) (limit : LimitError t e) :
      Stuck passed s feed e

/-- What `r` takes from the feed leads from the state `s` to one that fits `stop` with the kind of
the next token; else `r` gets stuck. -/
structure Tracks (passed : List Token) (s : State) (r : Reader α)
    (stop : State → Token.Kind → Prop) (feed : Feed) : Prop where
  ok : ∀ {x feed'}, r feed = .ok (x, feed') →
    ∃ ts s', feed = prepend ts feed' ∧ s.run? ts = some s' ∧ stop s' feed'.current.kind
  error : ∀ {e}, r feed = .error e → Stuck passed s feed e

/-! ### Readers in a row -/

/-- Getting stuck behind the tokens `us` is getting stuck, from the state in front of them on. -/
theorem Stuck.prepend {e : FilterError} (us : List Token) (hrun : s.run? us = some s')
    (h : Stuck passed s' feed e) : Stuck passed s (prepend us feed) e := by
  -- The tokens in front are added to those of the stuck reader, and lead to the state it starts
  -- from.
  cases h with
  | fault first => exact .fault ((fault?_prepend us feed).trans first)
  | @refused ts rest _ _ split run refusal =>
    have hsplit : Feed.prepend us feed = Feed.prepend (us ++ ts) rest := by
      rw [split, prepend_append]
    exact .refused hsplit ((State.run?_append_of_eq hrun).trans run) refusal
  | @limit ts rest _ split limit =>
    have hsplit : Feed.prepend us feed = Feed.prepend (us ++ ts) rest := by
      rw [split, prepend_append]
    exact .limit hsplit limit
  | passed mem limit => exact .passed mem limit

/-- A value that is given without reading leaves the state as it is. -/
theorem Tracks.pure {x : α} (h : stop s feed.current.kind) :
    Tracks passed s (Pure.pure x) stop feed := by
  refine ⟨fun hok => ?_, fun herror => ?_⟩
  · cases hok
    exact ⟨[], s, rfl, rfl, h⟩
  · cases herror

/-- The token under inspection is refused. -/
theorem Tracks.refuse {e : ParseError} (h : Refusal s feed.current e)
    (hr : r feed = .error (.parse e)) : Tracks passed s r stop feed := by
  refine ⟨fun hok => ?_, fun herror => ?_⟩
  · rw [hr] at hok
    cases hok
  · rw [hr] at herror
    cases herror
    exact .refused (prepend_nil feed).symm rfl h

/-- The kinds in a message are those that are expected, and the token is of no kind that can come
next. -/
structure Unexpected (s : State) (kinds : List Token.Kind) (kind : Token.Kind) : Prop where
  expected_eq : s.expected = kinds
  notMem : kind ∉ kinds
  notMem_unlisted : kind ∉ s.unlisted

/-- No such kind leads anywhere. -/
theorem Unexpected.next?_eq_none {kinds : List Token.Kind} {kind : Token.Kind}
    (h : Unexpected s kinds kind) : s.next? kind = none :=
  State.next?_eq_none (h.expected_eq ▸ h.notMem) h.notMem_unlisted

/-- A token of no kind that can come next is refused, with the kinds that are expected. -/
theorem Tracks.noViableAlternative {kinds : List Token.Kind}
    (h : Unexpected s kinds feed.current.kind) :
    Tracks passed s (noViableAlternative kinds : Reader α) stop feed :=
  .refuse (.noViableAlternative h.next?_eq_none) (by rw [h.expected_eq]; rfl)

/-- So is a token that had to be one of a few. -/
theorem Tracks.mismatchedInput {kinds : List Token.Kind}
    (h : Unexpected s kinds feed.current.kind) :
    Tracks passed s (mismatchedInput kinds : Reader α) stop feed :=
  .refuse (.mismatchedInput h.next?_eq_none) (by rw [h.expected_eq]; rfl)

/-- A limit may be reported at a token that has been passed. -/
theorem Tracks.limit {t : Token} {e : FilterError} (mem : t ∈ passed) (limit : LimitError t e) :
    Tracks passed s (throw e : Reader α) stop feed := by
  refine ⟨fun hok => ?_, fun herror => ?_⟩
  · cases hok
  · cases herror
    exact .passed mem limit

/-- What is chosen by the kind of the token under inspection. -/
theorem Tracks.peek_bind {k : Token.Kind → Reader β}
    (h : Tracks passed s (k feed.current.kind) stop feed) :
    Tracks passed s (peek >>= k) stop feed := ⟨h.ok, h.error⟩

/-- Two readers in a row lead from state to state. -/
theorem Tracks.bind (hr : Tracks passed s r mid feed)
    (hk : ∀ x feed' s', r feed = .ok (x, feed') → mid s' feed'.current.kind →
      Tracks passed s' (k x) stop feed') : Tracks passed s (r >>= k) stop feed := by
  -- Success puts the two runs together; failure is that of the first reader, or that of the second
  -- behind the tokens of the first.
  refine ⟨fun {y last} h => ?_, fun {e} h => ?_⟩
  · obtain ⟨x, next, hx, hy⟩ := bind_eq_ok h
    obtain ⟨ts, s', rfl, hrun, hmid⟩ := hr.ok hx
    obtain ⟨us, s'', rfl, hrun', hstop⟩ := (hk x next s' hx hmid).ok hy
    exact ⟨ts ++ us, s'', (prepend_append ts us last).symm,
      (State.run?_append_of_eq hrun).trans hrun', hstop⟩
  · cases hx : r feed with
    | error e' =>
      rw [bind_of_error hx] at h
      cases h
      exact hr.error hx
    | ok p =>
      obtain ⟨x, next⟩ := p
      rw [bind_of_ok hx] at h
      obtain ⟨ts, s', rfl, hrun, hmid⟩ := hr.ok hx
      exact ((hk x next s' hx hmid).error h).prepend ts hrun

/-- Taking a token fails only if a fault comes next. -/
theorem fault?_of_advance {e : FilterError} (h : advance feed = .error e) :
    ∃ fault, e = .lex fault ∧ feed.stream.fault? = some fault := by
  cases feed with
  | done => cases h
  | more t rest => cases rest <;> cases h; exact ⟨_, rfl, rfl⟩

/-- A token that has a step is taken, and leads where the step leads. -/
theorem Tracks.advance (hstep : s.step? feed.current = some s')
    (hend : feed.current.kind ≠ .endOfInput) :
    Tracks passed s Parser.advance (fun s'' _ => s'' = s') feed := by
  refine ⟨fun {t feed'} hok => ?_, fun {e} herror => ?_⟩
  · cases token_of_advance hok
    refine ⟨[feed.current], s', eq_prepend_of_advance hok hend, ?_, rfl⟩
    rw [State.run?_cons, hstep]
    rfl
  · obtain ⟨fault, rfl, hfault⟩ := fault?_of_advance herror
    exact .fault hfault

/-- A token that is taken leads one step further, and a limit can be reported at it by what comes
next. -/
theorem Tracks.advance_bind {k : Token → Reader β} (hstep : s.step? feed.current = some s')
    (hend : feed.current.kind ≠ .endOfInput)
    (hk : ∀ feed', Parser.advance feed = .ok (feed.current, feed') →
      Tracks (feed.current :: passed) s' (k feed.current) stop feed') :
    Tracks passed s (Parser.advance >>= k) stop feed := by
  -- the token is taken, and the state goes on with it
  have hbind : Tracks (feed.current :: passed) s (Parser.advance >>= k) stop feed := by
    refine .bind (.advance hstep hend) fun t feed' s'' h hs => ?_
    cases token_of_advance h
    subst hs
    exact hk feed' h
  refine ⟨hbind.ok, fun {e} he => ?_⟩
  -- what has been passed by the rest may be the token that was taken here
  cases hbind.error he with
  | fault first => exact .fault first
  | refused split run refusal => exact .refused split run refusal
  | limit split limit => exact .limit split limit
  | passed mem limit =>
    rcases List.mem_cons.1 mem with rfl | mem
    · exact .limit (prepend_nil _).symm limit
    · exact .passed mem limit

/-- A token is taken before it turns out that it is refused. -/
theorem Tracks.take_refused {k : Token → Reader β} {e : ParseError}
    (h : Refusal s feed.current e) (hk : k feed.current = throw (.parse e)) :
    Tracks passed s (Parser.advance >>= k) stop feed := by
  -- If a fault comes next it is reported, because the token is taken before it is judged.
  cases hadvance : Parser.advance feed with
  | error e' =>
    have hr : (Parser.advance >>= k) feed = .error e' := bind_of_error hadvance
    obtain ⟨fault, rfl, hfault⟩ := fault?_of_advance hadvance
    refine ⟨fun hok => ?_, fun herror => ?_⟩
    · rw [hr] at hok
      cases hok
    · rw [hr] at herror
      cases herror
      exact .fault hfault
  | ok p =>
    obtain ⟨t, next⟩ := p
    cases token_of_advance hadvance
    refine .refuse h ?_
    rw [bind_of_ok hadvance, hk]
    rfl

/-- A token of a kind is taken, or it is refused if no other kind can come next. -/
theorem expect_tracks {kind : Token.Kind} {kinds : List Token.Kind} (hend : kind ≠ .endOfInput)
    (hstep : feed.current.kind = kind → s.step? feed.current = some s')
    (hrefuse : feed.current.kind ≠ kind → Unexpected s kinds feed.current.kind) :
    Tracks passed s (expect kind kinds) (fun s'' _ => s'' = s') feed := by
  refine .peek_bind ?_
  split
  · next hk => exact .advance (hstep hk) (hk ▸ hend)
  · next hk => exact .mismatchedInput (hrefuse hk)

end

/-! ### Values, lists and keys -/

/-- A value of a list, or else an operand, is over before a token of the kind. -/
structure Settled (inList : Bool) (groups : Nat) (s : State) (kind : Token.Kind) : Prop where
  ends : Over inList groups s
  notMem_unlisted : kind ∉ s.unlisted

/-- A key is over before a token of the kind. -/
structure Keyed (groups : Nat) (s : State) (kind : Token.Kind) : Prop where
  named : Named groups s
  notMem_unlisted : kind ∉ s.unlisted

section

variable {passed : List Token} {inList : Bool} {groups : Nat} {s s' : State} {kind : Token.Kind}
  {kinds : List Token.Kind} {feed : Feed}

/-- A value that is over without doubt. -/
theorem Settled.ended : Settled inList groups ⟨.ended inList, groups⟩ kind :=
  ⟨.ended, List.not_mem_nil⟩

/-- Where a value may be over, a kind that is not listed is unexpected, since no string comes
next. -/
theorem Settled.unexpected (h : Settled inList groups s kind)
    (hkinds : expected ⟨.ended inList, groups⟩ = kinds) (hnotMem : kind ∉ kinds) :
    Unexpected s kinds kind :=
  ⟨h.ends.expected_eq.trans hkinds, hnotMem, h.notMem_unlisted⟩

/-- A key that is over without doubt. -/
theorem Keyed.key : Keyed groups ⟨.key, groups⟩ kind :=
  ⟨.key, List.not_mem_nil⟩

/-- Where a key may be over, a kind that starts no predicate is unexpected, since no point comes
next. -/
theorem Keyed.unexpected (h : Keyed groups s kind) (hnotMem : kind ∉ predicateStart) :
    Unexpected s predicateStart kind :=
  ⟨by cases h.named <;> rfl, hnotMem, h.notMem_unlisted⟩

/-- A number leads to the end of a value, or is refused for its range after it has been taken. -/
theorem number_tracks {negative : Bool} (hsign : s.spot.negative? = some negative)
    (hk : feed.current.kind = .integer ∨ feed.current.kind = .decimal)
    (hnext : Next s feed.current.kind ⟨.ended inList, groups⟩) :
    Tracks passed s (number negative) (Settled inList groups) feed := by
  have hend : feed.current.kind ≠ .endOfInput := by rcases hk with hk | hk <;> simp [hk]
  have hadmits := Spot.admits_of_negative? hsign feed.current
  have hrange := @inRange_of_kind negative _ hk
  unfold number
  -- The automaton admits the number exactly if the reader finds a value for it.
  cases hvalue : numberValue? feed.current.kind negative feed.current.lexeme.toList with
  | some v =>
    rw [hvalue] at hrange
    refine .advance_bind (hnext.step?_eq rfl (hadmits.trans hrange)) hend fun feed' _ => ?_
    simp only [hvalue]
    exact .pure .ended
  | none =>
    rw [hvalue] at hrange
    refine .take_refused (.numberOutOfRange hsign hk hrange) ?_
    simp only [hvalue]

/-- Strings in a row lead on as long as there are any. -/
theorem moreStrings_tracks (previous : Token) :
    Tracks passed ⟨.strings inList, groups⟩ (moreStrings previous) (Settled inList groups)
      feed := by
  -- every string that is taken leaves fewer tokens
  induction hn : feed.size using Nat.strongRecOn generalizing previous passed feed with
  | ind n ih =>
    rw [moreStrings_eq]
    refine .peek_bind ?_
    split
    · next hk =>
      refine .advance_bind (Next.moreStrings.step?_eq hk rfl) (by simp [hk]) fun next hnext => ?_
      have hsize : next.size < n := by
        have := size_of_advance hnext
        have := @Feed.size_pos feed (by simp [hk])
        omega
      exact .bind (ih _ hsize _ rfl) fun _ _ _ _ hsettled => .pure hsettled
    · next hk => exact .pure ⟨.strings, by simpa [unlisted] using hk⟩

/-- Behind a sign a number has to come. -/
theorem signed_tracks {negative : Bool}
    (hstep : s.step? feed.current = some ⟨.sign negative inList, groups⟩)
    (hend : feed.current.kind ≠ .endOfInput) :
    Tracks passed s (value.signed negative) (Settled inList groups) feed := by
  refine .advance_bind hstep hend fun next _ => .peek_bind ?_
  split
  · next hk => exact number_tracks rfl (.inl hk) (.signed (.inl hk))
  · next hk => exact number_tracks rfl (.inr hk) (.signed (.inr hk))
  · next hinteger hdecimal =>
    exact .noViableAlternative ⟨rfl, by simpa using ⟨hinteger, hdecimal⟩, List.not_mem_nil⟩

/-- A value leads from where one has to come to where it is over. -/
theorem value_tracks :
    Tracks passed ⟨.value inList, groups⟩ value (Settled inList groups) feed := by
  -- a token that is no number is admitted whatever its text is
  have hadmits : feed.current.kind ≠ .integer → feed.current.kind ≠ .decimal →
      (Spot.value inList).admits feed.current = true := by
    intro hinteger hdecimal
    simp only [Spot.admits, inRange]
  -- The alternatives in the order of the reader; each has its step of the automaton.
  refine .peek_bind ?_
  split
  · next hk =>
    exact signed_tracks (Next.minus.step?_eq hk (hadmits (by simp [hk]) (by simp [hk])))
      (by simp [hk])
  · next hk =>
    exact signed_tracks (Next.plus.step?_eq hk (hadmits (by simp [hk]) (by simp [hk])))
      (by simp [hk])
  · next hk => exact number_tracks rfl (.inl hk) (.number (.inl hk))
  · next hk => exact number_tracks rfl (.inr hk) (.number (.inr hk))
  · next hk =>
    refine .advance_bind (Next.firstString.step?_eq hk (hadmits (by simp [hk]) (by simp [hk])))
      (by simp [hk]) fun _ _ => ?_
    exact .bind (moreStrings_tracks _) fun _ _ _ _ hsettled => .pure hsettled
  · next hk =>
    refine .advance_bind (Next.boolean.step?_eq hk (hadmits (by simp [hk]) (by simp [hk])))
      (by simp [hk]) fun _ _ => ?_
    exact .pure .ended
  · next hminus hplus hinteger hdecimal hstring hboolean =>
    have hnotMem : feed.current.kind ∉ valueStart := by
      simpa [valueStart] using ⟨hminus, hplus, hinteger, hdecimal, hstring, hboolean⟩
    exact .noViableAlternative ⟨rfl, hnotMem, List.not_mem_nil⟩

/-- The values behind a value lead on as long as there are commas. -/
theorem moreValues_tracks (h : Settled true groups s feed.current.kind) :
    Tracks passed s moreValues (fun s' kind => Settled true groups s' kind ∧ kind ≠ .comma)
      feed := by
  -- every comma that is taken leaves fewer tokens
  induction hn : feed.size using Nat.strongRecOn generalizing passed s feed with
  | ind n ih =>
    rw [moreValues_eq]
    refine .peek_bind ?_
    split
    · next hk =>
      have hstep := (Next.comma h.ends).step?_eq hk (h.ends.admits _)
      refine .advance_bind hstep (by simp [hk]) fun next hnext => ?_
      refine .bind value_tracks fun v last _ hlast hsettled => ?_
      have hsize : last.size < n := by
        have := size_of_advance hnext
        have := @Feed.size_pos feed (by simp [hk])
        have := Shrinking.value _ _ _ hlast
        omega
      exact .bind (ih _ hsize hsettled rfl) fun _ _ _ _ hstop => .pure hstop
    · next hk => exact .pure ⟨h, hk⟩

/-- A list in brackets leads to the end of an operand. -/
theorem valueList_tracks :
    Tracks passed ⟨.list, groups⟩ valueList (Settled false groups) feed := by
  -- the list is followed from bracket to bracket, one state after the other
  have hopen : Tracks passed ⟨.list, groups⟩ (expect .leftBracket [.leftBracket])
      (fun s' _ => s' = ⟨.value true, groups⟩) feed :=
    expect_tracks (by simp) (Next.leftBracket.step?_eq · rfl)
      fun hk => ⟨rfl, by simpa using hk, List.not_mem_nil⟩
  refine .bind hopen ?_
  rintro _ _ _ - rfl
  refine .bind value_tracks fun _ _ _ _ hsettled => ?_
  refine .bind (moreValues_tracks hsettled) fun _ feed' s' _ ⟨hsettled, hcomma⟩ => ?_
  have hclose : Tracks passed s' (expect .rightBracket [.comma, .rightBracket])
      (fun s'' _ => s'' = ⟨.ended false, groups⟩) feed' :=
    expect_tracks (by simp)
      (fun hk => (Next.rightBracket hsettled.ends).step?_eq hk (hsettled.ends.admits _))
      fun hk => hsettled.unexpected rfl (by simp [hcomma, hk])
  refine .bind hclose ?_
  rintro _ _ _ - rfl
  exact .pure .ended

/-- A key leads from where an operand has to come to where it is over. -/
theorem key_tracks (hk : feed.current.kind = .identifier ∨ feed.current.kind = .quotedString) :
    Tracks passed ⟨.operand, groups⟩ key (Keyed groups) feed := by
  refine .peek_bind ?_
  split
  -- An empty string is refused for its text, not for its kind.
  · next hquoted =>
    by_cases hname : Text.unquote feed.current.lexeme.toList = []
    · exact .take_refused (.emptyKey rfl hquoted hname) (if_pos (by simp [hname]))
    · have hstep := (Next.quotedKey (n := groups)).step?_eq hquoted (by simp [Spot.admits, hname])
      refine .advance_bind hstep (by simp [hquoted]) fun next _ => ?_
      simp only [List.isEmpty_iff, hname, if_false]
      exact .pure .key
  · next hquoted =>
    -- what is no string is an identifier, and the state goes on with a word
    have hword := hk.resolve_right hquoted
    have hparent : Tracks passed ⟨.operand, groups⟩
        (expect .identifier [.identifier, .quotedString]) (fun s' _ => s' = ⟨.word, groups⟩) feed :=
      expect_tracks (by simp) (fun hk => Next.field.step?_eq hk (by simp [Spot.admits, hk]))
        (absurd hword)
    refine .bind hparent ?_
    rintro _ next _ - rfl
    refine .peek_bind ?_
    split
    -- behind the point only an identifier will do
    · next hdot =>
      refine .advance_bind (Next.dot.step?_eq hdot rfl) (by simp [hdot]) fun last _ => ?_
      have hchild : Tracks (next.current :: passed) ⟨.parent, groups⟩
          (expect .identifier [.identifier]) (fun s' _ => s' = ⟨.key, groups⟩) last :=
        expect_tracks (by simp) (Next.child.step?_eq · rfl)
          fun hk => ⟨rfl, by simpa using hk, List.not_mem_nil⟩
      refine .bind hchild ?_
      rintro _ _ _ - rfl
      exact .pure .key
    · next hdot => exact .pure ⟨.word, by simpa [unlisted] using hdot⟩

/-- A membership test leads from its word to the end of an operand. -/
theorem membership_tracks (k : Key) (negated : Bool)
    (hstep : s.step? feed.current = some ⟨.list, groups⟩)
    (hend : feed.current.kind ≠ .endOfInput) :
    Tracks passed s (predicate.membership k negated) (Settled false groups) feed :=
  .advance_bind hstep hend fun _ _ =>
    .bind valueList_tracks fun _ _ _ _ hsettled => .pure hsettled

/-- A predicate leads from a key to the end of an operand. -/
theorem predicate_tracks (k : Key) (h : Keyed groups s feed.current.kind) :
    Tracks passed s (predicate k) (Settled false groups) feed := by
  have hadmits := h.named.admits feed.current
  refine .peek_bind ?_
  split
  -- An operator has one step for all comparisons; the words of a membership test have one each.
  · next op hop =>
    have hk := compareOp?_eq_some_iff.1 hop
    have hstep := (Next.comparison h.named op).step?_eq hk hadmits
    refine .advance_bind hstep (by rw [hk]; cases op <;> simp [compareKind]) fun _ _ => ?_
    exact .bind value_tracks fun _ _ _ _ hsettled => .pure hsettled
  · next hop =>
    split
    · next hk =>
      exact membership_tracks k false ((Next.inWord h.named).step?_eq hk hadmits) (by simp [hk])
    · next hk =>
      exact membership_tracks k true ((Next.ninWord h.named).step?_eq hk hadmits) (by simp [hk])
    · next hk =>
      -- behind NOT one more word is needed, and it is looked at first
      refine .advance_bind ((Next.notWord h.named).step?_eq hk hadmits) (by simp [hk])
        fun next _ => .peek_bind ?_
      split
      · next hin =>
        exact membership_tracks k true (Next.inAfterNot.step?_eq hin rfl) (by simp [hin])
      · next hin => exact .mismatchedInput ⟨rfl, by simpa using hin, List.not_mem_nil⟩
    · next hin hnin hnot =>
      refine .noViableAlternative (h.unexpected ?_)
      cases hk : feed.current.kind <;> simp_all [predicateStart, compareOp?]

end

/-! ### Expressions -/

section

variable {limits : Limits} {passed : List Token} {groups : Nat} {s : State} {feed : Feed}

/-- An operand is over before a token that is of none of the kinds. -/
structure Before (kinds : List Token.Kind) (groups : Nat) (s : State) (kind : Token.Kind) :
    Prop where
  settled : Settled false groups s kind
  notMem : kind ∉ kinds

/-- Wherever an operand has to come, `r` reads up to a token that is of none of the kinds. -/
def TracksOperand (kinds : List Token.Kind) (r : Reader Node) : Prop :=
  ∀ {passed groups feed}, Tracks passed ⟨.operand, groups⟩ r (Before kinds groups) feed

/-- A connective is spelt by one of two kinds. -/
theorem connectiveKind_cases (c : Connective) :
    connectiveKind c = .andWord ∨ connectiveKind c = .orWord := by
  cases c
  · exact .inl rfl
  · exact .inr rfl

/-- The operands that follow lead to the end of an operand that the connective does not follow. -/
theorem moreOperands_tracks {c : Connective} {kinds : List Token.Kind} {operand : Reader Node}
    (hoperand : TracksOperand kinds operand) (deepest : Nat) (node : Node)
    (h : Before kinds groups s feed.current.kind) :
    Tracks passed s (moreOperands limits c operand deepest node)
      (Before (connectiveKind c :: kinds) groups) feed := by
  -- every operand makes the run higher, and no run passes the limit
  induction hm : limits.height - node.height using Nat.strongRecOn
    generalizing deepest node passed s feed with
  | ind m ih =>
    rw [moreOperands]
    refine .peek_bind ?_
    split
    · next hk =>
      have hkind : feed.current.kind = .andWord ∨ feed.current.kind = .orWord := by
        rw [hk]
        exact connectiveKind_cases c
      have hend : feed.current.kind ≠ .endOfInput := by
        rcases hkind with hkind | hkind <;> simp [hkind]
      have hover := h.settled.ends
      refine .advance_bind ((Next.connective hover c).step?_eq hk (hover.admits _)) hend
        fun _ _ => .bind hoperand fun right _ _ _ hbefore => ?_
      simp only
      -- a limit is reported at the connective, which has been passed
      split
      · exact .limit List.mem_cons_self ⟨.inl rfl, .inr hkind⟩
      · split
        · exact .limit List.mem_cons_self ⟨.inr rfl, .inr hkind⟩
        · exact ih _ (by simp only; omega) _ _ hbefore rfl
    · next hk =>
      refine .pure ⟨h.settled, ?_⟩
      rw [List.mem_cons, not_or]
      exact ⟨hk, h.notMem⟩

/-- A run leads to the end of an operand that neither its connective nor a tighter one follows. -/
theorem chain_tracks {c : Connective} {kinds : List Token.Kind} {operand : Reader Node}
    (hoperand : TracksOperand kinds operand) :
    TracksOperand (connectiveKind c :: kinds) (chain limits c operand) :=
  .bind hoperand fun _ _ _ _ hbefore => moreOperands_tracks hoperand _ _ hbefore

/-- Parentheses lead to the end of an operand if what stands inside them does. -/
theorem parenthesized_tracks {inner : Option (Reader Node)}
    (hinner : ∀ r ∈ inner, TracksOperand [.orWord, .andWord] r)
    (hk : feed.current.kind = .leftParen) :
    Tracks passed ⟨.operand, groups⟩ (parenthesized limits inner) (Before [] groups) feed := by
  have hstep := (Next.leftParen (n := groups)).step?_eq hk (by simp [Spot.admits, hk])
  refine .advance_bind hstep (by simp [hk]) fun _ _ => ?_
  -- the parenthesis itself may be one too many
  cases inner with
  | none => exact .limit List.mem_cons_self ⟨.inl rfl, .inl hk⟩
  | some r =>
    refine .bind (hinner r rfl) fun _ last s' _ hbefore => ?_
    obtain ⟨hsettled, hnotMem⟩ := hbefore
    have hclose : Tracks (feed.current :: passed) s'
        (expect .rightParen [.rightParen, .andWord, .orWord])
        (fun s'' _ => s'' = ⟨.ended false, groups⟩) last :=
      expect_tracks (by simp)
        (fun hk => (Next.rightParen hsettled.ends).step?_eq hk (hsettled.ends.admits _))
        fun hk => hsettled.unexpected rfl (by simp_all)
    refine .bind hclose ?_
    rintro _ _ _ - rfl
    -- the depth of what is inside may be too large, or the height of the whole
    split
    · exact .limit List.mem_cons_self ⟨.inl rfl, .inl hk⟩
    · split
      · exact .limit List.mem_cons_self ⟨.inr rfl, .inl hk⟩
      · exact .pure ⟨.ended, List.not_mem_nil⟩

/-- An operand of AND leads to its end if what stands in parentheses leads to its own. -/
theorem primary_tracks {inner : Option (Reader Node)}
    (hinner : ∀ r ∈ inner, TracksOperand [.orWord, .andWord] r) :
    TracksOperand [] (primary limits inner) := by
  intro passed groups feed
  have test : feed.current.kind = .identifier ∨ feed.current.kind = .quotedString →
      Tracks passed ⟨.operand, groups⟩
        (key >>= fun k => predicate k >>= fun e => pure ⟨e, 0, 1⟩ : Reader Node)
        (Before [] groups) feed := fun hk =>
    .bind (key_tracks hk) fun k _ _ _ hkeyed =>
      .bind (predicate_tracks k hkeyed) fun _ _ _ _ hsettled =>
        .pure ⟨hsettled, List.not_mem_nil⟩
  refine .peek_bind ?_
  -- an operand starts with a parenthesis or with a key
  split
  · next hk => exact parenthesized_tracks hinner hk
  · next hk => exact test (.inl hk)
  · next hk => exact test (.inr hk)
  · next hparen hword hstring =>
    exact .noViableAlternative
      ⟨rfl, by simpa using ⟨hparen, hword, hstring⟩, List.not_mem_nil⟩

/-- An expression leads to the end of an operand that no connective follows. -/
theorem orExpr_tracks (room : Nat) : TracksOperand [.orWord, .andWord] (orExpr limits room) := by
  induction room with
  | zero => exact chain_tracks (chain_tracks (primary_tracks fun r hr => by cases hr))
  | succ room ih =>
    refine chain_tracks (chain_tracks (primary_tracks fun r hr => ?_))
    cases hr
    exact ih

/-- A whole filter leads from the first state to the end of an operand that the end of the text
follows. -/
theorem filter_tracks :
    Tracks passed State.start (filter limits) (Before [.orWord, .andWord] 0) feed := by
  have hopen : Tracks passed State.start (expect .whereWord [.whereWord])
      (fun s' _ => s' = ⟨.operand, 0⟩) feed :=
    expect_tracks (by simp) (Next.whereWord.step?_eq · rfl)
      fun hk => ⟨rfl, by simpa using hk, List.not_mem_nil⟩
  refine .bind hopen ?_
  rintro _ _ _ - rfl
  refine .bind (orExpr_tracks _) fun _ last s' _ ⟨hsettled, hnotMem⟩ => .peek_bind ?_
  split
  · exact .pure ⟨hsettled, hnotMem⟩
  · next hk => exact .mismatchedInput (hsettled.unexpected rfl (by simp_all))

end

end MetadataFilter.Expr.Parser
