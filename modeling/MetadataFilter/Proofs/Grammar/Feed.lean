import MetadataFilter.Proofs.Grammar

/-!
# Tokens in front of what is left

The readers of `Expr.Parser` work on a feed, the grammar on lists of tokens. `Feed.prepend` relates
the two: `prepend ts feed` has the tokens `ts` in front of `feed`, and to take a token is to take
the first of them.

## Key results

- `eq_prepend_of_advance`: what has been taken stood in front of what is left
- `advance_prepend`: the first token in front is taken
- `stream_eq_prepend`: a stream without fault is its tokens in front of its end
- `bind_eq_ok`: two readers in a row succeed if each of them does
-/

namespace MetadataFilter.Expr.Parser

namespace Feed

/-- What is left, as a stream. -/
def stream : Feed → Token.Stream
  | done position => .finish position
  | more token rest => .next token rest

/-- What is left with the tokens `ts` in front of it. -/
def prepend (ts : List Token) (feed : Feed) : Feed :=
  ts.foldr (fun t feed => .more t feed.stream) feed

@[simp] theorem ofStream_stream (feed : Feed) : ofStream feed.stream = .ok feed := by
  cases feed <;> rfl

/-- What is left at the start of a stream is the stream. -/
theorem stream_of_ofStream {stream : Token.Stream} {feed : Feed} (h : ofStream stream = .ok feed) :
    feed.stream = stream := by
  cases stream <;> simp only [ofStream, Except.ok.injEq, reduceCtorEq] at h <;> subst h <;> rfl

@[simp] theorem prepend_nil (feed : Feed) : prepend [] feed = feed := rfl

/-- Tokens in two parts in front of what is left. -/
theorem prepend_append (ts us : List Token) (feed : Feed) :
    prepend (ts ++ us) feed = prepend ts (prepend us feed) := by
  simp [prepend]

theorem prepend_cons (t : Token) (ts : List Token) (feed : Feed) :
    prepend (t :: ts) feed = .more t (prepend ts feed).stream := rfl

/-- As a stream, what is left has the tokens in front of it too. -/
theorem stream_prepend (ts : List Token) (feed : Feed) :
    (prepend ts feed).stream = ts.foldr .next feed.stream := by
  induction ts with
  | nil => rfl
  | cons t ts ih => rw [prepend_cons, List.foldr_cons, ← ih]; rfl

@[simp] theorem current_prepend_cons (t : Token) (ts : List Token) (feed : Feed) :
    (prepend (t :: ts) feed).current = t := rfl

/-- A stream without a fault is its tokens, and the last of them is its end. -/
theorem stream_eq_prepend {stream : Token.Stream} (h : stream.fault? = none) :
    ∃ ts position, stream.tokens = ts ++ [.endOfInput position] ∧
      stream = (prepend ts (done position)).stream := by
  induction stream with
  | fault e => simp [Token.Stream.fault?] at h
  | finish position => exact ⟨[], position, rfl, rfl⟩
  | next token rest ih =>
    obtain ⟨ts, position, htokens, hrest⟩ := ih h
    refine ⟨token :: ts, position, ?_, ?_⟩
    · simp [Token.Stream.tokens, htokens]
    · rw [prepend_cons, hrest]
      rfl

/-- Tokens in front of an end make up a stream without a fault. -/
theorem tokens_stream_prepend (ts : List Token) (position : Position) :
    (prepend ts (done position)).stream.fault? = none ∧
      (prepend ts (done position)).stream.tokens = ts ++ [.endOfInput position] := by
  induction ts with
  | nil => exact ⟨rfl, rfl⟩
  -- the token in front is no fault, so only what follows it counts
  | cons t ts ih =>
    refine ⟨ih.1, ?_⟩
    show t :: (prepend ts (done position)).stream.tokens = _
    rw [ih.2, List.cons_append]

end Feed

open Feed

/-! ### Taking tokens -/

/-- The first token in front is taken, and the others stay. -/
theorem advance_prepend (t : Token) (ts : List Token) (feed : Feed) :
    advance (prepend (t :: ts) feed) = .ok (t, prepend ts feed) := by
  show (ofStream (prepend ts feed).stream).map (fun feed => (t, feed)) = _
  rw [ofStream_stream]
  rfl

/-- What has been taken stood in front of what is left. -/
theorem eq_prepend_of_advance {feed feed' : Feed} {t : Token} (h : advance feed = .ok (t, feed'))
    (hk : feed.current.kind ≠ .endOfInput) : feed = prepend [t] feed' := by
  cases feed with
  | done => exact absurd rfl hk
  -- only a token that is not the end is given up when it is taken
  | more token rest =>
    unfold advance at h
    cases hs : ofStream rest with
    | error e => simp [hs, Except.map] at h
    | ok next =>
      simp only [hs, Except.map, Except.ok.injEq, Prod.mk.injEq] at h
      obtain ⟨rfl, rfl⟩ := h
      show more token rest = more token next.stream
      rw [stream_of_ofStream hs]

/-! ### Readers in a row -/

section

variable {α β : Type} {r : Reader α} {f : α → Reader β} {feed feed' : Feed}

/-- What follows a reader that succeeds goes on from what is left. -/
theorem bind_of_ok {x : α} (h : r feed = .ok (x, feed')) : (r >>= f) feed = f x feed' := by
  simp only [bind, StateT.bind, Except.bind, h]

/-- What follows a reader that fails is not reached. -/
theorem bind_of_error {e : FilterError} (h : r feed = .error e) : (r >>= f) feed = .error e := by
  simp only [bind, StateT.bind, Except.bind, h]

/-- Two readers in a row succeed if each of them does. -/
theorem bind_eq_ok {y : β} (h : (r >>= f) feed = .ok (y, feed')) :
    ∃ x next, r feed = .ok (x, next) ∧ f x next = .ok (y, feed') := by
  cases hr : r feed with
  | error e => rw [bind_of_error hr] at h; cases h
  | ok p =>
    obtain ⟨x, next⟩ := p
    rw [bind_of_ok hr] at h
    exact ⟨x, next, rfl, h⟩

theorem peek_bind (f : Token.Kind → Reader β) (feed : Feed) :
    (peek >>= f) feed = f feed.current.kind feed := rfl

/-- Taking the first token in front, and then going on. -/
theorem advance_bind (f : Token → Reader β) (t : Token) (ts : List Token) (feed : Feed) :
    (advance >>= f) (prepend (t :: ts) feed) = f t (prepend ts feed) :=
  bind_of_ok (advance_prepend t ts feed)

/-- Taking the first token in front if it is of the kind that has to come, and then going on. -/
theorem expect_bind (f : Token → Reader β) {t : Token} {kind : Token.Kind}
    (expected : List Token.Kind) (ts : List Token) (feed : Feed) (h : t.kind = kind) :
    (expect kind expected >>= f) (prepend (t :: ts) feed) = f t (prepend ts feed) := by
  refine bind_of_ok ?_
  unfold expect
  rw [peek_bind, current_prepend_cons, if_pos h, advance_prepend]

/-- An expected token that has been taken stood in front of what is left. -/
theorem eq_prepend_of_expect {kind : Token.Kind} {expected : List Token.Kind} {t : Token}
    (h : expect kind expected feed = .ok (t, feed')) (hk : kind ≠ .endOfInput) :
    t.kind = kind ∧ feed = prepend [t] feed' := by
  unfold expect at h
  rw [peek_bind] at h
  split at h
  · next hkind =>
    have heq := eq_prepend_of_advance h (hkind ▸ hk)
    rw [heq, current_prepend_cons] at hkind
    exact ⟨hkind, heq⟩
  · cases h

end

end MetadataFilter.Expr.Parser
