import MetadataFilter.Expr.Parser

/-!
# Remembering parsed filters

A cache keeps the trees of texts that have been parsed. A tree that is shared is one value with one
label; a text that is parsed anew gets a new label. A full cache is emptied before it takes in
another text, and a text that is no filter leaves it alone.

Main statements:

* `parse_of_get?`   a text that is kept is not parsed again
* `parse_of_error`  a text that is no filter changes nothing
* `add_of_get?_eq_none`  what it takes in is new if it has just been looked for in vain
-/

namespace MetadataFilter

/-- A tree that is shared by all who got it under its label. -/
structure SharedExpr where
  expr : Expr
  label : Nat
deriving DecidableEq

/-- The trees of texts, at most `capacity` of them, and the label that comes next. -/
structure Cache where
  capacity : Nat
  entries : List (String × SharedExpr)
  nextLabel : Nat

namespace Cache

/-- How many texts a cache keeps if nothing else is said. -/
def standardCapacity : Nat := 256

/-- The cache that keeps no text yet; a capacity of none counts as one. -/
def withCapacity (capacity : Nat) : Cache := ⟨max capacity 1, [], 0⟩

/-- How many texts are kept. -/
def size (cache : Cache) : Nat := cache.entries.length

/-- Whether no text is kept. -/
def isEmpty (cache : Cache) : Bool := cache.entries.isEmpty

/-- The tree of a text that is kept. -/
def get? (cache : Cache) (text : String) : Option SharedExpr := cache.entries.lookup text

/-- Keeps no text any more. -/
def clear (cache : Cache) : Cache := { cache with entries := [] }

/-- Keeps the tree of a text under a new label. A full cache is emptied before, unless it keeps the
text, and a text that is kept keeps the tree that it has. Someone else may have added the text since
it was looked for, so this does not take for granted that it is new. -/
def add (cache : Cache) (text : String) (expr : Expr) : SharedExpr × Cache :=
  let fresh : SharedExpr := ⟨expr, cache.nextLabel⟩
  let kept := if cache.capacity ≤ cache.size ∧ cache.get? text = none then cache.clear else cache
  match kept.get? text with
  | some shared => (shared, { kept with nextLabel := cache.nextLabel + 1 })
  | none => (fresh, ⟨cache.capacity, (text, fresh) :: kept.entries, cache.nextLabel + 1⟩)

/-- The tree of a text, parsed if it is not kept yet, and the cache after that. -/
def parse (cache : Cache) (text : String) : Except FilterError SharedExpr × Cache :=
  match cache.get? text with
  | some shared => (.ok shared, cache)
  | none =>
    match Expr.parse text with
    | .error e => (.error e, cache)
    | .ok expr =>
      let (shared, cache) := cache.add text expr
      (.ok shared, cache)

/-- A text that is kept is not parsed again, and the cache stays as it is. -/
theorem parse_of_get? {cache : Cache} {text : String} {shared : SharedExpr}
    (h : cache.get? text = some shared) : cache.parse text = (.ok shared, cache) := by
  simp [parse, h]

/-- A text that is no filter changes nothing. -/
theorem parse_of_error {cache : Cache} {text : String} {e : FilterError}
    (hg : cache.get? text = none) (hp : Expr.parse text = .error e) :
    cache.parse text = (.error e, cache) := by
  simp [parse, hg, hp]

@[simp] theorem get?_clear (cache : Cache) (text : String) : cache.clear.get? text = none := rfl

/-- Where the text has just been looked for in vain, both tests for it are idle: whether the cache
is emptied depends on its size alone, and the new tree is the one that is kept. -/
theorem add_of_get?_eq_none {cache : Cache} {text : String} (h : cache.get? text = none)
    (expr : Expr) :
    cache.add text expr = (⟨expr, cache.nextLabel⟩, ⟨cache.capacity,
      (text, ⟨expr, cache.nextLabel⟩) ::
        if cache.capacity ≤ cache.size then [] else cache.entries, cache.nextLabel + 1⟩) := by
  by_cases hfull : cache.capacity ≤ cache.size
  · simp only [add, hfull, h, and_self, if_true, get?_clear]
    -- Only the match on what is kept remains, and after the emptying nothing is.
    rfl
  · simp [add, hfull, h]

/-- What has just been added is found, under the label that came next. -/
theorem get?_add_self {cache : Cache} {text : String} (h : cache.get? text = none) (expr : Expr) :
    (cache.add text expr).2.get? text = some ⟨expr, cache.nextLabel⟩ := by
  simp [add_of_get?_eq_none h, get?]

/-- No cache has room for nothing. -/
theorem capacity_withCapacity_pos (capacity : Nat) : 0 < (withCapacity capacity).capacity :=
  Nat.lt_of_lt_of_le Nat.zero_lt_one (Nat.le_max_right _ _)

/-- Taking in a text leaves at most the capacity, since a full cache is emptied before. -/
theorem size_add_le {cache : Cache} (h : 0 < cache.capacity) {text : String}
    (hnew : cache.get? text = none) (expr : Expr) :
    (cache.add text expr).2.size ≤ cache.capacity := by
  rw [add_of_get?_eq_none hnew]
  unfold size
  dsimp only
  split
  · exact h
  · next hfull => simp only [List.length_cons]; omega

/-- A cache is empty where its size is zero. -/
theorem isEmpty_iff_size {cache : Cache} : cache.isEmpty = true ↔ cache.size = 0 := by
  simp [isEmpty, size]

end Cache

end MetadataFilter
