import MetadataFilter.Proofs.Expr.Keys

/-!
# The nodes of a tree

A node is known by its place, the way to it from the root: which child is taken at each step. The
places of a tree are listed in pre-order, so that a node comes before all that is below it, and what
is below its first child before its second one.

## Key results

- `mem_places_iff`: a place is listed if there is a node
- `pairwise_places`: the places are in order, none of them twice
- `isLast_cons`: below a child it does not matter what is above
-/

namespace MetadataFilter.Expr

/-- The sides that a node joins, or what it puts into parentheses. -/
def children : Expr → List Expr
  | join _ left right => [left, right]
  | group inner => [inner]
  | _ => []

/-- The node at a place. -/
def node? : Expr → List Nat → Option Expr
  | e, [] => some e
  | e, i :: place => e.children[i]?.bind fun child => child.node? place

/-- The places of all nodes, in pre-order. -/
def places : Expr → List (List Nat)
  | join _ left right => [] :: (left.places.map (0 :: ·) ++ right.places.map (1 :: ·))
  | group inner => [] :: inner.places.map (0 :: ·)
  | _ => [[]]

/-- Whether the node at a place is the last child of its parent. The root has no parent. -/
def isLast (e : Expr) (place : List Nat) : Bool :=
  match e.node? place.dropLast, place.getLast? with
  | some parent, some i => i + 1 == parent.children.length
  | _, _ => false

/-! ### Places in pre-order -/

/-- Below a child, a node is found from the child. -/
theorem node?_cons {e child : Expr} {i : Nat} (h : e.children[i]? = some child) (place : List Nat) :
    e.node? (i :: place) = child.node? place := by
  rw [node?, h, Option.bind_some]

/-- The places that are listed are those of the nodes. -/
theorem mem_places_iff {e : Expr} {place : List Nat} :
    place ∈ e.places ↔ (e.node? place).isSome := by
  induction e generalizing place with
  | join c left right hl hr =>
    match place with
    -- Only the two sides, numbered from zero, are children.
    | [] => simp [places, node?]
    | 0 :: place => simp [places, node?, children, hl]
    | 1 :: place => simp [places, node?, children, hr]
    | (i + 2) :: place => simp [places, node?, children]
  | group inner ih =>
    match place with
    | [] => simp [places, node?]
    | 0 :: place => simp [places, node?, children, ih]
    | (i + 1) :: place => simp [places, node?, children]
  | _ => cases place <;> simp [places, node?, children]

/-- Places below one child are in the order that they have there. -/
theorem pairwise_map_cons {places : List (List Nat)} (h : places.Pairwise (· < ·)) (i : Nat) :
    (places.map (i :: ·)).Pairwise (· < ·) := by
  rw [List.pairwise_map]
  exact h.imp fun hlt => List.Lex.cons hlt

/-- A node comes before all that is below it, and the nodes below its first child come before those
below its second one. -/
theorem pairwise_places (e : Expr) : e.places.Pairwise (· < ·) := by
  induction e with
  | join c left right hl hr =>
    refine List.pairwise_cons.2 ⟨fun place hplace => ?_, List.pairwise_append.2
      ⟨pairwise_map_cons hl 0, pairwise_map_cons hr 1, fun place hplace other hother => ?_⟩⟩
    -- The root comes before its children, and everything under the left side before everything
    -- under the right one.
    · rcases List.mem_append.1 hplace with hplace | hplace
      all_goals
        obtain ⟨below, -, rfl⟩ := List.mem_map.1 hplace
        exact List.Lex.nil
    · obtain ⟨below, -, rfl⟩ := List.mem_map.1 hplace
      obtain ⟨below', -, rfl⟩ := List.mem_map.1 hother
      exact List.Lex.rel Nat.zero_lt_one
  | group inner ih =>
    refine List.pairwise_cons.2 ⟨fun place hplace => ?_, pairwise_map_cons ih 0⟩
    obtain ⟨below, -, rfl⟩ := List.mem_map.1 hplace
    exact List.Lex.nil
  | _ => exact List.pairwise_singleton _ _

/-- The places do not depend on the keys. -/
theorem places_mapKeys (f : Key → Key) (e : Expr) : (e.mapKeys f).places = e.places := by
  induction e with
  | join c left right hl hr => simp only [mapKeys, places, hl, hr]
  | group inner ih => simp only [mapKeys, places, ih]
  | _ => rfl

/-! ### Last children -/

/-- Below a child it does not matter what is above. -/
theorem isLast_cons {e child : Expr} {i : Nat} (h : e.children[i]? = some child) {place : List Nat}
    (hplace : place ≠ []) : e.isLast (i :: place) = child.isLast place := by
  have hlast : (i :: place).getLast? = place.getLast? := by
    obtain ⟨j, place, rfl⟩ := List.exists_cons_of_ne_nil hplace
    rfl
  rw [isLast, isLast, hlast, List.dropLast_cons_of_ne_nil hplace, node?_cons h]

end MetadataFilter.Expr
