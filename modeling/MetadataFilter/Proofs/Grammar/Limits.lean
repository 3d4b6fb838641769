import MetadataFilter.Proofs.Expr.Nesting
import MetadataFilter.Proofs.Grammar.Parse

/-!
# The limits on size are exact

While a filter is read, every part carries its depth and its height along. They are the depth and
the height of its tree, so that a tree is refused exactly if it is too deep or too high. How many
parentheses are open is looked at before there is a tree, and refuses no tree that is not too deep.

## Key results

- `moreOperands_measured`: one more operand keeps the size of a run exact
- `levelReader_measured`: whatever is read carries the size of its tree
- `parse_within_limits`: a filter is read if and only if it keeps within the limits
-/

namespace MetadataFilter

namespace Expr.Parser

open Grammar

/-- What `r` reads carries the size of its tree. -/
def Measured (r : Reader Node) : Prop :=
  ∀ feed node feed', r feed = .ok (node, feed') → node = .ofExpr node.expr

variable {limits : Limits}

/-- A run carries its size along, and the depth of its deepest operand as well. -/
theorem moreOperands_measured {c : Connective} {operand : Reader Node} (hoperand : Measured operand)
    {deepest : Nat} {node node' : Node} {feed feed' : Feed}
    (h : moreOperands limits c operand deepest node feed = .ok (node', feed'))
    (hnode : node = .ofExpr node.expr) (hdeepest : deepest = node.expr.depthAfter (some c)) :
    node' = .ofExpr node'.expr := by
  -- every operand makes the run higher, and no run passes the limit
  induction hm : limits.height - node.height using Nat.strongRecOn
    generalizing deepest node feed with
  | ind m ih =>
    rw [moreOperands, peek_bind] at h
    split at h
    · obtain ⟨t, feed1, -, h⟩ := bind_eq_ok h
      obtain ⟨right, feed2, hright, h⟩ := bind_eq_ok h
      have hright := hoperand _ _ _ hright
      simp only at h
      split at h
      · cases h
      · split at h
        · cases h
        · refine ih _ (by simp only; omega) h ?_ ?_ rfl
          -- the depth of the deepest operand is that of the run, less the level of the run
          · rw [hnode, hright, hdeepest]
            rfl
          · rw [hdeepest, hright]
            exact (depthAfter_join c node.expr right.expr).symm
    · cases h
      exact hnode

/-- A run starts with an operand that is no run of the same connective. -/
theorem chain_measured {c : Connective} {operand : Reader Node} (hoperand : Measured operand)
    (hsound : Sound (fun ts node => Derives (operandLevel c) ts node.expr) operand) :
    Measured (chain limits c operand) := by
  intro feed node feed' h
  obtain ⟨first, next, hfirst, h⟩ := bind_eq_ok h
  have hnode := hoperand _ _ _ hfirst
  obtain ⟨ts, hts, -⟩ := hsound _ _ _ hfirst
  refine moreOperands_measured hoperand h hnode ?_
  rw [depthAfter_operand hts, hnode]
  rfl

/-- An operand of AND carries its size if what stands in parentheses does. -/
theorem primary_measured {inner : Option (Reader Node)} (hinner : ∀ r ∈ inner, Measured r) :
    Measured (primary limits inner) := by
  -- what starts with a name is a test, and a test is a leaf
  have test : ∀ (feed : Feed) (node : Node) (feed' : Feed),
      (key >>= fun k => predicate k >>= fun e => pure ⟨e, 0, 1⟩ : Reader Node) feed =
        .ok (node, feed') → node = .ofExpr node.expr := by
    intro feed node feed' h
    obtain ⟨k, next, hk, h⟩ := bind_eq_ok h
    obtain ⟨e, last, he, h⟩ := bind_eq_ok h
    cases h
    obtain ⟨ks, name, -⟩ := key_sound _ _ _ hk
    obtain ⟨ts, hts, -⟩ := predicate_sound name he
    exact (ofExpr_test hts).symm
  intro feed node feed' h
  unfold primary at h
  rw [peek_bind] at h
  -- The first token tells parentheses from a test; every other one is an error.
  cases hk : feed.current.kind <;> rw [hk] at h
  case leftParen =>
    obtain ⟨opening, feed1, -, h⟩ := bind_eq_ok h
    cases inner with
    | none => cases h
    | some r =>
      obtain ⟨node, feed2, hnode, h⟩ := bind_eq_ok h
      obtain ⟨closing, feed3, -, h⟩ := bind_eq_ok h
      have hnode := hinner r rfl _ _ _ hnode
      split at h
      · cases h
      · split at h
        · cases h
        -- parentheses add one level and one node
        · cases h
          rw [hnode]
          rfl
  case identifier => exact test _ _ _ h
  case quotedString => exact test _ _ _ h
  all_goals cases h

/-- The parts of a level are derivable at that level. -/
theorem levelReader_sound (limits : Limits) (room : Nat) (level : Level) :
    Sound (fun ts node => Derives level ts node.expr)
      (levelReader limits (innerReader limits room) level) := by
  -- The levels inside parentheses come first, since every level is made of operands.
  have hinner : ∀ r ∈ innerReader limits room,
      Sound (fun ts node => Derives (.run .or) ts node.expr) r := by
    intro r hr
    cases room with
    | zero => cases hr
    | succ room =>
      cases hr
      exact orExpr_sound room
  have hprimary : Sound (fun ts node => Derives .primary ts node.expr)
      (primary limits (innerReader limits room)) :=
    primary_sound hinner
  cases level with
  | primary => exact hprimary
  | run c =>
    cases c with
    | and => exact chain_sound hprimary
    | or => exact chain_sound (chain_sound hprimary)

/-- What is read at a level is measured if what stands in parentheses is. -/
theorem levelReader_measured_of_inner (room : Nat)
    (hinner : ∀ r ∈ innerReader limits room, Measured r) (level : Level) :
    Measured (levelReader limits (innerReader limits room) level) := by
  have hprimary : Measured (primary limits (innerReader limits room)) := primary_measured hinner
  have hand : Measured (levelReader limits (innerReader limits room) (.run .and)) :=
    chain_measured hprimary (levelReader_sound limits room .primary)
  cases level with
  | primary => exact hprimary
  | run c =>
    cases c with
    | and => exact hand
    | or => exact chain_measured hand (levelReader_sound limits room (.run .and))

/-- Whatever is read at a level carries the size of its tree. -/
theorem levelReader_measured (limits : Limits) (room : Nat) (level : Level) :
    Measured (levelReader limits (innerReader limits room) level) := by
  induction room generalizing level with
  | zero => exact levelReader_measured_of_inner 0 (fun r hr => nomatch hr) level
  -- inside of parentheses one less may be open
  | succ room ih =>
    refine levelReader_measured_of_inner (room + 1) (fun r hr => ?_) level
    cases hr
    rw [orExpr_eq]
    exact ih (.run .or)

/-- A filter is nested at least as deeply as its parentheses. -/
theorem openGroups_le_nesting (e : Expr) : e.openGroups ≤ e.nesting := by
  rw [e.nesting_eq_depth]
  exact e.openGroups_le_depthAfter none

end Expr.Parser

open Expr.Parser Grammar

/-- A text that fits the grammar is read if and only if its tree keeps within the limits, and else
the error names a limit that the tree passes. All parts carry the size of their trees along, and no
tree has more open parentheses than levels. -/
theorem parse_within_limits {text : String} {e : Expr}
    (hfault : (Token.stream (normalize text)).fault? = none)
    (h : Sentence (Token.stream (normalize text)).tokens e) :
    (Expr.parse text = .ok e ↔ e.nesting ≤ 256 ∧ e.height ≤ 2048) ∧
    (¬ (e.nesting ≤ 256 ∧ e.height ≤ 2048) →
      ∃ position, Expr.parse text = .error (.tooDeep position) ∨
        Expr.parse text = .error (.tooLarge position)) ∧
    (∀ position, Expr.parse text = .error (.tooDeep position) → 256 < e.nesting) ∧
    (∀ position, Expr.parse text = .error (.tooLarge position) → 2048 < e.height) ∧
    (∀ limits room level feed node feed',
      levelReader limits (innerReader limits room) level feed = .ok (node, feed') →
        node.depth = node.expr.nesting ∧ node.height = node.expr.height) ∧
    e.openGroups ≤ e.nesting := by
  -- `nesting` looks at whole runs and the reader counts step by step, but both come to one depth
  have hiff : Expr.parse text = .ok e ↔ e.depth ≤ 256 ∧ e.height ≤ 2048 :=
    parse_eq_ok_iff.trans (and_iff_right ⟨hfault, h⟩)
  have hread := parse_of_sentence hfault h
  refine ⟨?_, ?_, ?_, ?_, ?_, openGroups_le_nesting e⟩
  · rw [Expr.nesting_eq_depth]
    exact hiff
  · intro hpassed
    rw [Expr.nesting_eq_depth] at hpassed
    rcases hread with hok | ⟨position, herror, -⟩ | ⟨position, herror, -⟩
    · exact absurd (hiff.1 hok) hpassed
    · exact ⟨position, .inl herror⟩
    · exact ⟨position, .inr herror⟩
  -- a text has one result, so an error is the one that names the limit
  · intro position herror
    rw [Expr.nesting_eq_depth]
    rcases hread with hok | ⟨_, -, hdeep⟩ | ⟨_, herror', -⟩
    · cases hok.symm.trans herror
    · exact hdeep
    · cases herror'.symm.trans herror
  · intro position herror
    rcases hread with hok | ⟨_, herror', -⟩ | ⟨_, -, hlarge⟩
    · cases hok.symm.trans herror
    · cases herror'.symm.trans herror
    · exact hlarge
  · intro limits room level feed node feed' hnode
    have hsize := levelReader_measured limits room level feed node feed' hnode
    rw [Expr.nesting_eq_depth]
    exact ⟨congrArg Node.depth hsize, congrArg Node.height hsize⟩

/-- A filter with both connectives and parentheses, which stays well within the limits. -/
theorem parse_within_limits_alternating :
    (Token.stream (normalize "a == 1 or (b == 2 or c == 3) and d == 4")).fault? = none ∧
    Sentence (Token.stream (normalize "a == 1 or (b == 2 or c == 3) and d == 4")).tokens
      (.join .or (.comparison (.field "a") .equal (.integer 1))
        (.join .and
          (.group (.join .or (.comparison (.field "b") .equal (.integer 2))
            (.comparison (.field "c") .equal (.integer 3))))
          (.comparison (.field "d") .equal (.integer 4)))) ∧
    (Expr.join .or (.comparison (.field "a") .equal (.integer 1))
      (.join .and
        (.group (.join .or (.comparison (.field "b") .equal (.integer 2))
          (.comparison (.field "c") .equal (.integer 3))))
        (.comparison (.field "d") .equal (.integer 4)))).nesting = 4 ∧
    Expr.parse "a == 1 or (b == 2 or c == 3) and d == 4" = .ok
      (.join .or (.comparison (.field "a") .equal (.integer 1))
        (.join .and
          (.group (.join .or (.comparison (.field "b") .equal (.integer 2))
            (.comparison (.field "c") .equal (.integer 3))))
          (.comparison (.field "d") .equal (.integer 4)))) := by
  have hparse : Expr.parse "a == 1 or (b == 2 or c == 3) and d == 4" = .ok
      (.join .or (.comparison (.field "a") .equal (.integer 1))
        (.join .and
          (.group (.join .or (.comparison (.field "b") .equal (.integer 2))
            (.comparison (.field "c") .equal (.integer 3))))
          (.comparison (.field "d") .equal (.integer 4)))) :=
    eq_ok_of_toOption (by decide +kernel)
  obtain ⟨⟨hfault, h⟩, -⟩ := parse_eq_ok_iff.1 hparse
  have hnesting : (Expr.join .or (.comparison (.field "a") .equal (.integer 1))
      (.join .and
        (.group (.join .or (.comparison (.field "b") .equal (.integer 2))
          (.comparison (.field "c") .equal (.integer 3))))
        (.comparison (.field "d") .equal (.integer 4)))).nesting = 4 := by
    rw [Expr.nesting_eq_depth]
    rfl
  refine ⟨hfault, h, hnesting, (parse_within_limits hfault h).1.2 ⟨?_, ?_⟩⟩
  · rw [hnesting]
    decide
  · decide

end MetadataFilter
