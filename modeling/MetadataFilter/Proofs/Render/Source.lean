import MetadataFilter.Proofs.Expr.Nesting
import MetadataFilter.Proofs.Render.RoundTrip

/-!
# Which trees have a text

A tree is read from some text if and only if its tests are spellable, it leans to the left, and it
keeps within the limits. The text that shows this is the tree as it stands, with its own parentheses
and no others.

## Key results

- `parse_verbatim`: a tree as it stands is read back exactly
- `exists_parse_eq_ok_iff`: which trees are read from texts
-/

namespace MetadataFilter

/-- A tree that leans to the left and keeps within the limits is read back exactly from what is
written for it as it stands. -/
theorem parse_verbatim {config : RenderConfig} (hmap : config.fieldMap = .empty) {e : Expr}
    {s : String} (hs : (FilterText.dialect config).verbatim e = .ok s)
    (hleaves : ∀ l ∈ e.leaves, l.Spellable) (hleans : e.LeansLeft) (hdepth : e.depth ≤ maxDepth)
    (hheight : e.height ≤ maxHeight) : Expr.parse s = .ok e := by
  have hspells := FilterText.spells_verbatim hmap (e.leansLeft_iff_grouped.1 hleans) hs
  rw [Expr.mapKeys_asRead hleaves] at hspells
  exact parse_eq_ok_iff.2 ⟨sentence_of_spells hspells, hdepth, hheight⟩

/-- A tree is read from some text if and only if its keys and values can be spelled, AND joins no OR
and no connective has a looser or equal one on its right without parentheses, and it is neither too
deep nor too high. -/
theorem exists_parse_eq_ok_iff (e : Expr) :
    (∃ text, Expr.parse text = .ok e) ↔
      (∀ l ∈ e.leaves, l.key.Spellable ∧ ∀ v ∈ l.values, v.Spellable) ∧ e.LeansLeft ∧
        e.nesting ≤ 256 ∧ e.height ≤ 2048 := by
  rw [Expr.nesting_eq_depth]
  constructor
  -- what has been read passed both limits and was derived from tokens that spell its tests
  · rintro ⟨text, htext⟩
    obtain ⟨-, hdepth, hheight⟩ := parse_eq_ok_iff.1 htext
    obtain ⟨hleaves, hleans⟩ := spellable_of_parse htext
    exact ⟨hleaves, hleans, hdepth, hheight⟩
  -- the tree as it stands is a text of it
  · rintro ⟨hleaves, hleans, hdepth, hheight⟩
    obtain ⟨s, hs⟩ : ∃ s, (FilterText.dialect .standard).verbatim e = .ok s :=
      FilterText.exists_verbatim rfl hleaves
    exact ⟨s, parse_verbatim rfl hs hleaves hleans hdepth hheight⟩

end MetadataFilter
