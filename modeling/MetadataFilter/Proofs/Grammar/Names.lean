import MetadataFilter.Proofs.Grammar.Spellable
import MetadataFilter.Render.Config

/-!
# The keys of filters that have been read

A key that stands in a filter's text is an identifier, one identifier inside another, or a string
that is not empty. Trees that are built in another way may have any keys.

## Key results

- `readable_of_parse`: the keys of a filter that has been read
- `Key.Readable.notMem`: what cannot stand in the names of such a key, unless it is quoted
-/

namespace MetadataFilter

/-- A key as texts can spell it. -/
def Key.Readable : Key → Prop
  | .field name => Token.isIdentifier name = true
  | .nested parent child => Token.isIdentifier parent = true ∧ Token.isIdentifier child = true
  | .quoted name => name ≠ ""

/-- Only quoted keys can have other characters in their names than words have. -/
theorem Key.Readable.notMem {k : Key} (h : k.Readable) (hk : ∀ name, k ≠ .quoted name) {c : Char}
    (hc : Token.isWordChar c = false) :
    ∀ segment ∈ (FieldPath.ofKey k).segments, c ∉ segment.toList := by
  have hname : ∀ name, Token.isIdentifier name = true → c ∉ name.toList :=
    fun name h => Text.notMem_of_isWord (Bool.and_eq_true_iff.1 h).1 hc
  -- A quoted key is excluded, and the others are made of identifiers.
  cases k with
  | field name =>
    intro segment hsegment
    rw [List.mem_singleton.1 hsegment]
    exact hname name h
  | nested parent child =>
    intro segment hsegment
    simp only [FieldPath.ofKey, FieldPath.segments, List.mem_cons, List.not_mem_nil,
      or_false] at hsegment
    rcases hsegment with rfl | rfl
    · exact hname _ h.1
    · exact hname _ h.2
  | quoted name => exact absurd rfl (hk name)

/-- Whether a string has line breaks does not matter here. -/
theorem Key.Spellable.readable {k : Key} (h : k.Spellable) : k.Readable := by
  cases k with
  | field name => exact h
  | nested parent child => exact h
  | quoted name => exact h.1

/-- The keys of a filter that has been read are such as texts can spell. -/
theorem readable_of_parse {text : String} {e : Expr} (h : Expr.parse text = .ok e) :
    ∀ l ∈ e.leaves, l.key.Readable :=
  fun l hl => ((spellable_of_parse h).1 l hl).1.readable

end MetadataFilter
