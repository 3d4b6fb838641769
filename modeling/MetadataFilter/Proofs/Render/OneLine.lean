import MetadataFilter.Proofs.Render.Characters
import MetadataFilter.Proofs.Render.RoundTrip

/-!
# The canonical spelling is one line

A filter is written without line breaks, whatever its keys and strings are: those that hold a line
break cannot be written at all. And it starts with a key or a parenthesis, so never with a dash.

## Key results

- `OneLine.value`, `OneLine.key`: the parts of a test
- `OneLine.render`: the canonical spelling is one line
- `head?_ne_dash`: it starts with no dash
-/

namespace MetadataFilter

open Grammar Text

namespace FilterText

/-- A text without line breaks. -/
def OneLine (s : String) : Prop := ∀ c ∈ s.toList, Token.isLineBreak c = false

instance (s : String) : Decidable (OneLine s) :=
  inferInstanceAs (Decidable (MadeOf (Token.isLineBreak · = false) s))

namespace OneLine

variable {s t : String}

/-- Two lines without breaks make one. -/
theorem append (hs : OneLine s) (ht : OneLine t) : OneLine (s ++ t) := MadeOf.append hs ht

/-- A printable character breaks no line. -/
theorem isLineBreak_of_isPrintable {c : Char} (h : isPrintable c = true) :
    Token.isLineBreak c = false := by
  refine Bool.eq_false_iff.2 fun hbreak => ?_
  rcases Bool.or_eq_true_iff.1 hbreak with hc | hc <;>
    exact absurd (eq_of_beq hc ▸ h) (by decide)

/-! ### Keys and values -/

/-- An identifier is one line. -/
theorem of_isIdentifier (h : Token.isIdentifier s = true) : OneLine s := by
  obtain ⟨hword, -⟩ := Bool.and_eq_true_iff.1 h
  obtain ⟨first, cs, htext, -, hchars⟩ := isWord_iff.1 hword
  intro c hc
  rw [htext] at hc
  exact Token.isLineBreak_of_class (by decide) (by decide) (hchars c hc)

/-- A text with a line break cannot stand between delimiters. -/
theorem of_quoted {delimiter : Char} (h : FilterText.quoted delimiter s = .ok t) : OneLine s := by
  unfold FilterText.quoted at h
  split at h
  · cases h
  · next hbreak => simpa [OneLine] using hbreak

/-- A quoted name is one line, since a name with a line break cannot be quoted. -/
theorem quotedName {n : String} (h : FilterText.quotedName n = .ok s) : OneLine s := by
  have hn : OneLine n := by
    unfold FilterText.quotedName at h
    split at h
    · cases h
    · exact of_quoted h
  exact MadeOf.quotedName (fun _ => isLineBreak_of_isPrintable) hn h

/-- A name is one line. -/
theorem name {n : String} (h : FilterText.name n = .ok s) : OneLine s := by
  unfold FilterText.name at h
  split at h
  · next hid =>
    cases h
    exact of_isIdentifier hid
  · exact quotedName h

/-- A key is one line. -/
theorem key {config : RenderConfig} {k : Key} (h : FilterText.key config k = .ok s) :
    OneLine s := by
  unfold FilterText.key at h
  split at h
  · exact name h
  · exact name h
  · exact quotedName h
  · split at h
    · next hids =>
      cases h
      obtain ⟨hparent, hchild⟩ := Bool.and_eq_true_iff.1 hids
      exact ((of_isIdentifier hparent).append (by decide)).append (of_isIdentifier hchild)
    · cases h

/-- A value is one line. -/
theorem value {v : Value} (h : FilterText.value v = .ok s) : OneLine s := by
  refine MadeOf.value (fun _ => isLineBreak_of_isPrintable) ?_ h
  rintro t rfl
  exact of_quoted h

/-! ### Whole filters -/

section

variable {config : RenderConfig}

/-- A comparison is one line. -/
theorem comparison {k : Key} {op : CompareOp} {v : Value}
    (h : (dialect config).comparison k op v = .ok s) : OneLine s :=
  MadeOf.comparison (fun _ => isLineBreak_of_isPrintable) (fun _ => key) (fun _ => value) h

/-- A membership test is one line. -/
theorem membership {k : Key} {negated : Bool} {vs : ValueList}
    (h : (dialect config).membership k negated vs = .ok s) : OneLine s :=
  MadeOf.membership (fun _ => isLineBreak_of_isPrintable) (fun _ => key) (fun _ _ _ => value) h

/-- The canonical spelling is one line, whatever names are mapped. -/
theorem render {e : Expr} (h : FilterText.render config e = .ok s) : OneLine s := by
  refine @Dialect.render_induction (dialect config) (fun _ s _ => OneLine s)
    comparison membership ?_ ?_ ?_ e s h
  · exact fun _ h => h
  · exact fun hs ht => (hs.append (MadeOf.connective
      (fun _ => isLineBreak_of_isPrintable) config _)).append ht
  · exact fun h => (append (by decide) h).append (by decide)

end

end OneLine

/-- The canonical spelling starts with a key or a parenthesis. -/
theorem head?_ne_dash {config : RenderConfig} (hmap : config.fieldMap = .empty) {e : Expr}
    {s : String} (h : render config e = .ok s) : s.toList.head? ≠ some '-' := by
  -- the first token would start with the dash
  intro hdash
  obtain ⟨cs, hcs⟩ := List.head?_eq_some_iff.1 hdash
  obtain ⟨ts, p, hts, hstream⟩ := (spells_render hmap h).stream .start
  obtain ⟨u, us, rfl, hu⟩ := hts.exists_cons
  rw [hcs] at hstream
  -- a dash is a token of its own, which no filter starts with
  have hnext : (⟨'-' :: cs, .start⟩ : Cursor).next =
      (.ok ⟨.minus, "-", .start⟩, Cursor.drop ⟨'-' :: cs, .start⟩ 1) := rfl
  rw [Cursor.stream_of_next hnext (by decide)] at hstream
  injection hstream with htoken
  rw [← htoken] at hu
  simp at hu

end FilterText

end MetadataFilter
