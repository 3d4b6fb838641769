import MetadataFilter.Proofs.Cli.Drawing

/-!
# Colours only add codes

A terminal acts on a code, which is an escape character, a bracket, numbers and an `m`, and shows
everything else. What is shown of a coloured report, drawing or table is what the same one says
without colours, if no text in it has an escape character of its own.

## Key results

- `Shows.append`, `Shows.paint`: what is shown of texts that are put together and painted
- `shows_report`, `shows_drawing`, `shows_tokenTable`: what is shown of all that can be coloured
- `withoutColours_outputs`: taking the codes out leaves what is said without colours
-/

namespace MetadataFilter

/-- The texts that a report is made of. -/
def Diagnostic.Texts.parts (t : Diagnostic.Texts) : List String :=
  t.message :: (t.sourceLine.toList ++ t.expected ++ t.hint.toList)

namespace Cli

open FilterText Text

/-! ### Codes -/

/-- A character of the numbers in a code. -/
def isParameter (c : Char) : Bool := c.isDigit || c == ';'

/-- What follows the code at the front of a text, if there is one. -/
def afterCode? : List Char → Option (List Char)
  | '\x1b' :: '[' :: cs =>
    match cs.dropWhile isParameter with
    | 'm' :: rest => some rest
    | _ => none
  | _ => none

/-- A code takes up some characters. -/
theorem length_lt_of_afterCode? {cs rest : List Char} (h : afterCode? cs = some rest) :
    rest.length < cs.length := by
  unfold afterCode? at h
  split at h
  · next cs =>
    split at h
    · next hcode =>
      cases h
      have hsuffix : 'm' :: rest <:+ cs := hcode ▸ List.dropWhile_suffix isParameter
      have hle := hsuffix.length_le
      simp only [List.length_cons] at hle ⊢
      omega
    · cases h
  · cases h

/-- A text without the codes in it. -/
def withoutCodes : List Char → List Char
  | [] => []
  | c :: cs =>
    match h : afterCode? (c :: cs) with
    | some rest =>
      have := length_lt_of_afterCode? h
      withoutCodes rest
    | none => c :: withoutCodes cs
termination_by cs => cs.length
decreasing_by
  · exact this
  · exact Nat.lt_succ_self cs.length

/-- What a terminal shows of a text. -/
def withoutColours (s : String) : String := String.ofList (withoutCodes s.toList)

/-- A character that starts no code is shown. -/
theorem withoutCodes_cons {c : Char} (hc : c ≠ '\x1b') (cs : List Char) :
    withoutCodes (c :: cs) = c :: withoutCodes cs := by
  have hnone : afterCode? (c :: cs) = none := by
    unfold afterCode?
    split
    · next heq => exact absurd (List.cons.inj heq).1 hc
    · rfl
  rw [withoutCodes]
  split
  · next h => cases h.symm.trans hnone
  · rfl

/-- A code at the front is not shown. -/
theorem withoutCodes_of_afterCode? {cs rest : List Char} (h : afterCode? cs = some rest) :
    withoutCodes cs = withoutCodes rest := by
  cases cs with
  | nil => cases h
  | cons c cs =>
    rw [withoutCodes]
    split
    · next h' =>
      cases h'.symm.trans h
      rfl
    · next h' => cases h'.symm.trans h

/-! ### What is shown of painted texts -/

/-- A text of which another one is shown, whatever comes after it: no code begins in it that ends
further on. -/
def Shows (coloured plain : String) : Prop :=
  ∀ rest, withoutCodes (coloured.toList ++ rest) = plain.toList ++ withoutCodes rest

/-- A text without the character that codes start with. -/
def Plain (s : String) : Prop := MadeOf (· ≠ '\x1b') s

instance (s : String) : Decidable (Plain s) :=
  inferInstanceAs (Decidable (MadeOf (· ≠ '\x1b') s))

/-- The character that codes start with is not printable. -/
theorem ne_escape_of_isPrintable (c : Char) (h : isPrintable c = true) : c ≠ '\x1b' := by
  rintro rfl
  exact absurd h (by decide)

namespace Shows

variable {s t s' t' : String}

/-- What a terminal shows is the text that is shown. -/
theorem withoutColours_eq (h : Shows s t) : withoutColours s = t := by
  have hall := h []
  rw [List.append_nil, withoutCodes, List.append_nil] at hall
  rw [withoutColours, hall, String.ofList_toList]

/-- What is shown of a text is what is shown of its parts. -/
theorem append (h : Shows s t) (h' : Shows s' t') : Shows (s ++ s') (t ++ t') := by
  intro rest
  rw [String.toList_append, String.toList_append, List.append_assoc, List.append_assoc, h, h']

/-- Nothing is shown of nothing. -/
theorem nothing : Shows "" "" := fun _ => rfl

/-- A text without codes is shown as it is. -/
theorem of_plain (h : Plain s) : Shows s s := by
  intro rest
  unfold Plain MadeOf at h
  generalize s.toList = cs at h
  induction cs with
  | nil => rfl
  | cons c cs ih =>
    rw [List.cons_append, withoutCodes_cons (h c List.mem_cons_self),
      ih fun d hd => h d (List.mem_cons_of_mem c hd), List.cons_append]

/-- The digits of a number. -/
theorem toList_toString (n : Nat) : (toString n).toList = digits n := by
  simp [digits, Nat.repr]

/-- Nothing is shown of a code. -/
theorem code (n : Nat) : Shows (Style.code n) "" := by
  intro rest
  refine withoutCodes_of_afterCode? ?_
  have htext : (Style.code n).toList = '\x1b' :: '[' :: (digits n ++ ['m']) := by
    show ("\x1b[" ++ toString n ++ "m").toList = _
    rw [String.toList_append, String.toList_append, toList_toString]
    rfl
  -- the numbers of a code are parameters, so the code goes up to its letter
  have hdigits : ∀ c ∈ digits n, isParameter c = true := by
    intro c hc
    rw [isParameter, isDigit_of_mem_digits hc, Bool.true_or]
  rw [htext, List.cons_append, List.cons_append, List.append_assoc, afterCode?,
    List.dropWhile_append_of_pos hdigits]
  rfl

/-- A style around a text is not shown. -/
theorem wrap (h : Shows s t) (style : Style) : Shows (style.wrap s) t := by
  have hopening : Shows style.opening "" := by cases style <;> exact code _
  have hclosing : Shows style.closing "" := by cases style <;> exact code _
  have hwrap := (hopening.append h).append hclosing
  rwa [String.empty_append, String.append_empty] at hwrap

/-- A painted text is shown as the text, whatever its styles are. -/
theorem paint (h : Plain s) (styles : List Style) : Shows (Cli.paint true styles s) s := by
  -- from the innermost style on, so what has been painted already is generalized
  have hstyles : ∀ {s'}, Shows s' s → Shows (styles.foldl Style.wrap s') s := by
    induction styles with
    | nil => exact id
    | cons style styles ih => exact fun h => ih (h.wrap style)
  exact hstyles (of_plain h)

/-- What is shown of texts one after the other is what is shown of each of them. -/
theorem concat {ss ts : List String} (h : List.Forall₂ Shows ss ts) :
    Shows ("".intercalate ss) ("".intercalate ts) := by
  intro rest
  rw [toList_intercalate_empty, toList_intercalate_empty]
  induction h with
  | nil => rfl
  | cons hfirst _ ih =>
    rw [List.flatMap_cons, List.flatMap_cons, List.append_assoc, List.append_assoc, hfirst, ih]

end Shows

/-! ### Reports -/

/-- The lines of a report that show the place, if it is known. -/
def placeLines (colours : Bool) (t : Diagnostic.Texts) : String :=
  match t.sourceLine, t.caret with
  | some line, some caret => "\n  " ++ line ++ "\n  " ++ paint colours [.red, .bold] caret
  | _, _ => ""

/-- The line of a report with the tokens that would have fitted, if any are named. -/
def expectedLine (colours : Bool) (t : Diagnostic.Texts) : String :=
  if t.expected.isEmpty then ""
  else "\n  " ++ paint colours [.dimmed] "expected one of:" ++ " " ++ t.expectedText

/-- The line of a report with its hint, if there is one. -/
def hintLine (colours : Bool) (t : Diagnostic.Texts) : String :=
  match t.hint with
  | some hint => "\n  " ++ paint colours [.cyan, .bold] "hint:" ++ " " ++ hint
  | none => ""

/-- A report without colours, part by part. -/
theorem texts_report_eq (t : Diagnostic.Texts) :
    t.report = t.message ++ placeLines false t ++ expectedLine false t ++ hintLine false t := by
  -- a label that is not painted is put together with what is around it
  have hexpected : expectedLine false t =
      if t.expected.isEmpty then "" else s!"\n  expected one of: {t.expectedText}" := by
    have hlabel : "\n  " ++ "expected one of:" ++ " " = "\n  expected one of: " := by decide
    rw [expectedLine, paint_off, hlabel]
    rfl
  have hhint : hintLine false t = match t.hint with
      | some hint => s!"\n  hint: {hint}"
      | none => "" := by
    have hlabel : "\n  " ++ "hint:" ++ " " = "\n  hint: " := by decide
    rw [hintLine, paint_off, hlabel]
    rfl
  rw [hexpected, hhint]
  rfl

/-- Reports with and without colours have the same parts, painted or not. -/
theorem report_eq (colours : Bool) (t : Diagnostic.Texts) :
    report colours t = paint colours [.red, .bold] "error:" ++ " " ++
      paint colours [.bold] t.message ++ placeLines colours t ++ expectedLine colours t ++
      hintLine colours t := by
  cases colours with
  | true => rfl
  | false =>
    -- only what is painted is cut apart, so the labels have to be put together again
    have hlabel : "error:" ++ " " = "error: " := by decide
    rw [report, if_neg Bool.false_ne_true, texts_report_eq, paint_off, paint_off, hlabel]
    simp only [String.append_assoc]

/-- The marker under a line is made of blanks and one caret. -/
theorem plain_caret {t : Diagnostic.Texts} {s : String} (h : t.caret = some s) : Plain s := by
  obtain ⟨p, -, rfl⟩ := Option.map_eq_some_iff.1 h
  intro c hc
  rw [String.toList_ofList, List.mem_append, List.mem_replicate, List.mem_singleton] at hc
  rcases hc with ⟨-, rfl⟩ | rfl <;> decide

/-- A report is shown with its message and with those of its parts that there are. -/
theorem shows_report {t : Diagnostic.Texts} (h : ∀ s ∈ t.parts, Plain s) :
    Shows (report true t) (report false t) := by
  -- the three parts that may be missing, each with the same label
  have hplace : Shows (placeLines true t) (placeLines false t) := by
    unfold placeLines
    cases hline : t.sourceLine with
    | none => exact .nothing
    | some line =>
      cases hcaret : t.caret with
      | none => exact .nothing
      | some caret =>
        have hplain : Plain line := h line (by simp [Diagnostic.Texts.parts, hline])
        exact (((Shows.of_plain (by decide)).append (.of_plain hplain)).append
          (.of_plain (by decide))).append (.paint (plain_caret hcaret) _)
  have hexpected : Shows (expectedLine true t) (expectedLine false t) := by
    unfold expectedLine
    split
    · exact .nothing
    · have hplain : Plain t.expectedText :=
        MadeOf.intercalate (by decide : Plain ", ") fun s hs =>
          h s (by simp [Diagnostic.Texts.parts, hs])
      exact (((Shows.of_plain (by decide)).append (.paint (by decide) _)).append
        (.of_plain (by decide))).append (.of_plain hplain)
  have hhint : Shows (hintLine true t) (hintLine false t) := by
    unfold hintLine
    cases hhint : t.hint with
    | none => exact .nothing
    | some hint =>
      have hplain : Plain hint := h hint (by simp [Diagnostic.Texts.parts, hhint])
      exact (((Shows.of_plain (by decide)).append (.paint (by decide) _)).append
        (.of_plain (by decide))).append (.of_plain hplain)
  have hmessage : Plain t.message := h t.message List.mem_cons_self
  -- the message stands before all of them, and is always there
  rw [report_eq, report_eq]
  exact (((((Shows.paint (by decide) _).append (.of_plain (by decide))).append
    (.paint hmessage _)).append hplace).append hexpected).append hhint

/-! ### Drawings -/

/-- The nodes that are drawn have the texts of the tree. -/
theorem mem_texts_of_mem_rows {e : Expr} {lead margin : String} {row : String × Expr}
    (h : row ∈ rows lead margin e) : ∀ t ∈ row.2.texts, t ∈ e.texts := by
  -- along the tree, where every node has the texts of what is drawn below it
  induction e generalizing lead margin with
  | comparison k op v =>
    cases List.mem_singleton.1 h
    exact fun _ h => h
  | membership k negated vs =>
    cases List.mem_singleton.1 h
    exact fun _ h => h
  | join c left right hl hr =>
    rcases List.mem_cons.1 h with rfl | h
    · exact fun _ h => h
    rw [Expr.texts_join]
    rcases List.mem_append.1 h with h | h
    · exact fun t ht => List.mem_append_left _ (hl h t ht)
    · exact fun t ht => List.mem_append_right _ (hr h t ht)
  | group inner ih =>
    rcases List.mem_cons.1 h with rfl | h
    · exact fun _ h => h
    · exact ih h

/-- Connectives and parentheses are painted, and tests are not. -/
theorem shows_label {e : Expr} (he : ∀ t ∈ e.texts, Plain t) {s s' : String}
    (h : label true e = .ok s) (h' : label false e = .ok s') : Shows s s' := by
  -- a test is written in the canonical spelling in both cases
  have htest : ∀ l : Leaf, e = l.expr → Shows s s' := by
    rintro l rfl
    have hsame : label true l.expr = label false l.expr := by cases l <;> rfl
    rw [hsame] at h
    cases h.symm.trans h'
    rw [label_test, render_eq_ok_iff] at h'
    exact .of_plain (MadeOf.render ne_escape_of_isPrintable he h')
  cases e with
  | comparison k op v => exact htest (.comparison k op v) rfl
  | membership k negated vs => exact htest (.membership k negated vs) rfl
  | join c left right => cases c <;> cases h <;> cases h' <;> exact .paint (by decide) _
  | group inner =>
    cases h
    cases h'
    exact .paint (by decide) _

/-- The lines of a drawing are shown as those of the drawing without colours. -/
theorem shows_drawLines {e : Expr} (he : ∀ t ∈ e.texts, Plain t) {ls ls' : List String}
    (h : drawLines true "" "" e = .ok ls) (h' : drawLines false "" "" e = .ok ls') :
    List.Forall₂ Shows ls ls' := by
  -- both drawings have a line for each of the same nodes
  rw [drawLines_eq] at h h'
  have hfront := @forall_mem_rows (· ≠ '\x1b') (by decide) e "" "" nofun nofun
  have hrows := (List.forall₂_and_left _ _).2 ⟨fun _ hrow => hrow, Dialect.forall₂_of_mapM h⟩
  refine (forall₂_comp hrows.flip (Dialect.forall₂_of_mapM h')).imp ?_
  rintro line line' ⟨row, ⟨hrow, hdraw⟩, hdraw'⟩
  obtain ⟨own, hown, hdraw⟩ := Rendered.bind_eq_ok hdraw
  obtain ⟨own', hown', hdraw'⟩ := Rendered.bind_eq_ok hdraw'
  cases hdraw
  cases hdraw'
  have htexts : ∀ t ∈ row.2.texts, Plain t := fun t ht => he t (mem_texts_of_mem_rows hrow t ht)
  exact (Shows.of_plain (hfront row hrow)).append (shows_label htexts hown hown')

/-- A drawing is shown as the one without colours. -/
theorem shows_drawing {e : Expr} (he : ∀ t ∈ e.texts, Plain t) {s s' : String}
    (h : drawing true e = .ok s) (h' : drawing false e = .ok s') : Shows s s' := by
  obtain ⟨ls, hls, h⟩ := Rendered.bind_eq_ok h
  obtain ⟨ls', hls', h'⟩ := Rendered.bind_eq_ok h'
  cases h
  cases h'
  refine .concat ?_
  rw [List.forall₂_map_left_iff, List.forall₂_map_right_iff]
  exact (shows_drawLines he hls hls').imp fun _ _ hline => hline.append (.of_plain (by decide))

/-- A tree is drawn in colours just where it is drawn without, and the same goes wrong elsewhere. -/
theorem map_drawing {e : Expr} (he : ∀ t ∈ e.texts, Plain t) :
    (drawing true e).map withoutColours = drawing false e := by
  -- what goes wrong is said by the tests, which are not painted
  have hsame : failure? (drawing true e) = failure? (drawing false e) := by
    rw [failure?_drawing, failure?_drawing]
  cases h : drawing true e with
  | error c =>
    rw [h] at hsame
    exact (failure?_eq_some_iff.1 hsame.symm).symm
  | ok s =>
    rw [h] at hsame
    obtain ⟨s', h'⟩ := failure?_eq_none_iff.1 hsame.symm
    rw [h']
    exact congrArg Except.ok (shows_drawing he h h').withoutColours_eq

/-! ### Tables -/

/-- Padding adds no codes. -/
theorem plain_pad {s : String} (h : Plain s) (width : Nat) : Plain (pad width s) := by
  refine MadeOf.append h fun c hc => ?_
  rw [String.toList_ofList, List.mem_replicate] at hc
  rw [hc.2]
  decide

/-- The text of a position has no codes. -/
theorem plain_position (p : Position) : Plain p.text := by
  have hnumber : ∀ n : Nat, Plain (toString n) := by
    intro n c hc
    refine ne_escape_of_isPrintable c (isPrintable_of_isDigit ?_)
    exact isDigit_of_mem_digits (Shows.toList_toString n ▸ hc)
  exact ((hnumber p.line).append (by decide : Plain ":")).append (hnumber p.column)

/-- A row of a table is shown as the one without colours. -/
theorem shows_tokenRow {t : Token} (h : Plain t.text) :
    Shows (tokenRow true t) (tokenRow false t) := by
  have hkind : Plain (pad 16 t.kind.display) :=
    plain_pad (by cases t.kind <;> decide) 16
  have hblank : Shows " " " " := .of_plain (by decide)
  exact (((((Shows.of_plain (plain_pad (plain_position t.position) 8)).append hblank).append
    (.paint hkind _)).append hblank).append (.of_plain h)).append (.of_plain (by decide))

/-- A table is shown as the one without colours. -/
theorem shows_tokenTable {ts : List Token} (h : ∀ t ∈ ts, Plain t.text) :
    Shows (tokenTable true ts) (tokenTable false ts) := by
  have hrows : List.Forall₂ Shows (ts.map (tokenRow true)) (ts.map (tokenRow false)) := by
    rw [List.forall₂_map_left_iff, List.forall₂_map_right_iff, List.forall₂_same]
    exact fun t ht => shows_tokenRow (h t ht)
  exact ((Shows.paint (by decide) _).append (.of_plain (by decide))).append (.concat hrows)

/-! ### All that can be coloured -/

/-- Taking the codes out of a coloured report, drawing or table leaves what is said without colours,
if no text in it has an escape character. A report without colours is the diagnostic's own one with
a label in front of it. -/
theorem withoutColours_outputs :
    (∀ t : Diagnostic.Texts, (∀ s ∈ t.parts, Plain s) →
      withoutColours (report true t) = report false t ∧ report false t = "error: " ++ t.report) ∧
    (∀ e : Expr, (∀ s ∈ e.texts, Plain s) →
      (drawing true e).map withoutColours = drawing false e) ∧
    ∀ ts : List Token, (∀ t ∈ ts, Plain t.text) →
      withoutColours (tokenTable true ts) = tokenTable false ts :=
  ⟨fun _ h => ⟨(shows_report h).withoutColours_eq, rfl⟩, fun _ h => map_drawing h,
    fun _ h => (shows_tokenTable h).withoutColours_eq⟩

/-- A report with all of its parts, a drawing with a group and a table of one token. -/
theorem withoutColours_outputs_all_parts :
    (∀ s ∈ Diagnostic.Texts.parts
      ⟨"no filter", some ⟨2, 1, 2⟩, some "a b", ["AND", "OR"], some "join them"⟩, Plain s) ∧
    withoutColours ("\x1b[1m\x1b[31merror:\x1b[39m\x1b[0m \x1b[1mno filter\x1b[0m\n" ++
        "  a b\n  \x1b[1m\x1b[31m  ^\x1b[39m\x1b[0m\n" ++
        "  \x1b[2mexpected one of:\x1b[0m AND, OR\n" ++
        "  \x1b[1m\x1b[36mhint:\x1b[39m\x1b[0m join them") =
      "error: no filter\n  a b\n    ^\n  expected one of: AND, OR\n  hint: join them" ∧
    (∀ s ∈ (Expr.group (.comparison (.field "x") .equal (.integer 1))).texts, Plain s) ∧
    withoutColours "\x1b[2m( )\x1b[0m\n└── x == 1\n" = "( )\n└── x == 1\n" ∧
    (∀ t ∈ [Token.mk .identifier "x" .start], Plain t.text) ∧
    withoutColours (tokenTable true [Token.mk .identifier "x" .start]) =
      "Pos      Kind             Text\n1:0      IDENTIFIER       x\n" := by
  have hparts : ∀ s ∈ Diagnostic.Texts.parts
      ⟨"no filter", some ⟨2, 1, 2⟩, some "a b", ["AND", "OR"], some "join them"⟩, Plain s := by
    decide
  have htexts : ∀ s ∈ (Expr.group (.comparison (.field "x") .equal (.integer 1))).texts,
      Plain s := by decide
  have htokens : ∀ t ∈ [Token.mk .identifier "x" .start], Plain t.text := by decide
  obtain ⟨hreport, hdrawing, htable⟩ := withoutColours_outputs
  have hcoloured : drawing true (.group (.comparison (.field "x") .equal (.integer 1))) =
      .ok "\x1b[2m( )\x1b[0m\n└── x == 1\n" := by decide +kernel
  have hplain : drawing false (.group (.comparison (.field "x") .equal (.integer 1))) =
      .ok "( )\n└── x == 1\n" := by decide +kernel
  have hmap := hdrawing _ htexts
  rw [hcoloured, hplain] at hmap
  refine ⟨hparts, (hreport _ hparts).1, htexts, Except.ok.inj hmap, htokens, ?_⟩
  rw [htable _ htokens]
  decide +kernel

end Cli

end MetadataFilter
