import MetadataFilter.Proofs.Expr.Spellable
import MetadataFilter.Proofs.Render.Verbatim
import MetadataFilter.Proofs.Text.Numeral
import MetadataFilter.Render.FilterText

/-!
# The characters of the canonical spelling

A text has the characters of the texts that it is put together from. The canonical spelling of a
filter has those of the names and strings of the filter, and for the rest printable ones: quotes,
escapes, operators, brackets and digits.

## Key results

- `MadeOf.append`, `MadeOf.intercalate`: texts that are put together
- `MadeOf.comparison`, `MadeOf.membership`: a test has the characters of its key and its values
- `MadeOf.render`: a filter has the characters of its names and strings
-/

namespace MetadataFilter

/-- A printable character of ASCII. -/
def Text.isPrintable (c : Char) : Bool := ' ' ≤ c && c ≤ '~'

/-- Digits are printable. -/
theorem Text.isPrintable_of_isDigit {c : Char} (h : c.isDigit = true) : isPrintable c = true := by
  simp only [Char.isDigit, isPrintable, Bool.and_eq_true, decide_eq_true_eq, Char.le_def] at h ⊢
  have htop : '9'.val ≤ '~'.val := by decide
  exact ⟨UInt32.le_trans (by decide) h.1, UInt32.le_trans h.2 htop⟩

/-- An escape is a backslash in front of a character of the text. -/
theorem Text.mem_escape {delimiter c : Char} {cs : List Char} (h : c ∈ escape delimiter cs) :
    c = '\\' ∨ c ∈ cs := by
  induction cs with
  | nil => cases h
  | cons d cs ih =>
    rw [escape] at h
    split at h <;> simp only [List.mem_cons] at h ⊢
    · rcases h with h | h | h
      · exact .inl h
      · exact .inr (.inl h)
      · exact (ih h).imp_right .inr
    · rcases h with h | h
      · exact .inr (.inl h)
      · exact (ih h).imp_right .inr

/-- Numbers are printable. -/
theorem Text.IsNumeral.isPrintable {ds : List Char} (h : IsNumeral ds) :
    ∀ c ∈ ds, isPrintable c = true := by
  intro c hc
  cases h with
  | whole _ isDigit => exact isPrintable_of_isDigit (isDigit c hc)
  | fraction _ isDigit isDigit_fraction =>
    rcases List.mem_append.1 hc with hc | hc
    · exact isPrintable_of_isDigit (isDigit c hc)
    · rcases List.mem_cons.1 hc with rfl | hc
      · decide
      · exact isPrintable_of_isDigit (isDigit_fraction c hc)

/-- The text of a string. -/
def Value.text? : Value → Option String
  | text s => some s
  | _ => none

/-- The texts that a test holds: the name of its field and its strings. -/
def Leaf.texts (l : Leaf) : List String := l.key.logicalName :: l.values.filterMap Value.text?

/-- The texts that a filter holds, in order. -/
def Expr.texts (e : Expr) : List String := e.leaves.flatMap Leaf.texts

/-- The texts of a connective are those of its two sides. -/
theorem Expr.texts_join (c : Connective) (left right : Expr) :
    (join c left right).texts = left.texts ++ right.texts := List.flatMap_append

namespace FilterText

open Text

/-- A text whose characters all have a property. -/
def MadeOf (P : Char → Prop) (s : String) : Prop := ∀ c ∈ s.toList, P c

instance (P : Char → Prop) [DecidablePred P] (s : String) : Decidable (MadeOf P s) :=
  decidable_of_iff (s.toList.all fun c => decide (P c)) (by simp [MadeOf])

namespace MadeOf

variable {P : Char → Prop} {s t : String}

/-- Two texts with the property, one after the other. -/
theorem append (hs : MadeOf P s) (ht : MadeOf P t) : MadeOf P (s ++ t) := by
  intro c hc
  rw [String.toList_append] at hc
  rcases List.mem_append.1 hc with hc | hc
  · exact hs c hc
  · exact ht c hc

/-- Texts with the property, and one with it between them. -/
theorem intercalate {texts : List String} (hs : MadeOf P s) (h : ∀ t ∈ texts, MadeOf P t) :
    MadeOf P (s.intercalate texts) := by
  induction texts with
  | nil => exact nofun
  | cons first others ih =>
    have hfirst := h first List.mem_cons_self
    have hothers := ih fun t ht => h t (List.mem_cons_of_mem _ ht)
    cases others with
    | nil => rwa [String.intercalate_singleton]
    | cons second others =>
      rw [String.intercalate_cons_cons]
      exact (hfirst.append hs).append hothers

/-! ### Tests -/

variable (hprintable : ∀ c, isPrintable c = true → P c)
include hprintable

/-- A printable text has every property that printable characters have. -/
theorem of_all (h : s.toList.all isPrintable = true) : MadeOf P s :=
  fun c hc => hprintable c (List.all_eq_true.1 h c hc)

/-- A quoted text has the characters of the text, and printable ones. -/
theorem quoted {delimiter : Char} (hd : isPrintable delimiter = true) (hs : MadeOf P s)
    (h : FilterText.quoted delimiter s = .ok t) : MadeOf P t := by
  unfold FilterText.quoted at h
  split at h
  · cases h
  · cases h
    intro c hc
    rw [String.toList_ofList, quote, List.cons_append, List.mem_cons, List.mem_append,
      List.mem_singleton] at hc
    rcases hc with rfl | hc | rfl
    · exact hprintable _ hd
    · rcases mem_escape hc with rfl | hc
      · exact hprintable _ (by decide)
      · exact hs c hc
    · exact hprintable _ hd

/-- So has a name that is quoted. -/
theorem quotedName (hs : MadeOf P s) (h : FilterText.quotedName s = .ok t) : MadeOf P t := by
  unfold FilterText.quotedName at h
  split at h
  · cases h
  · exact quoted hprintable (by decide) hs h

/-- A key that is not mapped has the characters of its name. -/
theorem key {k : Key} (hk : MadeOf P k.logicalName) (h : FilterText.key .standard k = .ok s) :
    MadeOf P s := by
  cases k with
  | field n =>
    change name n = .ok s at h
    unfold name at h
    split at h
    · cases h
      exact hk
    · exact quotedName hprintable hk h
  -- a key of two names is written as they are, or not at all
  | nested parent child =>
    change (if _ then _ else _) = _ at h
    split at h
    · cases h
      exact hk
    · cases h
  | quoted n => exact quotedName hprintable hk h

/-- A number, a truth value, or a string with its characters. -/
theorem value {v : Value} (hv : ∀ t, v = .text t → MadeOf P t) (h : FilterText.value v = .ok s) :
    MadeOf P s := by
  -- A value is a number, a truth value or a string, and only the last one has characters of its
  -- own.
  rcases Value.render_cases h with ⟨negative, ds, htext, hds, -⟩ | ⟨b, -, rfl⟩ | ⟨t, rfl, ht⟩
  · intro c hc
    rw [htext] at hc
    rcases List.mem_append.1 hc with hc | hc
    · cases negative with
      | false => cases hc
      | true =>
        rw [List.mem_singleton.1 hc]
        exact hprintable _ (by decide)
    · exact hprintable c (hds.isPrintable c hc)
  · cases b <;> exact of_all hprintable (by decide)
  · exact quoted hprintable (by decide) (hv t rfl) ht

variable {config : RenderConfig}

/-- A comparison has the characters of its field and its constant. -/
theorem comparison {k : Key} {op : CompareOp} {v : Value}
    (hk : ∀ field, FilterText.key config k = .ok field → MadeOf P field)
    (hv : ∀ constant, FilterText.value v = .ok constant → MadeOf P constant)
    (h : (dialect config).comparison k op v = .ok s) : MadeOf P s := by
  obtain ⟨field, hfield, h⟩ := Rendered.bind_eq_ok h
  obtain ⟨constant, hconstant, h⟩ := Rendered.bind_eq_ok h
  cases h
  have hblank : MadeOf P " " := of_all hprintable (by decide)
  have hempty : MadeOf P "" := nofun
  have hsymbol : MadeOf P op.symbol := by cases op <;> exact of_all hprintable (by decide)
  exact ((((hk field hfield).append hblank).append hsymbol).append hblank).append
    (hv constant hconstant)

/-- A membership test has the characters of its field and its constants. -/
theorem membership {k : Key} {negated : Bool} {vs : ValueList}
    (hk : ∀ field, FilterText.key config k = .ok field → MadeOf P field)
    (hvs : ∀ v ∈ vs.toList, ∀ constant, FilterText.value v = .ok constant → MadeOf P constant)
    (h : (dialect config).membership k negated vs = .ok s) : MadeOf P s := by
  obtain ⟨field, hfield, h⟩ := Rendered.bind_eq_ok h
  obtain ⟨texts, htexts, h⟩ := Rendered.bind_eq_ok h
  cases h
  -- the word, the constants and the comma between them
  have hword : MadeOf P (if negated then "NOT IN" else "IN") := by
    cases negated <;> exact of_all hprintable (by decide)
  have hconstants : ∀ constant ∈ texts, MadeOf P constant := by
    intro constant hconstant
    obtain ⟨v, hv, hwritten⟩ := Dialect.exists_of_mem_mapM htexts hconstant
    exact hvs v hv constant hwritten
  have hcomma : MadeOf P ", " := of_all hprintable (by decide)
  exact (((((hk field hfield).append (of_all hprintable (by decide))).append hword).append
    (of_all hprintable (by decide))).append (intercalate hcomma hconstants)).append
      (of_all hprintable (by decide))

/-- A connective with blanks around it is printable. -/
theorem connective (config : RenderConfig) (c : Connective) :
    MadeOf P (" " ++ (dialect config).word c ++ " ") := by
  cases c with
  | and => exact of_all hprintable (by decide : (" AND ".toList.all isPrintable) = true)
  | or => exact of_all hprintable (by decide : (" OR ".toList.all isPrintable) = true)

/-! ### Whole filters -/

/-- The canonical spelling has the characters of the names and strings of the filter, and printable
ones. -/
theorem render {e : Expr} (he : ∀ t ∈ e.texts, MadeOf P t)
    (h : FilterText.render .standard e = .ok s) : MadeOf P s := by
  have hregroup : e.regroup.texts = e.texts := by rw [Expr.texts, Expr.leaves_regroup, Expr.texts]
  rw [← hregroup] at he
  -- The induction follows how the text is put together: tests, looser places, connectives and
  -- parentheses.
  refine @Dialect.render_induction (dialect .standard)
    (fun _ s e => (∀ t ∈ e.texts, MadeOf P t) → MadeOf P s) ?_ ?_ ?_ ?_ ?_ e s h he
  · intro k op v s h he
    have hk := he k.logicalName (by simp [Expr.texts, Expr.leaves, Leaf.texts, Leaf.key])
    refine comparison hprintable (fun _ => key hprintable hk) (fun _ => value hprintable ?_) h
    rintro t rfl
    exact he t (by simp [Expr.texts, Expr.leaves, Leaf.texts, Leaf.values, Value.text?])
  · intro k negated vs s h he
    have hk := he k.logicalName (by simp [Expr.texts, Expr.leaves, Leaf.texts, Leaf.key])
    refine membership hprintable (fun _ => key hprintable hk)
      (fun v hv _ => value hprintable ?_) h
    rintro t rfl
    refine he t (List.mem_flatMap.2 ⟨_, List.mem_singleton_self _, List.mem_cons_of_mem _ ?_⟩)
    exact List.mem_filterMap.2 ⟨_, hv, rfl⟩
  · exact fun _ h => h
  · intro c s t l r hs ht he
    rw [Expr.texts_join] at he
    exact ((hs fun t h => he t (List.mem_append_left _ h)).append
      (connective hprintable .standard c)).append (ht fun t h => he t (List.mem_append_right _ h))
  · intro s e h he
    exact ((of_all hprintable (by decide)).append (h he)).append (of_all hprintable (by decide))

end MadeOf

end FilterText

end MetadataFilter
