/-!
# Field maps

A field map gives some names another name. Its entries are kept in the order of their names, so two
maps with the same entries are equal.

Main statements:

* `get?_insert`  a map after a name has been given another one
* `get?_erase`   a map after a name has been taken out
* `ext_get?`     a map is what it gives each name
-/

namespace MetadataFilter

namespace FieldMap

/-- Entries in the order of their names, each name once. -/
def Ordered (entries : List (String × String)) : Prop :=
  entries.Pairwise fun a b => a.1 < b.1

/-- The entries with one more, which takes the place of an entry of the same name. -/
def insertEntry (name target : String) : List (String × String) → List (String × String)
  | [] => [(name, target)]
  | e :: es =>
    if name < e.1 then (name, target) :: e :: es
    else if name = e.1 then (name, target) :: es
    else e :: insertEntry name target es

/-- An insertion brings in the new entry and no other. -/
theorem mem_insertEntry {name target : String} {entries : List (String × String)}
    {e : String × String} (h : e ∈ insertEntry name target entries) :
    e = (name, target) ∨ e ∈ entries := by
  induction entries with
  | nil => simpa [insertEntry] using h
  -- the new entry is put in front of this one, in its place, or somewhere behind it
  | cons d ds ih =>
    unfold insertEntry at h
    split at h
    · simpa using h
    · split at h
      · simp only [List.mem_cons] at h ⊢
        exact h.imp_right .inr
      · simp only [List.mem_cons] at h ⊢
        rcases h with h | h
        · exact .inr (.inl h)
        · exact (ih h).imp_right .inr

/-- Of two different texts, if the first is not smaller then the second is. -/
theorem lt_of_not_lt_of_ne {s t : String} (h : ¬ s < t) (hne : s ≠ t) : t < s := by
  by_cases ht : t < s
  · exact ht
  · exact absurd (String.le_antisymm (String.not_lt.1 ht) (String.not_lt.1 h)) hne

/-- An insertion keeps the entries in order. -/
theorem ordered_insertEntry {entries : List (String × String)} (name target : String)
    (h : Ordered entries) : Ordered (insertEntry name target entries) := by
  induction entries with
  | nil => simp [insertEntry, Ordered]
  | cons e es ih =>
    obtain ⟨he, hes⟩ := List.pairwise_cons.1 h
    unfold insertEntry
    split
    -- in front of a larger name, and so of all names behind that
    · next hlt =>
      refine List.pairwise_cons.2 ⟨fun x hx => ?_, h⟩
      rcases List.mem_cons.1 hx with rfl | hx
      · exact hlt
      · exact String.lt_trans hlt (he x hx)
    · split
      · next heq => exact List.pairwise_cons.2 ⟨fun x hx => heq ▸ he x hx, hes⟩
      · next hlt heq =>
        refine List.pairwise_cons.2 ⟨fun x hx => ?_, ih hes⟩
        rcases mem_insertEntry hx with rfl | hx
        · exact lt_of_not_lt_of_ne hlt heq
        · exact he x hx

end FieldMap

/-- Names that stand for other names. -/
structure FieldMap where
  entries : List (String × String)
  ordered : FieldMap.Ordered entries
deriving DecidableEq

namespace FieldMap

/-- The map that gives no name another one. -/
def empty : FieldMap := ⟨[], List.Pairwise.nil⟩

/-- Whether no name has another one. -/
def isEmpty (m : FieldMap) : Bool := m.entries.isEmpty

/-- The name that `name` stands for. -/
def get? (m : FieldMap) (name : String) : Option String := m.entries.lookup name

/-- Lets `name` stand for `target` from now on. -/
def insert (m : FieldMap) (name target : String) : FieldMap :=
  ⟨insertEntry name target m.entries, ordered_insertEntry name target m.ordered⟩

/-- Takes a name out of the map. -/
def erase (m : FieldMap) (name : String) : FieldMap :=
  ⟨m.entries.filter (·.1 != name), m.ordered.filter _⟩

/-- The map with the given entries; of two for one name the later counts. -/
def ofList (entries : List (String × String)) : FieldMap :=
  entries.foldl (fun m e => m.insert e.1 e.2) empty

/-! ### What the operations do to a look-up -/

/-- What a name is looked up as in a list of entries, entry by entry. -/
theorem lookup_cons (e : String × String) (es : List (String × String)) (x : String) :
    (e :: es).lookup x = if x = e.1 then some e.2 else es.lookup x := by
  rw [List.lookup_cons]
  by_cases h : x = e.1
  · simp [h]
  · rw [beq_false_of_ne h, if_neg h]

/-- A name smaller than all names of the entries is not among them. -/
theorem lookup_eq_none_of_lt {entries : List (String × String)} {name : String}
    (h : ∀ e ∈ entries, name < e.1) : entries.lookup name = none := by
  induction entries with
  | nil => rfl
  | cons e es ih =>
    have hne : name ≠ e.1 := fun heq => String.lt_irrefl _ (heq ▸ h e (by simp))
    rw [lookup_cons, if_neg hne]
    exact ih fun x hx => h x (by simp [hx])

/-- After an insertion the new name has its target, and every other name what it had. -/
theorem lookup_insertEntry {entries : List (String × String)} (h : Ordered entries)
    (name target x : String) :
    (insertEntry name target entries).lookup x =
      if x = name then some target else entries.lookup x := by
  induction entries with
  | nil => by_cases hx : x = name <;> simp [insertEntry, hx]
  | cons e es ih =>
    -- the names behind this one are larger, so only one of them can be the one looked for
    obtain ⟨he, hes⟩ := List.pairwise_cons.1 h
    unfold insertEntry
    split
    · by_cases hx : x = name <;> simp [lookup_cons, hx]
    · split
      · next heq => by_cases hx : x = name <;> simp [lookup_cons, hx, ← heq]
      · next heq =>
        rw [lookup_cons, lookup_cons, ih hes]
        by_cases hx : x = e.1
        · simp [hx, Ne.symm heq]
        · simp [hx]

@[simp] theorem get?_empty (x : String) : empty.get? x = none := rfl

/-- After an insertion a name gives its target, and every other name what it gave. -/
theorem get?_insert (m : FieldMap) (name target x : String) :
    (m.insert name target).get? x = if x = name then some target else m.get? x :=
  lookup_insertEntry m.ordered name target x

/-- A name that has been taken out gives nothing, and every other name what it gave. -/
theorem get?_erase (m : FieldMap) (name x : String) :
    (m.erase name).get? x = if x = name then none else m.get? x := by
  unfold get? erase
  simp only
  induction m.entries with
  | nil => simp
  | cons e es ih =>
    -- an entry of the name is left out, and any other one stays where it is
    by_cases he : e.1 = name
    · simp only [List.filter_cons, he, bne_self_eq_false, Bool.false_eq_true, if_false, ih,
        lookup_cons]
      by_cases hx : x = name <;> simp [hx]
    · simp only [List.filter_cons, bne_iff_ne, ne_eq, he, not_false_eq_true, if_true,
        lookup_cons, ih]
      by_cases hx : x = e.1
      · simp [hx, he]
      · simp [hx]

/-- A map is what it gives each name. -/
theorem ext_get? {m n : FieldMap} (h : ∀ x, m.get? x = n.get? x) : m = n := by
  obtain ⟨ms, hm⟩ := m
  obtain ⟨ns, hn⟩ := n
  -- the order of names is part of a map, so it is enough to compare the entries
  suffices ms = ns by subst this; rfl
  simp only [get?] at h
  induction ms generalizing ns with
  | nil =>
    cases ns with
    | nil => rfl
    | cons e es => simpa [lookup_cons] using h e.1
  | cons d ds ih =>
    obtain ⟨hd, hds⟩ := List.pairwise_cons.1 hm
    cases ns with
    | nil => simpa [lookup_cons] using h d.1
    | cons e es =>
      obtain ⟨he, hes⟩ := List.pairwise_cons.1 hn
      -- If one of the two first names were smaller, the other map would not have it.
      have hkey : d.1 = e.1 := by
        by_cases h1 : d.1 < e.1
        · have := h d.1
          rw [@lookup_eq_none_of_lt (e :: es) d.1 (by
            intro x hx
            rcases List.mem_cons.1 hx with rfl | hx
            · exact h1
            · exact String.lt_trans h1 (he x hx))] at this
          simp [lookup_cons] at this
        · by_cases heq : d.1 = e.1
          · exact heq
          · have h2 := lt_of_not_lt_of_ne h1 heq
            have := h e.1
            rw [@lookup_eq_none_of_lt (d :: ds) e.1 (by
              intro x hx
              rcases List.mem_cons.1 hx with rfl | hx
              · exact h2
              · exact String.lt_trans h2 (hd x hx))] at this
            simp [lookup_cons] at this
      have hval : d.2 = e.2 := by
        have := h d.1
        simpa [lookup_cons, hkey] using this
      -- behind the first names, a name is found in one rest as it is in the other
      have htail : ds = es := by
        refine ih hds es hes fun x => ?_
        by_cases hx : x = d.1
        · subst hx
          rw [lookup_eq_none_of_lt fun y hy => hd y hy,
            lookup_eq_none_of_lt fun y hy => hkey ▸ he y hy]
        · have := h x
          rwa [lookup_cons, lookup_cons, if_neg hx, if_neg (hkey ▸ hx)] at this
      rw [htail, Prod.ext hkey hval]

end FieldMap

end MetadataFilter
