import MetadataFilter.Settings

/-!
# Changing one setting

`Slot` names what can be set: the backend, the column, the node's name, and the field of each name.
A change either is refused or sets exactly one slot, the one whose key it was given.

## Key results

- `splitOnce_eq_some_iff`: a text is split at the first separator
- `change_key`: a key sets its slot and no other one, if its value is accepted
- `accepts_of_change`: nothing else can be set
-/

namespace MetadataFilter.Settings

/-! ### Splitting keys -/

/-- A text is split at a character exactly if the first part does not have it. -/
theorem splitOnce_eq_some_iff {c : Char} {s a b : String} :
    splitOnce c s = some (a, b) ↔ s.toList = a.toList ++ c :: b.toList ∧ c ∉ a.toList := by
  constructor
  · intro h
    unfold splitOnce at h
    split at h
    · cases h
    · next d rest hdrop =>
      cases h
      -- what the first part stops at is the separator itself
      have hd : d = c := by
        have hhead := List.head?_dropWhile_not (· != c) s.toList
        simpa [hdrop] using hhead
      subst hd
      rw [String.toList_ofList, String.toList_ofList, ← hdrop, List.takeWhile_append_dropWhile]
      refine ⟨rfl, fun hmem => ?_⟩
      have hall := List.all_eq_true.1 List.all_takeWhile d hmem
      simp at hall
  -- up to the separator all characters are taken
  · rintro ⟨hs, hmem⟩
    have ha : ∀ x ∈ a.toList, (x != c) = true := by
      intro x hx
      simp only [bne_iff_ne, ne_eq]
      rintro rfl
      exact hmem hx
    unfold splitOnce
    rw [hs, List.takeWhile_append_of_pos ha, List.dropWhile_append_of_pos ha,
      List.takeWhile_cons_of_neg (by simp), List.dropWhile_cons_of_neg (by simp), List.append_nil]
    simp

/-! ### Slots -/

/-- What can be set. -/
inductive Slot where
  | backend
  | metadataColumn
  | nodeAlias
  | field (name : String)
deriving DecidableEq

namespace Slot

/-- The key of a slot. -/
def key : Slot → String
  | backend => "backend"
  | metadataColumn => "render.metadata_column"
  | nodeAlias => "render.node_alias"
  | field name => "field_map." ++ name

/-- What settings hold in a slot. -/
def get (s : Settings) : Slot → Option String
  | backend => s.backend
  | metadataColumn => s.metadataColumn
  | nodeAlias => s.nodeAlias
  | field name => s.fieldMap.get? name

/-- The values that a slot accepts: the name of a backend in any case, a text that is not blank, and
any text for a field that has a name. -/
def Accepts (value : String) : Slot → Prop
  | backend => ∃ b : Backend, value.map Char.toLower = b.name
  | metadataColumn | nodeAlias => value.toList.all Text.isBlank = false
  | field name => name ≠ ""

/-- What a slot holds once it has been set to a value: the backend in lower case, and no field if
the value is empty. -/
def held (value : String) : Slot → Option String
  | backend => some (value.map Char.toLower)
  | metadataColumn | nodeAlias => some value
  | field _ => if value = "" then none else some value

/-- Different slots have different keys. -/
theorem key_injective : Function.Injective key := by
  intro slot other h
  cases slot <;> cases other <;> simp [key, ← String.toList_inj] at h ⊢
  assumption

end Slot

/-! ### Changes -/

/-- The name of a backend is known in any case. -/
theorem parse_eq_ok_iff {s : String} {b : Backend} :
    Backend.parse s = .ok b ↔ s.map Char.toLower = b.name := by
  unfold Backend.parse
  constructor
  -- the text is looked up with small letters, which the names have
  · intro h
    dsimp only at h
    split at h
    · next found hfound =>
      cases h
      have hname := List.find?_some hfound
      exact (beq_iff_eq.1 hname).symm
    · cases h
  · intro h
    simp only [h, Backend.ofName?_name]

/-- Settings that differ in one slot only, which has been set to a value. -/
def SetTo (s s' : Settings) (slot : Slot) (value : String) : Prop :=
  ∀ other : Slot, other.get s' = if other = slot then slot.held value else other.get s

/-- The key of a slot sets the slot, if the slot accepts the value. -/
theorem change_key (s : Settings) {slot : Slot} {value : String} (h : slot.Accepts value) :
    ∃ s', s.change slot.key value = .ok s' ∧ s.SetTo s' slot value := by
  -- each slot has a key with parts of its own, and no change touches another slot
  cases slot with
  | backend =>
    obtain ⟨b, hb⟩ := h
    have hsplit : splitOnce '.' "backend" = none := by decide
    refine ⟨{ s with backend := some b.name }, ?_, fun other => ?_⟩
    · simp only [change, Slot.key, hsplit, if_true, parse_eq_ok_iff.2 hb]
    · cases other <;> simp [Slot.get, Slot.held, hb]
  | metadataColumn =>
    have hsplit : splitOnce '.' "render.metadata_column" = some ("render", "metadata_column") := by
      decide
    refine ⟨{ s with metadataColumn := some value }, ?_, fun other => ?_⟩
    · simp only [change, Slot.key, hsplit, notBlank]
      rw [if_neg (by rw [show value.toList.all Text.isBlank = false from h]; decide)]
      rfl
    · cases other <;> simp [Slot.get, Slot.held]
  | nodeAlias =>
    have hsplit : splitOnce '.' "render.node_alias" = some ("render", "node_alias") := by decide
    refine ⟨{ s with nodeAlias := some value }, ?_, fun other => ?_⟩
    · simp only [change, Slot.key, hsplit, notBlank]
      rw [if_neg (by rw [show value.toList.all Text.isBlank = false from h]; decide)]
      rfl
    · cases other <;> simp [Slot.get, Slot.held]
  | field name =>
    have hsplit : splitOnce '.' ("field_map." ++ name) = some ("field_map", name) :=
      splitOnce_eq_some_iff.2 ⟨by simp, by decide⟩
    have hname : name.isEmpty = false := by simpa using (show name ≠ "" from h)
    -- an empty value takes the name out of the map
    by_cases hvalue : value = ""
    · refine ⟨{ s with fieldMap := s.fieldMap.erase name }, ?_, fun other => ?_⟩
      · simp [change, Slot.key, hsplit, hname, hvalue]
      · cases other <;> simp [Slot.get, Slot.held, FieldMap.get?_erase, hvalue]
    · refine ⟨{ s with fieldMap := s.fieldMap.insert name value }, ?_, fun other => ?_⟩
      · simp [change, Slot.key, hsplit, hname, hvalue]
      · cases other <;> simp [Slot.get, Slot.held, FieldMap.get?_insert, hvalue]

/-- Only the keys of slots are accepted, with values that their slots accept. -/
theorem accepts_of_change {s s' : Settings} {key value : String}
    (h : s.change key value = .ok s') : ∃ slot : Slot, key = slot.key ∧ slot.Accepts value := by
  -- a key that is taken apart at its first point is that of a slot again
  have hkey : ∀ {a b : String}, splitOnce '.' key = some (a, b) → key = a ++ "." ++ b := by
    intro a b hsplit
    rw [← String.toList_inj, (splitOnce_eq_some_iff.1 hsplit).1]
    simp
  have hblank : ∀ {f : String → Settings}, (notBlank key value).map f = .ok s' →
      value.toList.all Text.isBlank = false := by
    intro f hmap
    unfold notBlank at hmap
    split at hmap
    · cases hmap
    · next hb => simpa using hb
  -- the branches are the keys that are known, each of which is the key of one slot
  unfold change at h
  split at h
  · split at h
    · next hbackend =>
      split at h
      · next b hparse => exact ⟨.backend, hbackend, b, parse_eq_ok_iff.1 hparse⟩
      · cases h
    · cases h
  · next hsplit => exact ⟨.metadataColumn, hkey hsplit, hblank h⟩
  · next hsplit => exact ⟨.nodeAlias, hkey hsplit, hblank h⟩
  · next name hsplit =>
    split at h
    · cases h
    · next hname =>
      have hne : name ≠ "" := by simpa using hname
      refine ⟨.field name, ?_, hne⟩
      rw [hkey hsplit]
      rfl
  · cases h

end MetadataFilter.Settings
