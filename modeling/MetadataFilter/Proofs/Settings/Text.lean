import MetadataFilter.Proofs.Toml.Document
import MetadataFilter.Settings

/-!
# Settings are read back

The text of settings is a document of three tables, each of them left out or empty where the
settings say nothing. It is read back as the same settings.

## Key results

- `FieldMap.get?_foldl_insert`: a map after entries have been put into it
- `Settings.ofText?_text`: settings are read back from their text
-/

namespace MetadataFilter

namespace FieldMap

/-- Of the entries that are put into a map the last one for a name counts. -/
theorem get?_foldl_insert (entries : List (String × String)) (m : FieldMap) (name : String) :
    (entries.foldl (fun m e => m.insert e.1 e.2) m).get? name =
      (entries.reverse.lookup name).or (m.get? name) := by
  induction entries generalizing m with
  | nil => rfl
  | cons e es ih =>
    rw [List.foldl_cons, ih, List.reverse_cons, List.lookup_append, Option.or_assoc, get?_insert,
      lookup_cons]
    split <;> rfl

/-- A map is made again of its entries in reverse. -/
theorem ofList_reverse (m : FieldMap) : ofList m.entries.reverse = m := by
  refine ext_get? fun name => ?_
  rw [ofList, get?_foldl_insert, List.reverse_reverse, get?_empty, Option.or_none]
  rfl

/-- A name is in a map once. -/
theorem nodup_names (m : FieldMap) : (m.entries.map (·.1)).Nodup :=
  List.pairwise_map.2 (m.ordered.imp fun h => String.ne_of_lt h)

end FieldMap

namespace Settings

open Toml

/-- A member that is a text, if there is one. -/
def optionalEntry (name : String) (value : Option String) : List (String × String) :=
  (value.map fun v => (name, v)).toList

/-- A setting that may be missing is a line with its member, or nothing. -/
theorem toList_optionalLine (name : String) (value : Option String) :
    (optionalLine name value).toList = memberLines (optionalEntry name value) := by
  cases value with
  | none => rfl
  | some v => simp [optionalLine, line, memberLines, optionalEntry]

/-- The members of the document itself, after the version. -/
def rootEntries (s : Settings) : List (String × String) := optionalEntry "backend" s.backend

/-- The members of the table for rendering. -/
def renderEntries (s : Settings) : List (String × String) :=
  optionalEntry "metadata_column" s.metadataColumn ++ optionalEntry "node_alias" s.nodeAlias

/-- The line of a header. -/
def headerLine (name : String) : List Char := '[' :: (name.toList ++ [']', '\n'])

/-- The text is made of lines with members and of headers. -/
theorem toList_text (s : Settings) :
    s.text.toList = (line "version" "1").toList ++ (memberLines s.rootEntries ++ (['\n'] ++
      ((headerLine "render" ++ memberLines s.renderEntries) ++
        if s.fieldMap.isEmpty then []
        else ['\n'] ++ (headerLine "field_map" ++ memberLines s.fieldMap.entries)))) := by
  have hline : ∀ e : String × String, (line e.1 (writeString e.2)).toList =
      (writeName e.1).toList ++ ' ' :: '=' :: ' ' :: ((writeString e.2).toList ++ ['\n']) := by
    -- the lines of a table are written without anything between them
    simp [line]
  have hentries : ∀ entries : List (String × String), ("".intercalate (entries.map fun e =>
      line e.1 (writeString e.2))).toList = memberLines entries := by
    intro entries
    induction entries with
    | nil => rfl
    | cons e es ih =>
      rw [memberLines, List.flatMap_cons, ← hline, ← memberLines, ← ih, List.map_cons]
      cases es <;> simp
  unfold text
  rw [String.toList_append, apply_ite String.toList]
  simp only [String.toList_append, toList_optionalLine, hentries]
  split <;> simp [rootEntries, renderEntries, memberLines, headerLine]

/-- The first line puts the version into the document. -/
theorem leads_version :
    Leads (line "version" "1").toList ⟨[], []⟩ ⟨[("version", .integer 1)], []⟩ := by
  refine .step (by simp [line]) fun fuel rest => ?_
  have hstep := document_member (v := ['1']) (fun fuel rest => value_one fuel rest)
    (by rintro c ⟨⟩; rfl)
    (show (⟨[], []⟩ : Draft).assign? ["version"] (.integer 1) = some _ from rfl) fuel rest
  simpa [line] using hstep

/-- The members that the text of settings is read as. -/
def members (s : Settings) : Members :=
  (if s.fieldMap.isEmpty then []
    else [("field_map", .table .header (textMembers s.fieldMap.entries))]) ++
    ("render", .table .header (textMembers s.renderEntries)) ::
      (textMembers s.rootEntries ++ [("version", .integer 1)])

/-- The document has one member after the version at most, so no name is used twice. -/
theorem nodup_rootEntries (s : Settings) : (s.rootEntries.map (·.1)).Nodup := by
  cases h : s.backend <;> simp [rootEntries, optionalEntry, h]

/-- The two names in the table for rendering are different. -/
theorem nodup_renderEntries (s : Settings) : (s.renderEntries.map (·.1)).Nodup := by
  cases h : s.metadataColumn <;> cases h' : s.nodeAlias <;>
    simp [renderEntries, optionalEntry, h, h']

/-- An empty line changes nothing. -/
theorem leads_feed (d : Draft) : Leads ['\n'] d d :=
  .step (by simp) fun fuel rest => document_feed fuel d rest

/-- Among the first lines of the document only the backend has a name of its own. -/
theorem get?_root (s : Settings) {name : String} (h : name ≠ "backend") (rest : Members) :
    Members.get? (textMembers s.rootEntries ++ rest) name = rest.get? name := by
  cases hb : s.backend with
  | none => simp [rootEntries, optionalEntry, hb, textMembers]
  | some v =>
    have hmembers : textMembers s.rootEntries ++ rest = ("backend", .text v) :: rest := by
      simp [rootEntries, optionalEntry, hb, textMembers]
    rw [hmembers, Members.get?_cons, if_neg h]

/-- The text of settings is read as a document with their members. -/
theorem ofString?_text (s : Settings) : Toml.ofString? s.text = some s.members := by
  -- the text is read part by part, and each part leads from one draft to the next
  have hroot : Leads (memberLines s.rootEntries) ⟨[("version", .integer 1)], []⟩
      ⟨textMembers s.rootEntries ++ [("version", .integer 1)], []⟩ := by
    refine leads_root s.nodup_rootEntries fun e he => ?_
    have hname : e.1 = "backend" := by
      cases h : s.backend <;> simp_all [rootEntries, optionalEntry]
    rw [hname]
    rfl
  have hrender : Leads (headerLine "render" ++ memberLines s.renderEntries)
      ⟨textMembers s.rootEntries ++ [("version", .integer 1)], []⟩
      ⟨("render", .table .header (textMembers s.renderEntries)) ::
        (textMembers s.rootEntries ++ [("version", .integer 1)]), ["render"]⟩ :=
    leads_section (by simp) (List.all_eq_true.1 (by decide)) [] (get?_root s (by simp) _)
      s.nodup_renderEntries
  -- the names of fields have a table of their own only if there are any
  have hfields : Leads (if s.fieldMap.isEmpty then [] else ['\n'] ++
      (headerLine "field_map" ++ memberLines s.fieldMap.entries))
      ⟨("render", .table .header (textMembers s.renderEntries)) ::
        (textMembers s.rootEntries ++ [("version", .integer 1)]), ["render"]⟩
      ⟨s.members, if s.fieldMap.isEmpty then ["render"] else ["field_map"]⟩ := by
    unfold members
    split
    · exact .nil _
    · exact (leads_feed _).append
        (leads_section (by simp) (List.all_eq_true.1 (by decide)) ["render"]
          (get?_root s (by simp) _) s.fieldMap.nodup_names)
  have htext := leads_version.append
    (hroot.append ((leads_feed _).append (hrender.append hfields)))
  rw [← toList_text] at htext
  refine ofString?_of_leads ?_ htext
  rw [toList_text]
  simp [line, writeName_of_isBare (s := "version") (by decide) (by decide)]

/-- The table of fields is there if it has an entry. -/
theorem get?_members_fieldMap (s : Settings) :
    s.members.get? "field_map" = if s.fieldMap.isEmpty then none
      else some (.table .header (textMembers s.fieldMap.entries)) := by
  unfold members
  split
  · exact get?_root s (by simp) _
  · rfl

/-- All other members are those that come before the table of fields. -/
theorem get?_members_of_ne (s : Settings) {name : String} (h : name ≠ "field_map") :
    s.members.get? name =
      Members.get? (("render", .table .header (textMembers s.renderEntries)) ::
        (textMembers s.rootEntries ++ [("version", .integer 1)])) name := by
  unfold members
  split
  · rfl
  · rw [List.singleton_append, Members.get?_cons, if_neg h]

/-- The names of fields are read back. -/
theorem readFieldMap?_members (s : Settings) : readFieldMap? s.members = some s.fieldMap := by
  unfold readFieldMap?
  rw [get?_members_fieldMap]
  by_cases h : s.fieldMap.isEmpty
  -- without a table there are no names, as in an empty map
  · have hempty : s.fieldMap = .empty := by
      rw [← s.fieldMap.ofList_reverse, List.isEmpty_iff.1 h]
      rfl
    rw [if_pos h, hempty]
  · rw [if_neg h]
    dsimp only
    rw [mapM_textMembers (fun _ _ => rfl)]
    exact congrArg some s.fieldMap.ofList_reverse

/-- The members of settings make up the settings again. -/
theorem ofMembers?_members (s : Settings) : ofMembers? s.members = some s := by
  have hversion : versionFits s.members = true := by
    unfold versionFits
    -- the version is the only number, and it is the one that is asked for
    rw [get?_members_of_ne s (by simp), Members.get?_cons, if_neg (by simp),
      get?_root s (by simp)]
    rfl
  have hbackend : optionalText s.members "backend" = some s.backend := by
    unfold optionalText
    rw [get?_members_of_ne s (by simp), Members.get?_cons, if_neg (by simp)]
    cases hb : s.backend <;> simp [rootEntries, optionalEntry, hb, textMembers, Members.get?_cons]
  have hrender : readRender? s.members = some (s.metadataColumn, s.nodeAlias) := by
    unfold readRender?
    rw [get?_members_of_ne s (by simp), Members.get?_cons, if_pos rfl]
    cases hc : s.metadataColumn <;> cases hn : s.nodeAlias <;>
      simp [renderEntries, optionalEntry, hc, hn, textMembers, optionalText, Members.get?_cons]
  unfold ofMembers?
  rw [hversion, hbackend, hrender, readFieldMap?_members]
  rfl

/-- Settings are read back from their text. -/
theorem ofText?_text (s : Settings) : ofText? s.text = some s := by
  rw [ofText?, ofString?_text]
  exact ofMembers?_members s

end Settings

end MetadataFilter
