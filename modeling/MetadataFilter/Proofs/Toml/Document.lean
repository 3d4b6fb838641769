import MetadataFilter.Proofs.Toml.Strings
import MetadataFilter.Toml.Reader

/-!
# Documents of lines are read back

A document is read line by line, and every line takes one unit of fuel. `Leads` says what lines make
of the document read so far, in front of any rest, so that documents can be put together from
lines and sections.

## Key results

- `Leads.append`: lines one after the other
- `document_member`, `document_header`: a member, and the header of a table
- `leads_memberLines`, `leads_section`: members one after the other, and a table of members
- `ofString?_of_leads`: a document is what its lines lead to
-/

namespace MetadataFilter

namespace Text.Reader

variable {α β : Type} {r : Text.Reader α} {f : α → Text.Reader β} {cs rest : List Char}

/-- A reader that finds something goes on with it. -/
theorem bind_of_some {x : α} (h : r cs = some (x, rest)) : (r >>= f) cs = f x rest := by
  simp only [bind, StateT.bind, h, Option.bind_some]

/-- A reader that finds nothing does not go on. -/
theorem bind_of_none (h : r cs = none) : (r >>= f) cs = none := by
  simp only [bind, StateT.bind, h, Option.bind_none]

/-- The second choice is made where the first one finds nothing. -/
theorem orElse_of_none {r' : Text.Reader α} (h : r cs = none) : (r <|> r') cs = r' cs := by
  show (r cs <|> r' cs) = r' cs
  rw [h]
  rfl

/-- A look at what is left takes nothing away. -/
theorem get_bind (f : List Char → Text.Reader β) (cs : List Char) :
    ((get : Text.Reader (List Char)) >>= f) cs = f cs cs := rfl

/-- A look at the next character takes nothing away. -/
theorem peek?_bind (f : Option Char → Text.Reader β) (cs : List Char) :
    (peek? >>= f) cs = f cs.head? cs := rfl

/-- A character that is expected and there is taken. -/
theorem expect_bind (f : Unit → Text.Reader β) (c : Char) (cs : List Char) :
    (expect c >>= f) (c :: cs) = f () cs :=
  bind_of_some (expect_cons c cs)

end Text.Reader

namespace Toml

open Text.Reader

/-- Blanks in front of a text are skipped. -/
theorem space_bind {β : Type} (f : Unit → Text.Reader β) (cs : List Char) :
    (space >>= f) cs = f () (cs.dropWhile isSpace) := rfl

/-- What is no blank is not skipped. -/
theorem dropWhile_isSpace {c : Char} (h : isSpace c = false) (cs : List Char) :
    (c :: cs).dropWhile isSpace = c :: cs :=
  List.dropWhile_cons_of_neg (by simp [h])

/-! ### Keys and values -/

/-- A key ends in front of what is no dot. -/
theorem moreNames_of_ne {cs rest : List Char} {c : Char} (h : cs.dropWhile isSpace = c :: rest)
    (hc : c ≠ '.') (fuel : Nat) : moreNames (fuel + 1) cs = some ([], c :: rest) := by
  unfold moreNames
  rw [space_bind, h]
  have htake : take? '.' (c :: rest) = some (false, c :: rest) := if_neg (Ne.symm hc)
  rw [bind_of_some htake]
  rfl

/-- A key of one name is read up to what follows the blanks after it. -/
theorem key_of_name {cs rest after : List Char} {c : Char} {n : String}
    (hspace : cs.dropWhile isSpace = cs) (hname : name cs = some (n, after))
    (hafter : after.dropWhile isSpace = c :: rest) (hc : c ≠ '.') :
    key cs = some ([n], c :: rest) := by
  unfold key
  rw [space_bind, hspace, bind_of_some hname]
  rw [get_bind]
  dsimp only
  rw [bind_of_some (moreNames_of_ne hafter hc _)]
  rfl

/-- A name starts with a quote or with a character of bare names. -/
theorem exists_writeName (s : String) :
    ∃ c cs, (writeName s).toList = c :: cs ∧ (c = '\x22' ∨ c = '\'' ∨ isBare c = true) := by
  unfold writeName
  dsimp only
  split
  -- a bare name has a first character
  · next h =>
    cases hs : s.toList with
    | nil => simp [hs] at h
    | cons c cs =>
      rw [hs] at h
      exact ⟨c, cs, rfl, .inr (.inr (by simp at h; exact h.1))⟩
  · rw [String.toList_ofList]
    split
    · exact ⟨_, _, rfl, .inl rfl⟩
    · split
      · exact ⟨_, _, rfl, .inr (.inl rfl)⟩
      · exact ⟨_, _, rfl, .inl rfl⟩

/-- Names do not start with a blank. -/
theorem isSpace_of_nameStart {c : Char} (h : c = '\x22' ∨ c = '\'' ∨ isBare c = true) :
    isSpace c = false := by
  rcases h with rfl | rfl | h
  · decide
  · decide
  · by_cases hspace : c = ' '
    · subst hspace
      exact absurd h (by decide)
    · by_cases htab : c = '\t'
      · subst htab
        exact absurd h (by decide)
      · simp [isSpace, hspace, htab]

/-- A name is read back as a key, in front of an equality sign. -/
theorem key_writeName (s : String) (rest : List Char) :
    key ((writeName s).toList ++ ' ' :: '=' :: rest) = some ([s], '=' :: rest) := by
  obtain ⟨c, cs, hcs, hc⟩ := exists_writeName s
  refine key_of_name ?_ (name_writeName s _) rfl (by decide)
  rw [hcs]
  exact dropWhile_isSpace (isSpace_of_nameStart hc) _

/-- A string starts with a quote. -/
theorem exists_writeString (s : String) :
    ∃ c cs, (writeString s).toList = c :: cs ∧ (c = '\x22' ∨ c = '\'') := by
  unfold writeString
  rw [String.toList_ofList]
  split
  · exact ⟨_, _, rfl, .inl rfl⟩
  · split
    · exact ⟨_, _, rfl, .inr rfl⟩
    · split
      · exact ⟨_, _, rfl, .inl rfl⟩
      · split
        · exact ⟨_, _, rfl, .inr rfl⟩
        · split <;> exact ⟨_, _, rfl, .inl rfl⟩

/-- A string is read back as a value, in front of a line feed. -/
theorem value_writeString (fuel : Nat) (s : String) (rest : List Char) :
    value (fuel + 1) 0 ((writeString s).toList ++ '\n' :: rest) = some (.text s, '\n' :: rest) := by
  have hstring := string_writeString s rest
  obtain ⟨c, cs, hcs, hc⟩ := exists_writeString s
  rw [hcs] at hstring ⊢
  unfold value
  rw [peek?_bind]
  rcases hc with rfl | rfl
  · exact bind_of_some hstring
  · exact bind_of_some hstring

/-- The number one is no date. -/
theorem value_one (fuel : Nat) (rest : List Char) :
    value (fuel + 1) 0 ('1' :: '\n' :: rest) = some (.integer 1, '\n' :: rest) := by
  have hfield : ∀ n low high, field (n + 2) low high ('1' :: '\n' :: rest) = none := by
    intro n low high
    refine if_neg fun h => ?_
    simp at h
  -- neither a day nor a time starts with a single digit
  have hday : day ('1' :: '\n' :: rest) = none := bind_of_none (hfield 2 0 9999)
  have htime : time ('1' :: '\n' :: rest) = none := bind_of_none (hfield 0 0 23)
  have hdate : date ('1' :: '\n' :: rest) = none := by
    unfold date
    rw [orElse_of_none (bind_of_none hday)]
    exact bind_of_none htime
  unfold value
  rw [peek?_bind]
  show (date <|> number) ('1' :: '\n' :: rest) = _
  rw [orElse_of_none hdate]
  rfl

/-! ### Lines -/

/-- A line ends at its line feed. -/
theorem lineEnd_feed (rest : List Char) : lineEnd ('\n' :: rest) = some ((), rest) := rfl

/-- A document ends with its text. -/
theorem document_nil (fuel : Nat) (d : Draft) : document (fuel + 1) d [] = some (d.root, []) := rfl

/-- An empty line leads nowhere. -/
theorem document_feed (fuel : Nat) (d : Draft) (rest : List Char) :
    document (fuel + 1) d ('\n' :: rest) = document fuel d rest := rfl

/-- What starts like a name is a member. -/
theorem document_of_nameStart {c : Char} (hc : c = '\x22' ∨ c = '\'' ∨ isBare c = true)
    (fuel : Nat) (d : Draft) (cs : List Char) :
    document (fuel + 1) d (c :: cs) = (member d >>= document fuel) (c :: cs) := by
  have hne : c ≠ '#' ∧ c ≠ '\n' ∧ c ≠ '\r' ∧ c ≠ '[' := by
    refine ⟨?_, ?_, ?_, ?_⟩ <;> rintro rfl <;> revert hc <;> decide
  rw [document, space_bind, dropWhile_isSpace (isSpace_of_nameStart hc), peek?_bind]
  refine congrFun ?_ _
  split <;> simp_all

/-- A line with a member. -/
theorem document_member {d d' : Draft} {k : String} {v : List Char} {node : Node}
    (hvalue : ∀ fuel rest, value (fuel + 1) 0 (v ++ '\n' :: rest) = some (node, '\n' :: rest))
    (hspace : ∀ c ∈ v.head?, isSpace c = false) (hassign : d.assign? [k] node = some d')
    (fuel : Nat) (rest : List Char) :
    document (fuel + 1) d ((writeName k).toList ++ ' ' :: '=' :: ' ' :: (v ++ '\n' :: rest)) =
      document fuel d' rest := by
  have hstart : (' ' :: (v ++ '\n' :: rest)).dropWhile isSpace = v ++ '\n' :: rest := by
    rw [List.dropWhile_cons_of_pos rfl]
    cases v with
    | nil => rfl
    | cons c cs => exact dropWhile_isSpace (hspace c rfl) _
  -- name, equality sign, value and line feed are read one after the other
  have hmember : member d ((writeName k).toList ++ ' ' :: '=' :: ' ' :: (v ++ '\n' :: rest)) =
      some (d', rest) := by
    unfold member
    rw [bind_of_some (key_writeName k _), expect_bind, space_bind, hstart, get_bind,
      bind_of_some (hvalue _ rest), bind_of_some (lineEnd_feed rest), hassign]
    rfl
  obtain ⟨c, cs, hcs, hc⟩ := exists_writeName k
  rw [hcs, List.cons_append] at hmember ⊢
  rw [document_of_nameStart hc, bind_of_some hmember]

/-- A line with the header of a table. -/
theorem document_header {d d' : Draft} {n : String} (hne : n.toList ≠ [])
    (hbare : ∀ c ∈ n.toList, isBare c = true) (hopen : d.open? [n] = some d') (fuel : Nat)
    (rest : List Char) :
    document (fuel + 1) d ('[' :: (n.toList ++ ']' :: '\n' :: rest)) = document fuel d' rest := by
  have hkey : key (n.toList ++ ']' :: '\n' :: rest) = some ([n], ']' :: '\n' :: rest) := by
    have hname := name_bare hne hbare (show isBare ']' = false by decide) ('\n' :: rest)
    rw [String.ofList_toList] at hname
    refine key_of_name ?_ hname rfl (by decide)
    cases hn : n.toList with
    | nil => exact absurd hn hne
    | cons c cs =>
      exact dropWhile_isSpace (isSpace_of_nameStart (.inr (.inr (hbare c (by simp [hn]))))) _
  -- a bare name does not start with a bracket, so this is no header of a list of tables
  have htake : take? '[' (n.toList ++ ']' :: '\n' :: rest) =
      some (false, n.toList ++ ']' :: '\n' :: rest) := by
    cases hn : n.toList with
    | nil => rfl
    | cons c cs =>
      refine if_neg ?_
      rintro rfl
      exact absurd (hbare '[' (by simp [hn])) (by decide)
  -- what is between the brackets is the name of the table, which is then opened
  have hheader : header d ('[' :: (n.toList ++ ']' :: '\n' :: rest)) = some (d', rest) := by
    unfold header
    rw [expect_bind, bind_of_some htake, if_neg (by simp), bind_of_some hkey, expect_bind,
      bind_of_some (lineEnd_feed rest), hopen]
    rfl
  show (header d >>= document fuel) ('[' :: (n.toList ++ ']' :: '\n' :: rest)) = _
  rw [bind_of_some hheader]

/-! ### Documents -/

/-- Lines that lead from one draft to another in front of any rest, with no more steps than
characters. -/
def Leads (text : List Char) (d d' : Draft) : Prop :=
  ∃ n ≤ text.length, ∀ fuel rest, document (fuel + n) d (text ++ rest) = document fuel d' rest

/-- Nothing leads nowhere. -/
theorem Leads.nil (d : Draft) : Leads [] d d := ⟨0, Nat.le_refl _, fun _ _ => rfl⟩

/-- Lines one after the other lead one after the other. -/
theorem Leads.append {text text' : List Char} {d d' d'' : Draft} (h : Leads text d d')
    (h' : Leads text' d' d'') : Leads (text ++ text') d d'' := by
  obtain ⟨n, hn, hread⟩ := h
  obtain ⟨n', hn', hread'⟩ := h'
  refine ⟨n' + n, by simp only [List.length_append]; omega, fun fuel rest => ?_⟩
  rw [← Nat.add_assoc, List.append_assoc, hread, hread']

/-- One step that takes at least one character. -/
theorem Leads.step {text : List Char} {d d' : Draft} (hne : text ≠ [])
    (h : ∀ fuel rest, document (fuel + 1) d (text ++ rest) = document fuel d' rest) :
    Leads text d d' :=
  ⟨1, List.length_pos_iff.2 hne, h⟩

/-- A document is what its lines lead to. -/
theorem ofString?_of_leads {s : String} {root : Members} {path : List String}
    (hmark : s.toList.head? ≠ some '\ufeff') (h : Leads s.toList ⟨[], []⟩ ⟨root, path⟩) :
    ofString? s = some root := by
  obtain ⟨n, hn, hread⟩ := h
  -- there are at least as many characters as steps, so the fuel lasts to the end
  have hdocument : document (s.toList.length + 1) ⟨[], []⟩ s.toList = some (root, []) := by
    have hfuel : s.toList.length + 1 = s.toList.length - n + 1 + n := by omega
    have hread := hread (s.toList.length - n + 1) []
    rwa [List.append_nil, ← hfuel, document_nil] at hread
  unfold ofString?
  split
  · next hs => simp [hs] at hmark
  · dsimp only
    rw [hdocument]
    rfl

/-- An empty table has no members. -/
@[simp] theorem Members.get?_nil (n : String) : Members.get? [] n = none := rfl

/-- The last member with a name is the one that counts. -/
theorem Members.get?_cons (m : String × Node) (ms : Members) (n : String) :
    Members.get? (m :: ms) n = if n = m.1 then some m.2 else ms.get? n := by
  rw [get?, List.lookup_cons]
  by_cases h : n = m.1
  · simp [h]
  · rw [beq_false_of_ne h, if_neg h]
    rfl

/-- The lines of members that are texts. -/
def memberLines (entries : List (String × String)) : List Char :=
  entries.flatMap fun e =>
    (writeName e.1).toList ++ ' ' :: '=' :: ' ' :: ((writeString e.2).toList ++ ['\n'])

/-- Members that are texts, the last one first. -/
def textMembers (entries : List (String × String)) : Members :=
  (entries.map fun e => (e.1, Node.text e.2)).reverse

/-- Members that are texts are read back one by one. -/
theorem mapM_textMembers {f : String × Node → Option (String × String)}
    (hf : ∀ name s, f (name, .text s) = some (name, s)) (entries : List (String × String)) :
    (textMembers entries).mapM f = some entries.reverse := by
  rw [textMembers, ← List.map_reverse]
  induction entries.reverse with
  | nil => rfl
  | cons e es ih =>
    rw [List.map_cons, List.mapM_cons, hf, ih]
    rfl

/-- Members of one table, which `frame` puts in its place, are added one after the other. -/
theorem leads_memberLines (frame : Members → Draft)
    (hassign : ∀ sub name value, Members.get? sub name = none →
      (frame sub).assign? [name] value = some (frame ((name, value) :: sub)))
    {entries : List (String × String)} (sub : Members) (hdistinct : (entries.map (·.1)).Nodup)
    (hfresh : ∀ e ∈ entries, sub.get? e.1 = none) :
    Leads (memberLines entries) (frame sub) (frame (textMembers entries ++ sub)) := by
  -- by induction on the entries, where `sub` holds the members of the lines before
  induction entries generalizing sub with
  | nil => exact .nil _
  | cons e es ih =>
    obtain ⟨hnotMem, hnodup⟩ := List.nodup_cons.1 hdistinct
    have hline : Leads ((writeName e.1).toList ++ ' ' :: '=' :: ' ' ::
        ((writeString e.2).toList ++ ['\n'])) (frame sub) (frame ((e.1, .text e.2) :: sub)) := by
      refine .step (by simp) fun fuel rest => ?_
      have hspace : ∀ c ∈ (writeString e.2).toList.head?, isSpace c = false := by
        obtain ⟨c, cs, hcs, hc⟩ := exists_writeString e.2
        rw [hcs]
        rintro _ ⟨⟩
        exact isSpace_of_nameStart (hc.imp_right .inl)
      have hstep := document_member (fun fuel rest => value_writeString fuel e.2 rest) hspace
        (hassign sub e.1 (.text e.2) (hfresh e List.mem_cons_self)) fuel rest
      simpa using hstep
    -- no later entry has the name of this one, so all of them are still to be set
    have hrest : ∀ x ∈ es, Members.get? ((e.1, .text e.2) :: sub) x.1 = none := by
      intro x hx
      have hne : x.1 ≠ e.1 := fun h => hnotMem (List.mem_map.2 ⟨x, hx, h⟩)
      rw [Members.get?_cons, if_neg hne]
      exact hfresh x (List.mem_cons_of_mem _ hx)
    have hmore := hline.append (ih _ hnodup hrest)
    have hmembers : textMembers es ++ (e.1, .text e.2) :: sub = textMembers (e :: es) ++ sub := by
      simp [textMembers]
    rwa [hmembers] at hmore

/-- Nothing is replaced if no member has the name. -/
theorem Members.replace_of_get?_eq_none {ms : Members} {n : String} (h : ms.get? n = none)
    (node : Node) : ms.replace n node = ms := by
  have hsame : ∀ m ∈ ms, (if m.1 = n then (n, node) else m) = id m := by
    intro m hm
    have hne : m.1 ≠ n := by
      rintro rfl
      simpa using List.lookup_eq_none_iff.1 h m hm
    exact if_neg hne
  rw [replace, List.map_congr_left hsame, List.map_id]

/-- Members of the document itself. -/
theorem leads_root {entries : List (String × String)} {root : Members}
    (hdistinct : (entries.map (·.1)).Nodup) (hfresh : ∀ e ∈ entries, root.get? e.1 = none) :
    Leads (memberLines entries) ⟨root, []⟩ ⟨textMembers entries ++ root, []⟩ := by
  refine leads_memberLines (⟨·, []⟩) (fun sub name value h => ?_) root hdistinct hfresh
  simp [Draft.assign?, Members.inside, Members.assign, h]

/-- A header and the members of its table. -/
theorem leads_section {n : String} (hne : n.toList ≠ []) (hbare : ∀ c ∈ n.toList, isBare c = true)
    {root : Members} (path : List String) (hroot : root.get? n = none)
    {entries : List (String × String)} (hdistinct : (entries.map (·.1)).Nodup) :
    Leads ('[' :: (n.toList ++ [']', '\n']) ++ memberLines entries) ⟨root, path⟩
      ⟨(n, .table .header (textMembers entries)) :: root, [n]⟩ := by
  have hopen : (⟨root, path⟩ : Draft).open? [n] =
      some ⟨(n, .table .header []) :: root, [n]⟩ := by
    simp [Draft.open?, Members.open?, Members.alongHeader, hroot]
  have hheader : Leads ('[' :: (n.toList ++ [']', '\n'])) ⟨root, path⟩
      ⟨(n, .table .header []) :: root, [n]⟩ := by
    refine .step (by simp) fun fuel rest => ?_
    have hstep := document_header hne hbare hopen fuel rest
    simpa using hstep
  -- the new table is the first member, and no other one has its name
  have hreplace : ∀ node node',
      Members.replace ((n, node) :: root) n node' = (n, node') :: root := by
    intro node node'
    rw [Members.replace, List.map_cons, if_pos rfl]
    exact congrArg _ (Members.replace_of_get?_eq_none hroot node')
  -- from then on assignments go into that table
  have hassign : ∀ sub name value, Members.get? sub name = none →
      (⟨(n, .table .header sub) :: root, [n]⟩ : Draft).assign? [name] value =
        some ⟨(n, .table .header ((name, value) :: sub)) :: root, [n]⟩ := by
    intro sub name value h
    have hget : Members.get? ((n, .table .header sub) :: root) n = some (.table .header sub) := by
      rw [Members.get?_cons, if_pos rfl]
    simp [Draft.assign?, Members.inside, Members.change, hget, hreplace, Members.assign, h]
  have hmembers := leads_memberLines (fun sub => ⟨(n, .table .header sub) :: root, [n]⟩) hassign []
    hdistinct fun _ _ => rfl
  rw [List.append_nil] at hmembers
  exact hheader.append hmembers

end Toml

end MetadataFilter
