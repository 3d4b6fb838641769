import MetadataFilter.Proofs.Expr.Flatten
import MetadataFilter.Proofs.Reading.Json
import MetadataFilter.Proofs.Render.Document
import MetadataFilter.Render

/-!
# What filter documents forget

The document of a filter is that of the flattened filter, in which neither parentheses nor the
grouping of runs count, and quoted keys are names like others. Nothing else is lost: flattened
filters that have been read are told apart by their documents.

## Key results

- `document_eq`: the document of a filter is that of the flattened filter
- `ofFlat_injective`: flattened filters are told apart by their documents
- `runsProper_document`: lists of operands are never nested in lists of the same connective
- `documents_forget_grouping`: which filters have the same text as documents
-/

namespace MetadataFilter

/-! ### Names without quotes -/

/-- A key without its quotes. -/
def Key.bare : Key → Key
  | .quoted name => .field name
  | k => k

/-- A key without quotes that can be told from its name: a dot in it stands between the names of two
fields. -/
structure Key.Plain (k : Key) : Prop where
  bare : k.bare = k
  splitOn : k.logicalName.toList.splitOn '.' = (FieldPath.ofKey k).segments.map String.toList

/-- Quotes are not part of a name. -/
theorem Key.logicalName_bare (k : Key) : k.bare.logicalName = k.logicalName := by cases k <;> rfl

/-- A key leads to the same path without its quotes. -/
theorem FieldPath.ofKey_bare (k : Key) : ofKey k.bare = ofKey k := by cases k <;> rfl

/-- The path of a key is its name. -/
theorem FieldPath.dotted_ofKey (k : Key) : (ofKey k).dotted = k.logicalName := by cases k <;> rfl

/-- Plain keys of one name are one key. -/
theorem Key.Plain.eq_of_logicalName {k k' : Key} (h : k.Plain) (h' : k'.Plain)
    (hname : k.logicalName = k'.logicalName) : k = k' := by
  have hsegments : (FieldPath.ofKey k).segments = (FieldPath.ofKey k').segments := by
    have hmap := h.splitOn.symm.trans ((congrArg (·.toList.splitOn '.') hname).trans h'.splitOn)
    exact List.map_injective_iff.2 (fun _ _ => String.toList_injective) hmap
  have hbare := h.bare
  have hbare' := h'.bare
  cases k <;> cases k' <;> simp_all [FieldPath.ofKey, FieldPath.segments, Key.bare]

namespace Document

/-! ### Documents of flattened filters -/

/-- The operand that a value is. -/
def operandOf : Value → Json
  | .integer n => .integer n.toInt
  | .decimal x => .decimal x
  | .text s => .text s
  | .boolean b => .boolean b

/-- The document of a test, if `name` gives the names of keys. -/
def ofLeaf (name : Key → String) : Leaf → Json
  | .comparison k op v => condition (name k) (operator op) (operandOf v)
  | .membership k negated vs =>
    condition (name k) (if negated then "$nin" else "$in") (.array (vs.toList.map operandOf))

mutual

/-- The document of a flattened filter. -/
def ofFlat (name : Key → String) : Flat → Json
  | .test l => ofLeaf name l
  | .run c operands => .object [(connectiveName c, .array (ofFlats name operands))]

/-- The documents of some flattened filters. -/
def ofFlats (name : Key → String) : List Flat → List Json
  | [] => []
  | f :: fs => ofFlat name f :: ofFlats name fs

end

/-- The documents of a list are those of its elements. -/
theorem ofFlats_eq (name : Key → String) (fs : List Flat) :
    ofFlats name fs = fs.map (ofFlat name) := by
  induction fs with
  | nil => rfl
  | cons f fs ih => rw [ofFlats, ih, List.map_cons]

/-- What is written for a value is its operand, and is finite. -/
theorem operand_eq_ok {v : Value} {j : Json} (h : operand v = .ok j) :
    j = operandOf v ∧ j.IsFinite := by
  cases v with
  | decimal x =>
    simp only [operand] at h
    split at h
    · next hfinite =>
      cases h
      exact ⟨rfl, hfinite⟩
    · cases h
  | _ =>
    cases h
    exact ⟨rfl, trivial⟩

/-- What is written for a list of values are their operands, all finite. -/
theorem operands_eq_ok {vs : List Value} {js : List Json} (h : vs.mapM operand = .ok js) :
    js = vs.map operandOf ∧ Json.ElementsFinite js := by
  have hwritten := Dialect.forall₂_of_mapM h
  clear h
  induction hwritten with
  | nil => exact ⟨rfl, trivial⟩
  | cons hv _ ih =>
    obtain ⟨rfl, hfinite⟩ := operand_eq_ok hv
    exact ⟨congrArg _ ih.1, hfinite, ih.2⟩

variable {store : Store} {config : RenderConfig}

/-- A run has the document of a flattened filter, and adds the same operands to longer runs. -/
structure Run.Represents (name : Key → String) (r : Run) (f : Flat) : Prop where
  document : r.document = ofFlat name f
  operandsFor : ∀ c, r.operandsFor c = ofFlats name (f.operandsFor c)

variable {name : Key → String}

/-- The run of a single test is that of the test as a flattened filter. -/
theorem represents_test {j : Json} {l : Leaf} (h : j = ofLeaf name l) :
    Run.Represents name ⟨none, [j]⟩ (.test l) where
  document := h
  operandsFor c := by
    rw [h]
    rfl

/-- Runs are joined the way flattened filters are. -/
theorem Run.Represents.join {rl rr : Run} {f g : Flat} (hl : rl.Represents name f)
    (hr : rr.Represents name g) (c : Connective) :
    Run.Represents name ⟨some c, rl.operandsFor c ++ rr.operandsFor c⟩
      (.run c (f.operandsFor c ++ g.operandsFor c)) := by
  have hoperands : rl.operandsFor c ++ rr.operandsFor c =
      ofFlats name (f.operandsFor c ++ g.operandsFor c) := by
    rw [hl.operandsFor, hr.operandsFor, ofFlats_eq, ofFlats_eq, ofFlats_eq, List.map_append]
  refine ⟨by rw [hoperands]; rfl, fun d => ?_⟩
  rw [hoperands]
  by_cases hd : c = d
  · rw [Run.operandsFor, if_pos (congrArg some hd), Flat.operandsFor, if_pos hd]
  · rw [Run.operandsFor, if_neg (fun h => hd (Option.some.inj h)), Flat.operandsFor, if_neg hd]
    rfl

/-- The run of a filter is that of the flattened filter, also if other keys of the same names are in
the place of its own. -/
theorem represents_flatten {swap : Key → Key} (hname : ∀ k, name (swap k) = (config.path k).dotted)
    {e : Expr} {r : Run} (h : run store config e = .ok r) :
    r.Represents name (e.mapKeys swap).flatten := by
  -- by induction on the filter: parentheses are dropped on both sides
  induction e generalizing r with
  | comparison k op v =>
    obtain ⟨field, j, hfield, hj, rfl⟩ := run_comparison_eq_ok h
    rw [(field_eq_ok hfield).1, (operand_eq_ok hj).1, ← hname k]
    exact represents_test rfl
  | membership k negated vs =>
    obtain ⟨field, js, hfield, hjs, rfl⟩ := run_membership_eq_ok h
    rw [(field_eq_ok hfield).1, (operands_eq_ok hjs).1, ← hname k]
    exact represents_test rfl
  | join c left right hl hr =>
    obtain ⟨rl, rr, hrl, hrr, rfl⟩ := run_join_eq_ok h
    exact (hl hrl).join (hr hrr) c
  | group inner ih => exact ih h

/-- The document of a filter is that of the flattened filter. -/
theorem document_eq {swap : Key → Key} (hname : ∀ k, name (swap k) = (config.path k).dotted)
    {e : Expr} {d : Json} (h : document store config e = .ok d) :
    d = ofFlat name (e.mapKeys swap).flatten := by
  obtain ⟨r, hr, h⟩ := Rendered.bind_eq_ok h
  cases h
  exact (represents_flatten hname hr).document

/-! ### Decimals -/

/-- The condition of a test is finite if its operand is. -/
theorem isFinite_condition {field op : String} {j : Json} (h : j.IsFinite) :
    (condition field op j).IsFinite := ⟨⟨h, trivial⟩, trivial⟩

/-- Finite documents are put together to finite ones. -/
theorem elementsFinite_append {js ks : List Json} (hjs : Json.ElementsFinite js)
    (hks : Json.ElementsFinite ks) : Json.ElementsFinite (js ++ ks) := by
  induction js with
  | nil => exact hks
  | cons j js ih => exact ⟨hjs.1, ih hjs.2⟩

/-- What a finite run adds to a longer one is finite. -/
theorem elementsFinite_operandsFor {r : Run} (h : r.document.IsFinite) (c : Connective) :
    Json.ElementsFinite (r.operandsFor c) := by
  unfold Run.operandsFor
  split
  · next hc =>
    rw [Run.document, hc] at h
    exact h.1
  · exact ⟨h, trivial⟩

/-- Every run has a finite document, since only finite decimals are written. -/
theorem isFinite_of_run {e : Expr} {r : Run} (h : run store config e = .ok r) :
    r.document.IsFinite := by
  induction e generalizing r with
  | comparison k op v =>
    obtain ⟨name, j, -, hj, rfl⟩ := run_comparison_eq_ok h
    exact isFinite_condition (operand_eq_ok hj).2
  | membership k negated vs =>
    obtain ⟨name, js, -, hjs, rfl⟩ := run_membership_eq_ok h
    exact isFinite_condition (operands_eq_ok hjs).2
  -- the operands are put into one list, which stays finite
  | join c left right hl hr =>
    obtain ⟨rl, rr, hrl, hrr, rfl⟩ := run_join_eq_ok h
    exact ⟨elementsFinite_append (elementsFinite_operandsFor (hl hrl) c)
      (elementsFinite_operandsFor (hr hrr) c), trivial⟩
  | group inner ih => exact ih h

/-- Documents have finite decimals only. -/
theorem isFinite_document {e : Expr} {d : Json} (h : document store config e = .ok d) :
    d.IsFinite := by
  obtain ⟨r, hr, h⟩ := Rendered.bind_eq_ok h
  cases h
  exact isFinite_of_run hr

/-! ### Filters told apart -/

/-- Values are told apart by their operands. -/
theorem operandOf_injective {v w : Value} (h : operandOf v = operandOf w) : v = w := by
  cases v with
  | integer n =>
    cases w with
    | integer m =>
      injection h with h
      rw [Int64.toInt_inj.1 h]
    | _ => cases h
  | _ =>
    cases w <;> cases h
    rfl

/-- No value is written as a list. -/
theorem operandOf_ne_array (v : Value) (js : List Json) : operandOf v ≠ .array js := by
  cases v <;> simp [operandOf]

/-- Conditions are equal only in all their parts. -/
theorem condition_inj {field field' op op' : String} {j j' : Json}
    (h : condition field op j = condition field' op' j') : field = field' ∧ op = op' ∧ j = j' := by
  simpa [condition] using h

/-- Tests on plain keys are told apart by their documents. -/
theorem ofLeaf_injective {l m : Leaf} (hl : l.key.Plain) (hm : m.key.Plain)
    (h : ofLeaf Key.logicalName l = ofLeaf Key.logicalName m) : l = m := by
  cases l with
  | comparison k op v =>
    cases m with
    | comparison k' op' v' =>
      obtain ⟨hname, hop, hv⟩ := condition_inj h
      -- operators are read back from their names
      have hop : some op = some op' := by rw [← comparator?_operator, hop, comparator?_operator]
      have hk : k = k' := hl.eq_of_logicalName hm hname
      rw [hk, Option.some.inj hop, operandOf_injective hv]
    | membership k' negated vs =>
      -- a comparison has a single operand where a membership test has a list
      obtain ⟨-, -, hv⟩ := condition_inj h
      exact absurd hv (operandOf_ne_array v _)
  | membership k negated vs =>
    cases m with
    | comparison k' op v =>
      obtain ⟨-, -, hv⟩ := condition_inj h
      exact absurd hv.symm (operandOf_ne_array v _)
    | membership k' negated' vs' =>
      obtain ⟨hname, hword, hvs⟩ := condition_inj h
      have hnegated : negated = negated' := by
        cases negated <;> cases negated' <;> first | rfl | exact absurd hword (by decide)
      -- the list is not empty on either side, so its elements determine it
      have hvs : vs.toList = vs'.toList :=
        List.map_injective_iff.2 (fun _ _ => operandOf_injective) (Json.array.inj hvs)
      have hvs : some vs = some vs' := by
        rw [← ValueList.ofList?_toList, hvs, ValueList.ofList?_toList]
      have hk : k = k' := hl.eq_of_logicalName hm hname
      rw [hk, hnegated, Option.some.inj hvs]

/-- The document of a test is no list of operands. -/
theorem ofLeaf_ne_run (name : Key → String) (l : Leaf) (c : Connective) (js : List Json) :
    ofLeaf name l ≠ .object [(connectiveName c, .array js)] := by
  cases l <;> simp [ofLeaf, condition]

/-- Connectives have names of their own. -/
theorem connectiveName_injective {c d : Connective} (h : connectiveName c = connectiveName d) :
    c = d := by
  have : some c = some d := by
    rw [← connective?_connectiveName, h, connective?_connectiveName]
  exact Option.some.inj this

mutual

/-- Flattened filters are told apart by their documents. -/
theorem ofFlat_injective : ∀ f g : Flat, (∀ l ∈ f.leaves, l.key.Plain) →
    (∀ l ∈ g.leaves, l.key.Plain) → ofFlat Key.logicalName f = ofFlat Key.logicalName g → f = g
  | .test l, .test m, hf, hg, h => by
    rw [ofLeaf_injective (hf l List.mem_cons_self) (hg m List.mem_cons_self) h]
  | .test l, .run c gs, _, _, h => absurd h (ofLeaf_ne_run _ l c _)
  | .run c fs, .test m, _, _, h => absurd h.symm (ofLeaf_ne_run _ m c _)
  | .run c fs, .run d gs, hf, hg, h => by
    simp only [ofFlat, Json.object.injEq, List.cons.injEq, Prod.mk.injEq, Json.array.injEq,
      and_true] at h
    rw [connectiveName_injective h.1, ofFlats_injective fs gs hf hg h.2]

/-- Lists of flattened filters are told apart by their documents. -/
theorem ofFlats_injective : ∀ fs gs : List Flat, (∀ l ∈ Flat.leavesOf fs, l.key.Plain) →
    (∀ l ∈ Flat.leavesOf gs, l.key.Plain) →
    ofFlats Key.logicalName fs = ofFlats Key.logicalName gs → fs = gs
  | [], [], _, _, _ => rfl
  | [], g :: gs, _, _, h => nomatch h
  | f :: fs, [], _, _, h => nomatch h
  | f :: fs, g :: gs, hf, hg, h => by
    obtain ⟨hfirst, hothers⟩ := List.cons.inj h
    rw [ofFlat_injective f g (fun l hl => hf l (List.mem_append_left _ hl))
        (fun l hl => hg l (List.mem_append_left _ hl)) hfirst,
      ofFlats_injective fs gs (fun l hl => hf l (List.mem_append_right _ hl))
        (fun l hl => hg l (List.mem_append_right _ hl)) hothers]

end

/-! ### Lists of operands -/

/-- Whether a document stands somewhere in another one. -/
inductive Within (j : Json) : Json → Prop
  | self : Within j j
  | element {e : Json} {es : List Json} (h : Within j e) (hmem : e ∈ es) : Within j (.array es)
  | member {name : String} {v : Json} {ms : List (String × Json)} (h : Within j v)
      (hmem : (name, v) ∈ ms) : Within j (.object ms)

/-- Whether every list of operands in a document has two of them at least, none of which is again a
list of operands of the same connective. -/
def RunsProper (d : Json) : Prop :=
  ∀ ms c es, Within (.object ms) d → (connectiveName c, .array es) ∈ ms →
    2 ≤ es.length ∧ ∀ inner, .object inner ∈ es → ∀ j, (connectiveName c, j) ∉ inner

/-- In a list, lists of operands are those of its elements. -/
theorem runsProper_array {es : List Json} (h : ∀ e ∈ es, RunsProper e) :
    RunsProper (.array es) := by
  intro ms c js hwithin hmem
  cases hwithin with
  | element hwithin he => exact h _ he ms c js hwithin hmem

/-- An object of one member has no nested lists of operands if its member has none and, under the
name of a connective, is no list of fewer than two or of runs of that connective. -/
theorem runsProper_single {name : String} {v : Json} (h : RunsProper v)
    (hsingle : ∀ c es, name = connectiveName c → v = .array es →
      2 ≤ es.length ∧ ∀ inner, .object inner ∈ es → ∀ j, (connectiveName c, j) ∉ inner) :
    RunsProper (.object [(name, v)]) := by
  intro ms c es hwithin hmem
  cases hwithin with
  | self =>
    cases List.mem_singleton.1 hmem
    exact hsingle c es rfl rfl
  | member hwithin hv =>
    cases List.mem_singleton.1 hv
    exact h ms c es hwithin hmem

/-- The operand of a value has no lists of operands in it. -/
theorem runsProper_operandOf (v : Value) : RunsProper (operandOf v) := by
  intro ms c es hwithin
  cases v <;> cases hwithin

/-- No operator has the name of a connective. -/
theorem operator_ne_connectiveName (op : CompareOp) (c : Connective) :
    operator op ≠ connectiveName c := by
  cases op <;> cases c <;> decide

/-- A condition on a field has no list of operands, since operators are not connectives. -/
theorem runsProper_condition {field op : String} {j : Json} (h : RunsProper j)
    (hop : ∀ c, op ≠ connectiveName c) : RunsProper (condition field op j) :=
  -- a field has an object with its operator, which is no connective
  runsProper_single (runsProper_single h fun c _ hc _ => absurd hc (hop c)) nofun

/-- The document of a test has no lists of operands. -/
theorem runsProper_ofLeaf (name : Key → String) (l : Leaf) : RunsProper (ofLeaf name l) := by
  cases l with
  | comparison k op v =>
    exact runsProper_condition (runsProper_operandOf v) (operator_ne_connectiveName op)
  | membership k negated vs =>
    refine runsProper_condition (runsProper_array fun j hj => ?_) fun c => ?_
    · obtain ⟨v, -, rfl⟩ := List.mem_map.1 hj
      exact runsProper_operandOf v
    · cases negated <;> cases c <;> decide

/-- Only a run of a connective has a member with the name of the connective. -/
theorem notMem_of_isRun {f : Flat} {c : Connective}
    (hrun : f.isRun c = false) (hnames : ∀ l ∈ f.leaves, name l.key ≠ connectiveName c)
    {ms : List (String × Json)} (h : .object ms = ofFlat name f) (j : Json) :
    (connectiveName c, j) ∉ ms := by
  intro hmem
  cases f with
  | test l =>
    have hname := hnames l List.mem_cons_self
    cases l <;>
    -- a test has one member, which has the name of its field
    · cases h
      exact hname (Prod.mk.inj (List.mem_singleton.1 hmem)).1.symm
  | run d fs =>
    -- a run has one member, which has the name of its connective
    rw [ofFlat] at h
    cases h
    have hd := connectiveName_injective (Prod.mk.inj (List.mem_singleton.1 hmem)).1
    simp [Flat.isRun, hd] at hrun

mutual

/-- The document of a flattened filter has no nested lists of operands, if no field has the name of
a connective. -/
theorem runsProper_ofFlat : ∀ f : Flat, f.Proper →
    (∀ l ∈ f.leaves, ∀ c, name l.key ≠ connectiveName c) → RunsProper (ofFlat name f)
  | .test l, _, _ => runsProper_ofLeaf name l
  | .run c fs, ⟨hlength, hrun, hall⟩, hnames => by
    refine runsProper_single (runsProper_array (runsProper_ofFlats fs hall hnames)) ?_
    -- the one list in the run's own object is that of its operands
    intro c' es hc hes
    cases connectiveName_injective hc
    cases hes
    rw [ofFlats_eq, List.length_map]
    refine ⟨hlength, fun inner hinner j => ?_⟩
    obtain ⟨f, hf, heq⟩ := List.mem_map.1 hinner
    exact notMem_of_isRun (hrun f hf)
      (fun l hl => hnames l (Flat.mem_leavesOf hf hl) c) heq.symm j

/-- The documents of a list of flattened filters have no nested lists of operands. -/
theorem runsProper_ofFlats : ∀ fs : List Flat, Flat.AllProper fs →
    (∀ l ∈ Flat.leavesOf fs, ∀ c, name l.key ≠ connectiveName c) →
    ∀ d ∈ ofFlats name fs, RunsProper d
  | [], _, _ => nofun
  | f :: fs, ⟨hf, hfs⟩, hnames => by
    intro d hd
    rcases List.mem_cons.1 hd with rfl | hd
    · exact runsProper_ofFlat f hf fun l hl => hnames l (List.mem_append_left _ hl)
    · exact runsProper_ofFlats fs hfs (fun l hl => hnames l (List.mem_append_right _ hl)) d hd

end

/-- In the document of a filter, lists of operands have two of them at least and are never nested in
lists of the same connective. -/
theorem runsProper_document {e : Expr} {d : Json} (h : document store config e = .ok d) :
    RunsProper d := by
  obtain ⟨r, hr, -⟩ := Rendered.bind_eq_ok h
  rw [@document_eq store config (fun k => (config.path k).dotted) id (fun _ => rfl) e d h]
  refine runsProper_ofFlat _ (Expr.proper_flatten _) fun l hl c hname => ?_
  -- the names of fields do not start with a dollar sign
  rw [Expr.leaves_flatten] at hl
  obtain ⟨l, hl, hkey⟩ := Expr.exists_of_mem_leaves_mapKeys hl
  obtain ⟨field, hfield⟩ := field_of_mem_leaves hr l hl
  obtain ⟨rfl, hisField, -⟩ := field_eq_ok hfield
  rw [hkey, id_eq] at hname
  rw [hname] at hisField
  cases c <;> exact absurd hisField (by decide)

/-! ### The same text -/

/-- Without mapped names, a field is named like its key without quotes. -/
theorem logicalName_bare_eq (hmap : config.fieldMap = .empty) (k : Key) :
    k.bare.logicalName = (config.path k).dotted := by
  have hnone : config.mapped? k = none := by simp [RenderConfig.mapped?, hmap]
  rw [Key.logicalName_bare, RenderConfig.path, hnone, FieldPath.dotted_ofKey]

/-- Without mapped names, the keys of a filter that has been read and has a document can be told
from their names once their quotes are left out. -/
theorem plain_of_mem_leaves (hmap : config.fieldMap = .empty) {text : String} {e : Expr} {d : Json}
    (htext : Expr.parse text = .ok e) (hd : document .documents config e = .ok d) :
    ∀ l ∈ (e.mapKeys Key.bare).flatten.leaves, l.key.Plain := by
  intro l hl
  rw [Expr.leaves_flatten] at hl
  obtain ⟨l', hl', hkey⟩ := Expr.exists_of_mem_leaves_mapKeys hl
  obtain ⟨r, hr, -⟩ := Rendered.bind_eq_ok hd
  obtain ⟨name, hname⟩ := field_of_mem_leaves hr l' hl'
  have hsplit := splitOn_field hmap (readable_of_parse htext l' hl') hname
  rw [(field_eq_ok hname).1, ← logicalName_bare_eq hmap, ← FieldPath.ofKey_bare] at hsplit
  rw [hkey]
  exact ⟨by cases l'.key <;> rfl, hsplit⟩

/-- A document is printed on one line, so the text of a filter is that of its document. -/
theorem exists_document_of_render {e : Expr} {s : String}
    (h : MetadataFilter.render .mongo config e = .ok s) :
    ∃ d, document .documents config e = .ok d ∧ d.compact = s := by
  cases hd : document .documents config e with
  | error construct => simp [MetadataFilter.render, Backend.spell, render, hd, Except.mapError] at h
  | ok d =>
    refine ⟨d, rfl, ?_⟩
    simpa [MetadataFilter.render, Backend.spell, render, hd, Except.mapError] using h

end Document

open Document

/-- Without mapped names, two filters that have been read have the same text as documents if and
only if they are the same once they are flattened and no key is quoted, that is, if and only if then
they differ in nothing but how runs are grouped and in parentheses. In the document of a filter,
lists of operands have two of them at least and are never nested in lists of the same
connective. -/
theorem documents_forget_grouping {config : RenderConfig} (hmap : config.fieldMap = .empty)
    {text text' : String} {e e' : Expr} (htext : Expr.parse text = .ok e)
    (htext' : Expr.parse text' = .ok e') {s s' : String} (hs : render .mongo config e = .ok s)
    (hs' : render .mongo config e' = .ok s') :
    (s = s' ↔ (e.mapKeys Key.bare).flatten = (e'.mapKeys Key.bare).flatten) ∧
      (s = s' ↔ Regrouped (e.mapKeys Key.bare) (e'.mapKeys Key.bare)) ∧
      ∃ d, document .documents config e = .ok d ∧ d.compact = s ∧ RunsProper d := by
  obtain ⟨d, hd, rfl⟩ := exists_document_of_render hs
  obtain ⟨d', hd', rfl⟩ := exists_document_of_render hs'
  have hflat := document_eq (logicalName_bare_eq hmap) hd
  have hflat' := document_eq (logicalName_bare_eq hmap) hd'
  -- the text determines the document, and the document the flattened filter
  have hsame : d.compact = d'.compact ↔
      (e.mapKeys Key.bare).flatten = (e'.mapKeys Key.bare).flatten := by
    refine ⟨fun hsame => ?_, fun hsame => by rw [hflat, hflat', hsame]⟩
    have hdocuments : d = d' :=
      Json.compact_injective (isFinite_document hd) (isFinite_document hd') hsame
    rw [hflat, hflat'] at hdocuments
    exact ofFlat_injective _ _ (plain_of_mem_leaves hmap htext hd)
      (plain_of_mem_leaves hmap htext' hd') hdocuments
  exact ⟨hsame, hsame.trans (Expr.flatten_eq_iff _ _), d, hd, rfl, runsProper_document hd⟩

/-- A run that is grouped to the right, with a quoted key, has the document of the run without
parentheses. The two zeros have documents of their own. -/
theorem documents_forget_grouping_to_the_right :
    (∃ e e' s, Expr.parse "a == 1 AND (b == 2 AND \x22c\x22 == true)" = .ok e ∧
      Expr.parse "a == 1 AND b == 2 AND c == true" = .ok e' ∧
      render .mongo .standard e = .ok s ∧ render .mongo .standard e' = .ok s) ∧
    ∃ e e' s s', Expr.parse "a == 0.0" = .ok e ∧ Expr.parse "a == -0.0" = .ok e' ∧
      render .mongo .standard e = .ok s ∧ render .mongo .standard e' = .ok s' ∧ s ≠ s' := by
  constructor
  · have htext : Expr.parse "a == 1 AND (b == 2 AND \x22c\x22 == true)" =
        .ok (.join .and (.comparison (.field "a") .equal (.integer 1))
          (.group (.join .and (.comparison (.field "b") .equal (.integer 2))
            (.comparison (.quoted "c") .equal (.boolean true))))) :=
      eq_ok_of_toOption (by decide +kernel)
    have htext' : Expr.parse "a == 1 AND b == 2 AND c == true" =
        .ok (.join .and (.join .and (.comparison (.field "a") .equal (.integer 1))
          (.comparison (.field "b") .equal (.integer 2)))
          (.comparison (.field "c") .equal (.boolean true))) :=
      eq_ok_of_toOption (by decide +kernel)
    obtain ⟨-, hiff, -⟩ := @documents_forget_grouping .standard rfl _ _ _ _ htext htext' _ _ rfl rfl
    refine ⟨_, _, _, htext, htext', rfl, ?_⟩
    -- the parentheses go, and then the run is grouped to the left
    rw [hiff.2 ((Regrouped.join _ (.refl _) (.group _)).trans (.symm (.rotate _ _ _ _)))]
    rfl
  -- a zero with a sign is another value than one without
  · have htext : Expr.parse "a == 0.0" =
        .ok (.comparison (.field "a") .equal (.decimal (.finite false ⟨0, by decide⟩))) :=
      eq_ok_of_toOption (by decide +kernel)
    have htext' : Expr.parse "a == -0.0" =
        .ok (.comparison (.field "a") .equal (.decimal (.finite true ⟨0, by decide⟩))) :=
      eq_ok_of_toOption (by decide +kernel)
    obtain ⟨hiff, -⟩ := @documents_forget_grouping .standard rfl _ _ _ _ htext htext' _ _ rfl rfl
    refine ⟨_, _, _, _, htext, htext', rfl, rfl, fun hsame => ?_⟩
    have hflat := hiff.1 hsame
    simp [Expr.mapKeys, Expr.flatten] at hflat

end MetadataFilter
