import MetadataFilter.Proofs.Grammar.Names
import MetadataFilter.Proofs.Reading.Document
import MetadataFilter.Proofs.Render.Pending

/-!
# Filter documents mean the filter

What a store reads in the document of a filter is a formula over the filter's tests, in their
order, which holds whenever the filter does. Runs of one connective are read as one list, so the
formula is flatter than the filter.

## Key results

- `formulas?_operandsFor`: what a run adds to a longer one says as much as the run
- `means_of_run`: what is read in the document of a run
- `meaning_of_document`: documents mean the filter, and their names are paths
-/

namespace MetadataFilter.Document

/-- The test that stores have to make for a test of a filter. -/
def atomOf (config : RenderConfig) : Leaf → Atom
  | .comparison k op v => .compare (config.path k).dotted op v
  | .membership k negated vs => .among (config.path k).dotted negated vs.toList

/-- The test made for a test of a filter is on the field that its key names. -/
theorem field_atomOf (config : RenderConfig) (l : Leaf) :
    (atomOf config l).field = (config.path l.key).dotted := by
  cases l <;> rfl

/-- A formula says what a filter says: it holds whenever the filter does, and makes the tests of
the filter in their order. -/
structure Formula.Means (config : RenderConfig) (f : Formula) (e : Expr) : Prop where
  holds : ∀ assign, f.holds assign = e.holdsAt fun l => assign (atomOf config l)
  atoms : f.atoms = e.leaves.map (atomOf config)

/-! ### Names of fields -/

/-- A path without an empty part is no empty name. -/
theorem isEmpty_dotted {p : FieldPath} (h : p.segments.any String.isEmpty = false) :
    p.dotted.isEmpty = false := by
  cases p with
  | flat name => simpa [FieldPath.segments, FieldPath.dotted] using h
  | nested parent child => simp [FieldPath.dotted]

/-- A path is taken apart at its dots, if there are none in its names. -/
theorem splitOn_dotted {p : FieldPath} (h : ∀ segment ∈ p.segments, '.' ∉ segment.toList) :
    p.dotted.toList.splitOn '.' = p.segments.map String.toList := by
  have hjoined : p.dotted.toList = ['.'].intercalate (p.segments.map String.toList) := by
    cases p with
    | flat name => simp [FieldPath.dotted, FieldPath.segments]
    | nested parent child => simp [FieldPath.dotted, FieldPath.segments]
  rw [hjoined]
  apply List.splitOn_intercalate
  · simpa using h
  · cases p <;> simp [FieldPath.segments]

variable {store : Store} {config : RenderConfig}

/-- A key that has a name as a field has its path as that name, and passes all checks of names. -/
theorem field_eq_ok {k : Key} {name : String} (h : field store config k = .ok name) :
    name = (config.path k).dotted ∧ isField name = true ∧
      (store = .documents → config.mapped? k = none → ∀ n, k = .quoted n → '.' ∉ name.toList) := by
  by_cases hempty : (config.path k).segments.any String.isEmpty = true
  · simp [field, hempty] at h
  have hempty' := isEmpty_dotted (Bool.eq_false_iff.2 hempty)
  by_cases hdollar : (config.path k).dotted.toList.head? = some '$'
  · simp [field, hempty, hdollar] at h
  have hfield : isField (config.path k).dotted = true := by
    rw [isField, hempty', Bool.not_false, Bool.true_and, bne_iff_ne]
    exact hdollar
  simp only [field, if_neg hempty, if_neg hdollar] at h
  -- only a quoted key that stands for itself is looked through for dots
  split at h
  · next hnone =>
    split at h
    · cases h
    · next hdot =>
      cases h
      exact ⟨rfl, hfield, fun _ _ _ _ => hdot⟩
  · next hother =>
    cases h
    refine ⟨rfl, hfield, ?_⟩
    intro hstore hnone n hk
    exact (hother n hstore hnone hk).elim

/-! ### Tests -/

/-- A value is read back from what is written for it. -/
theorem constant?_of_operand {v : Value} {j : Json} (h : operand v = .ok j) :
    constant? j = some v := by
  cases v with
  | integer n =>
    cases h
    have hrange : Int64.minValue.toInt ≤ n.toInt ∧ n.toInt ≤ Int64.maxValue.toInt :=
      ⟨Int64.minValue_le_toInt n, Int64.toInt_le n⟩
    rw [constant?, if_pos hrange, Int64.ofInt_toInt]
  | decimal x =>
    -- an infinite decimal is not written at all
    simp only [operand] at h
    split at h
    · cases h
      rfl
    · cases h
  | text s =>
    cases h
    rfl
  | boolean b =>
    cases h
    rfl

/-- A list of values is read back from what is written for them. -/
theorem constants?_of_operands {vs : List Value} {js : List Json}
    (h : List.Forall₂ (fun v j => operand v = .ok j) vs js) : js.mapM constant? = some vs := by
  induction h with
  | nil => rfl
  | cons hv _ ih =>
    rw [List.mapM_cons, constant?_of_operand hv, ih]
    rfl

/-- The operators of the documents have names of their own. -/
theorem comparator?_operator (op : CompareOp) : comparator? (operator op) = some op := by
  cases op <;> decide

/-- The connectives have names of their own. -/
theorem connective?_connectiveName (c : Connective) : connective? (connectiveName c) = some c := by
  cases c <;> decide

/-- What is written for a comparison is read as the test of that comparison. -/
theorem formula?_comparison {k : Key} {op : CompareOp} {v : Value} {name : String} {j : Json}
    (hname : field store config k = .ok name) (hj : operand v = .ok j) :
    formula? (condition name (operator op) j) =
      some (.atom (atomOf config (.comparison k op v))) := by
  obtain ⟨rfl, hfield, -⟩ := field_eq_ok hname
  have hatom : atom? (config.path k).dotted (operator op) j =
      some (.compare (config.path k).dotted op v) := by
    have hconstant := constant?_of_operand hj
    -- no value is written as an array, which would be read as the values of a list
    cases j with
    | array elements => cases hconstant
    | _ =>
      rw [atom?, comparator?_operator, hconstant]
      · rfl
      · simp
  rw [condition, formula?, if_pos hfield, hatom]
  rfl

/-- What is written for a membership test is read as that test. -/
theorem formula?_membership {k : Key} {negated : Bool} {vs : ValueList} {name : String}
    {js : List Json} (hname : field store config k = .ok name)
    (hjs : vs.toList.mapM operand = .ok js) :
    formula? (condition name (if negated then "$nin" else "$in") (.array js)) =
      some (.atom (atomOf config (.membership k negated vs))) := by
  obtain ⟨rfl, hfield, -⟩ := field_eq_ok hname
  have hconstants := constants?_of_operands (Dialect.forall₂_of_mapM hjs)
  rw [condition, formula?, if_pos hfield, atom?, hconstants]
  cases negated <;> rfl

/-! ### Runs -/

/-- What a run adds to one of a connective is read as a list that says as much, under this
connective, as the run itself. -/
theorem formulas?_operandsFor {r : Run} {f : Formula} (h : formula? r.document = some f)
    (c : Connective) :
    ∃ fs, formulas? (r.operandsFor c) = some fs ∧
      (∀ assign, Formula.holdsJoined assign c fs = f.holds assign) ∧
      Formula.atomsOf fs = f.atoms := by
  unfold Run.operandsFor
  split
  · next hc =>
    -- a run of the same connective adds its own operands
    rw [Run.document, hc, formula?, connective?_connectiveName] at h
    cases hfs : formulas? r.operands with
    | none =>
      rw [hfs] at h
      cases h
    | some fs =>
      rw [hfs] at h
      cases h
      exact ⟨fs, rfl, fun _ => rfl, rfl⟩
  -- a run of another connective is one operand, and a list of one says what its element says
  · refine ⟨[f], ?_, ?_, ?_⟩
    · rw [formulas?, h, formulas?]
      rfl
    · intro assign
      rw [Formula.holdsJoined, Formula.holdsJoined, c.apply_neutral]
    · rw [Formula.atomsOf, Formula.atomsOf, List.append_nil]

/-- The operands of two runs, one after the other, say what the joined filter says. -/
theorem means_of_join {left right : Run} {f g : Formula} {c : Connective} {l r : Expr}
    (hleft : formula? left.document = some f) (hl : f.Means config l)
    (hright : formula? right.document = some g) (hr : g.Means config r) :
    ∃ fs, formulas? (left.operandsFor c ++ right.operandsFor c) = some fs ∧
      (Formula.join c fs).Means config (.join c l r) := by
  obtain ⟨fs, hfs, hfholds, hfatoms⟩ := formulas?_operandsFor hleft c
  obtain ⟨gs, hgs, hgholds, hgatoms⟩ := formulas?_operandsFor hright c
  refine ⟨fs ++ gs, formulas?_append hfs hgs, ?_, ?_⟩
  · intro assign
    rw [Formula.holds, Formula.holdsJoined_append, hfholds, hgholds, hl.holds, hr.holds]
    rfl
  · rw [Formula.atoms, Formula.atomsOf_append, hfatoms, hgatoms, hl.atoms, hr.atoms,
      Expr.leaves, List.map_append]

/-- The document of a run is read as a formula that says what the filter says. -/
theorem means_of_run {e : Expr} {r : Run} (h : run store config e = .ok r) :
    ∃ f, formula? r.document = some f ∧ f.Means config e := by
  -- by induction on the filter: a group has the run of what is in it
  induction e generalizing r with
  | comparison k op v =>
    obtain ⟨name, j, hname, hj, rfl⟩ := run_comparison_eq_ok h
    exact ⟨_, formula?_comparison hname hj, fun _ => rfl, rfl⟩
  | membership k negated vs =>
    obtain ⟨name, js, hname, hjs, rfl⟩ := run_membership_eq_ok h
    exact ⟨_, formula?_membership hname hjs, fun _ => rfl, rfl⟩
  | join c left right hl hr =>
    obtain ⟨rl, rr, hrl, hrr, rfl⟩ := run_join_eq_ok h
    obtain ⟨f, hf, hfm⟩ := hl hrl
    obtain ⟨g, hg, hgm⟩ := hr hrr
    obtain ⟨fs, hfs, hmeans⟩ := means_of_join (c := c) hf hfm hg hgm
    refine ⟨_, ?_, hmeans⟩
    rw [Run.document, formula?, connective?_connectiveName, hfs]
    rfl
  | group inner ih =>
    obtain ⟨f, hf, hmeans⟩ := ih h
    exact ⟨f, hf, hmeans.holds, hmeans.atoms⟩

/-- All keys of a filter that has a document have names. -/
theorem field_of_mem_leaves {e : Expr} {r : Run} (h : run store config e = .ok r) :
    ∀ l ∈ e.leaves, ∃ name, field store config l.key = .ok name := by
  -- as the run of a filter has been built, those of its parts have
  induction e generalizing r with
  | comparison k op v =>
    obtain ⟨name, -, hname, -⟩ := run_comparison_eq_ok h
    intro l hl
    rw [List.mem_singleton.1 hl]
    exact ⟨name, hname⟩
  | membership k negated vs =>
    obtain ⟨name, -, hname, -⟩ := run_membership_eq_ok h
    intro l hl
    rw [List.mem_singleton.1 hl]
    exact ⟨name, hname⟩
  | join c left right hl hr =>
    obtain ⟨rl, rr, hrl, hrr, -⟩ := run_join_eq_ok h
    intro l hmem
    rcases List.mem_append.1 hmem with hmem | hmem
    · exact hl hrl l hmem
    · exact hr hrr l hmem
  | group inner ih => exact ih h

/-! ### Documents -/

/-- Without mapped names, the name of a field in a document store is the path of a key that texts
can spell. -/
theorem splitOn_field {k : Key} {name : String} (hmap : config.fieldMap = .empty)
    (hk : k.Readable) (h : field .documents config k = .ok name) :
    name.toList.splitOn '.' = (FieldPath.ofKey k).segments.map String.toList := by
  have hnone : config.mapped? k = none := by simp [RenderConfig.mapped?, hmap]
  have hpath : config.path k = FieldPath.ofKey k := by rw [RenderConfig.path, hnone]
  obtain ⟨rfl, -, hdot⟩ := field_eq_ok h
  rw [hpath] at hdot ⊢
  apply splitOn_dotted
  cases k with
  | quoted n =>
    intro segment hsegment
    rw [List.mem_singleton.1 hsegment]
    exact hdot rfl hnone n rfl
  -- bare keys are made of identifiers, which have no dots
  | _ => exact hk.notMem (by simp) (by decide)

/-- The document of a filter is read in one way: as a formula that holds under every choice of true
tests under which the filter holds, and that makes the tests of the filter in their order. Its
fields have names that no store takes for operators. In a document store, without mapped names, the
fields of a filter that has been read are the paths of their keys. The same document comes of every
way of writing that finds the operands of runs with a stack. -/
theorem meaning_of_document {e : Expr} {d : Json} (h : document store config e = .ok d) :
    (FollowsStack store config (document store config) ∧
      ∀ write, FollowsStack store config write → write e = .ok d) ∧
    ∃ f, formula? d = some f ∧ f.Means config e ∧
      (∀ a ∈ f.atoms, a.field ≠ "" ∧ a.field.toList.head? ≠ some '$') ∧
      ∀ text, store = .documents → config.fieldMap = .empty → Expr.parse text = .ok e →
        List.Forall₂ (fun (a : Atom) (l : Leaf) =>
          a.field.toList.splitOn '.' = (FieldPath.ofKey l.key).segments.map String.toList)
          f.atoms e.leaves := by
  -- every writer with a stack of pending operands writes this document
  have hstack : ∀ write, FollowsStack store config write → write e = .ok d :=
    fun write hwrite => (eq_document_of_followsStack hwrite e).trans h
  obtain ⟨r, hr, h⟩ := Rendered.bind_eq_ok h
  cases h
  obtain ⟨f, hf, hmeans⟩ := means_of_run hr
  refine ⟨⟨followsStack_document, hstack⟩, f, hf, hmeans, ?_, ?_⟩
  · intro a ha
    rw [hmeans.atoms] at ha
    obtain ⟨l, hl, rfl⟩ := List.mem_map.1 ha
    obtain ⟨name, hname⟩ := field_of_mem_leaves hr l hl
    obtain ⟨rfl, hfield, -⟩ := field_eq_ok hname
    rw [field_atomOf]
    simpa [isField] using hfield
  -- a filter that has been read has keys that texts can spell, so dots only stand between names
  · rintro text rfl hmap htext
    rw [hmeans.atoms, List.forall₂_map_left_iff, List.forall₂_same]
    intro l hl
    obtain ⟨name, hname⟩ := field_of_mem_leaves hr l hl
    rw [field_atomOf, ← (field_eq_ok hname).1]
    exact splitOn_field hmap (readable_of_parse htext l hl) hname

/-- A filter with a group and with texts that look like operators has a flat document, and the
names of its fields are taken apart into their parts. -/
theorem meaning_of_document_flattened :
    document .documents .standard
        (.join .and (.comparison (.nested "doc" "lang") .equal (.text "$or"))
          (.group (.join .and (.membership (.field "year") true ⟨.integer 2019, []⟩)
            (.comparison (.quoted "a$") .less (.boolean true))))) =
      .ok (.object [("$and", .array [
        condition "doc.lang" "$eq" (.text "$or"),
        condition "year" "$nin" (.array [.integer 2019]),
        condition "a$" "$lt" (.boolean true)])]) ∧
    ∃ f, formula? (.object [("$and", .array [
        condition "doc.lang" "$eq" (.text "$or"),
        condition "year" "$nin" (.array [.integer 2019]),
        condition "a$" "$lt" (.boolean true)])]) = some f ∧
      List.Forall₂ (fun (a : Atom) (segments : List String) =>
        a.field.toList.splitOn '.' = segments.map String.toList)
        f.atoms [["doc", "lang"], ["year"], ["a$"]] := by
  have hdocument : document .documents .standard
      (.join .and (.comparison (.nested "doc" "lang") .equal (.text "$or"))
        (.group (.join .and (.membership (.field "year") true ⟨.integer 2019, []⟩)
          (.comparison (.quoted "a$") .less (.boolean true))))) =
      .ok (.object [("$and", .array [
        condition "doc.lang" "$eq" (.text "$or"),
        condition "year" "$nin" (.array [.integer 2019]),
        condition "a$" "$lt" (.boolean true)])]) := by
    rfl
  have hparse : Expr.parse "doc.lang == '$or' && (year nin [2019] && \x22a$\x22 < true)" =
      .ok (.join .and (.comparison (.nested "doc" "lang") .equal (.text "$or"))
        (.group (.join .and (.membership (.field "year") true ⟨.integer 2019, []⟩)
          (.comparison (.quoted "a$") .less (.boolean true))))) :=
    eq_ok_of_toOption (by decide +kernel)
  obtain ⟨-, f, hf, -, -, hsplit⟩ := meaning_of_document hdocument
  -- the parts of each path are those of its key, in the order of the tests
  have hsegments := (List.forall₂_map_right_iff
    (R := fun (a : Atom) (segments : List String) =>
      a.field.toList.splitOn '.' = segments.map String.toList)
    (f := fun l : Leaf => (FieldPath.ofKey l.key).segments)).2 (hsplit _ rfl rfl hparse)
  exact ⟨hdocument, f, hf, hsegments⟩

end MetadataFilter.Document
