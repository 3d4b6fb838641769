import MetadataFilter.Proofs.Reading.JsonPath
import MetadataFilter.Proofs.Render.Sql
import MetadataFilter.Proofs.Render.Verbatim

/-!
# Path predicates mean what filters mean

What is written as a path predicate is read as a formula that has the truth value of the filter,
and whose atoms are the comparisons that the filter makes. As a literal of SQL the predicate is
read back.

## Key results

- `written_path`, `written_value`: the two sides of a comparison
- `exists_membership`: a disjunction of equalities, or its negation
- `exists_means`: what is written is read as a formula that means the filter
- `read_predicate`: the predicate inside a condition of SQL
-/

namespace MetadataFilter.JsonPath

open Reading Text

/-! ### What predicates mean -/

/-- The atom of a comparison: its key counts by its path alone. -/
def atomOf (config : RenderConfig) (t : Comparison) : Atom :=
  ⟨(config.path t.key).segments, t.op, t.value⟩

/-- A formula means a filter: it has the truth value of the filter whichever atoms hold, and its
atoms are the comparisons that the filter makes. -/
structure Formula.Means (config : RenderConfig) (f : Formula) (e : Expr) : Prop where
  holds : ∀ assign, f.holds assign = e.holds (assign ∘ atomOf config)
  atoms : f.atoms = e.tests.map (atomOf config)

/-- The place of a key in a document. -/
def pathTerm (config : RenderConfig) (k : Key) : Term :=
  (config.path k).segments.foldl .member .root

/-- The equality of what is at a key with a constant. -/
def equality (config : RenderConfig) (k : Key) (v : Value) : Term :=
  .compare .equal (pathTerm config k) (.constant v)

/-- The equalities with values one after the other. -/
def disjunction (config : RenderConfig) (k : Key) (vs : ValueList) : Term :=
  vs.others.foldl (fun t v => .connect .or t (equality config k v)) (equality config k vs.first)

/-- Members after a path make a longer path. -/
theorem path?_foldl_member {t : Term} {path : List String} (h : t.path? = some path)
    (names : List String) : (names.foldl .member t).path? = some (path ++ names) := by
  induction names generalizing t path with
  | nil => simpa using h
  | cons name names ih =>
    -- the member is added at the end of the path so far
    have hmember : (Term.member t name).path? = some (path ++ [name]) := by
      rw [Term.path?, h, Option.map_some]
    rw [List.foldl_cons, ih hmember, List.append_assoc, List.singleton_append]

/-- The place of a key is read as its path. -/
theorem path?_pathTerm (config : RenderConfig) (k : Key) :
    (pathTerm config k).path? = some (config.path k).segments := by
  have hroot : Term.root.path? = some [] := rfl
  exact path?_foldl_member hroot _

/-- A comparison of a place with a constant is an atom. -/
theorem formula?_compare (config : RenderConfig) (k : Key) (op : CompareOp) (v : Value) :
    (Term.compare op (pathTerm config k) (.constant v)).formula? =
      some (.atom (atomOf config ⟨k, op, v⟩)) := by
  rw [Term.formula?, path?_pathTerm]
  rfl

/-! ### Paths and values -/

/-- The characters that may carry a path on. -/
def carriesPathOn : Char → Bool := allBut [' ', ',', ')', '.']

/-- A string is written like one of a document. -/
theorem string_eq_ok {s text : String} (h : string s = .ok text) : text = Json.quote s := by
  unfold string at h
  split at h <;> cases h
  rfl

/-- A step is one lexeme with the name of the member. -/
theorem scans_step {name s : String} (h : step name = .ok s) :
    ∃ t, Scans front carriesPathOn s.toList [t] ∧ (t = .word name ∨ t = .string name) := by
  unfold step at h
  split at h
  · next hword =>
    cases h
    exact ⟨_, (scans_word hword).allBut (by decide), .inl rfl⟩
  · rw [string_eq_ok h]
    exact ⟨_, (scans_string name).allBut (by decide), .inr rfl⟩

/-- Steps after what is written for `x` lead from `x` into its members. -/
theorem exists_members {names steps : List String}
    (h : List.Forall₂ (fun name s => step name = .ok s) names steps) {s : String}
    {ts : List Lexeme} {x : Term} (hscan : Scans front carriesPathOn s.toList ts)
    (hreads : language.toOperators.Reads 4 ts x) :
    ∃ us, Scans front carriesPathOn (".".intercalate (s :: steps)).toList us ∧
      language.toOperators.Reads 4 us (names.foldl .member x) := by
  induction h generalizing s ts x with
  | nil => exact ⟨ts, by simpa using hscan, hreads⟩
  | @cons name step names steps hstep _ ih =>
    obtain ⟨t, hscan', ht⟩ := scans_step hstep
    have htext : (s ++ "." ++ step).toList = s.toList ++ '.' :: step.toList := by simp
    -- the text grows by one step, and what it leads to by one member
    have hnext : Scans front carriesPathOn (s ++ "." ++ step).toList (ts ++ .dot :: [t]) := by
      rw [htext]
      exact hscan.append (by decide) (hscan'.mark (fun _ => rfl) (by decide))
    have hmember : language.toOperators.Reads 4 (ts ++ .dot :: [t]) (.member x name) := by
      refine hreads.suffix (fun _ => rfl) fun depth rest _ => ?_
      rcases ht with rfl | rfl <;> rfl
    exact ih hnext hmember

/-- A path is read as the place of its key. -/
theorem written_path {config : RenderConfig} {k : Key} {s : String} (h : path config k = .ok s) :
    language.Written 4 s.toList (pathTerm config k) := by
  unfold path at h
  obtain ⟨steps, hsteps, h⟩ := Rendered.bind_eq_ok h
  cases h
  have hroot : Scans front carriesPathOn "$".toList [.root] :=
    Scans.nil.mark (fun _ => rfl) (by decide)
  have hreads : language.toOperators.Reads 4 [.root] .root := .operand 4 fun _ _ _ => rfl
  obtain ⟨ts, hscan, hread⟩ := exists_members (Dialect.forall₂_of_mapM hsteps) hroot hreads
  exact ⟨ts, hscan.allBut (by decide), hread⟩

/-- Values are read back. -/
theorem written_value (p : Nat) {v : Value} {s : String} (h : value v = .ok s) :
    language.Written p s.toList (.constant v) := by
  rcases Value.render_cases h with ⟨negative, ds, htext, hds, hvalue⟩ | ⟨b, rfl, rfl⟩ | ⟨t, rfl, ht⟩
  · have hminus : Scans front isOperatorChar ['-'] [.operator "-"] := scans_operator (by decide)
    rw [htext]
    exact .numeral p hds hvalue (scans_number hds) (by decide) hminus
      (fun _ => isOperatorChar_of_isDigit) (fun _ _ => rfl) (fun _ _ => rfl)
  · have hword : Token.isWord (if b then "true" else "false") = true := by cases b <;> decide
    refine ⟨_, (scans_word hword).allBut (by decide), .operand p fun depth rest _ => ?_⟩
    cases b with
    | false => rfl
    | true => rfl
  · rw [string_eq_ok ht]
    exact ⟨_, (scans_string t).allBut (by decide), .operand p fun _ _ _ => rfl⟩

/-! ### Tests -/

/-- A comparison is written with blanks around its operator. -/
theorem written_comparison {config : RenderConfig} {k : Key} (op : CompareOp) {v : Value}
    {path literal s : String} (hpath : JsonPath.path config k = .ok path)
    (hvalue : value v = .ok literal)
    (htext : s.toList = path.toList ++ ' ' :: (op.symbol.toList ++ ' ' :: literal.toList)) :
    language.Written 3 s.toList (.compare op (pathTerm config k) (.constant v)) := by
  have hsymbol : Scans front isOperatorChar op.symbol.toList [.operator op.symbol] := by
    cases op <;> exact scans_operator (by decide)
  rw [htext]
  exact .operator hsymbol (by decide) (by cases op <;> exact fun _ => rfl)
    (by cases op <;> exact fun _ _ _ => rfl) ((written_path hpath).loosen (by decide))
    (written_value 4 hvalue)

/-- A connective is written with blanks around it, between texts that bind as tightly as it asks
for. -/
theorem written_connect (config : RenderConfig) {c : Connective} {left right s : String}
    {t u : Term} (hleft : language.Written c.precedence left.toList t)
    (hright : language.Written (c.precedence + 1) right.toList u)
    (htext : s.toList =
      left.toList ++ ' ' :: (((dialect config).word c).toList ++ ' ' :: right.toList)) :
    language.Written c.precedence s.toList (.connect c t u) := by
  have hsymbol : Scans front isOperatorChar ((dialect config).word c).toList
      [.operator ((dialect config).word c)] := by
    -- the symbols of both connectives are made of operator characters only
    cases c with
    | and =>
      show Scans front isOperatorChar "&&".toList [.operator "&&"]
      exact scans_operator (by decide)
    | or =>
      show Scans front isOperatorChar "||".toList [.operator "||"]
      exact scans_operator (by decide)
  rw [htext]
  exact .operator hsymbol (by decide) (by cases c <;> exact fun _ => rfl)
    (by cases c <;> exact fun _ _ _ => rfl) hleft hright

/-- A predicate in parentheses is negated by the mark in front of them. -/
theorem written_not (p : Nat) {s : String} {t : Term} (h : language.Written 1 s.toList t) :
    language.Written p ("!(" ++ s ++ ")").toList (.not t) := by
  obtain ⟨ts, hscan, hreads⟩ := h
  have htext : ("!(" ++ s ++ ")").toList = ['!'] ++ '(' :: (s.toList ++ [')']) := by simp
  have hlast : Scans front mayCarryOn [')'] [.mark ')'] := Scans.nil.mark (fun _ => rfl) (by decide)
  -- the mark ends before the parenthesis, and both are taken as one operand
  have hinner : Scans front mayCarryOn ('(' :: (s.toList ++ [')']))
      (.mark '(' :: (ts ++ [.mark ')'])) :=
    (hscan.append (by decide) hlast).mark (fun _ => rfl) (by decide)
  have hmark : Scans front isOperatorChar ['!'] [.operator "!"] := scans_operator (by decide)
  rw [htext]
  refine ⟨_, hmark.append (by decide) hinner, .operand p fun depth rest hdepth => ?_⟩
  -- the reader is given enough depth for what stands in the parentheses
  simp only [List.length_append, List.length_cons, List.length_nil] at hdepth
  have hexpr : language.expr depth 1 (ts ++ .mark ')' :: rest) = some (t, .mark ')' :: rest) :=
    hreads.expr_eq (by omega) (Nat.le_refl _) Nat.one_pos
  show operand (language.expr depth) (.operator "!" :: .mark '(' :: (ts ++ [.mark ')'] ++ rest)) = _
  rw [List.append_assoc, List.singleton_append, operand, if_pos rfl]
  simp only [hexpr]

/-- Equalities with more values go on with what is written for `t`. -/
theorem written_disjunction {config : RenderConfig} {k : Key} {path : String}
    (hpath : JsonPath.path config k = .ok path) {vs : List Value} {texts : List String}
    (h : List.Forall₂ (fun v s => value v = .ok s) vs texts) {s : String} {t : Term}
    (hwritten : language.Written 1 s.toList t) :
    language.Written 1
      (" || ".intercalate (s :: texts.map fun text => path ++ " == " ++ text)).toList
      (vs.foldl (fun t v => .connect .or t (equality config k v)) t) := by
  induction h generalizing s t with
  | nil => simpa using hwritten
  | @cons v text vs texts hvalue _ ih =>
    have hequality : language.Written 3 (path ++ " == " ++ text).toList (equality config k v) :=
      written_comparison .equal hpath hvalue (by simp [CompareOp.symbol])
    -- the operator leans to the left, so what is written so far is its left operand
    have hboth : language.Written 1 (s ++ " || " ++ (path ++ " == " ++ text)).toList
        (.connect .or t (equality config k v)) :=
      written_connect (c := .or) config hwritten (hequality.loosen (by decide)) (by simp [dialect])
    exact ih hboth

/-- What is written for a membership test: equalities with the values, in parentheses if they are
negated or if there are several of them. -/
theorem exists_disjunction {config : RenderConfig} {k : Key} {negated : Bool} {vs : ValueList}
    {s : String} (h : (dialect config).membership k negated vs = .ok s) :
    ∃ d, language.Written (if 1 < vs.size then 1 else 3) d.toList (disjunction config k vs) ∧
      s = if negated then "!(" ++ d ++ ")" else Dialect.wrap (1 < vs.size) d := by
  obtain ⟨first, others⟩ := vs
  obtain ⟨path, hpath, h⟩ := Rendered.bind_eq_ok h
  obtain ⟨texts, hvalues, h⟩ := Rendered.bind_eq_ok h
  cases Dialect.forall₂_of_mapM hvalues with
  -- the first value gives the equality that the others are added to
  | @cons _ literal _ literals hfirst hothers =>
    have hequality : language.Written 3 (path ++ " == " ++ literal).toList
        (equality config k first) :=
      written_comparison .equal hpath hfirst (by simp [CompareOp.symbol])
    refine ⟨" || ".intercalate
      ((path ++ " == " ++ literal) :: literals.map fun text => path ++ " == " ++ text), ?_, ?_⟩
    -- one equality binds like a comparison, several like a disjunction
    · cases hothers with
      | nil =>
        have hsingle : ¬ 1 < (ValueList.mk first []).size := Nat.lt_irrefl 1
        rw [if_neg hsingle]
        exact hequality
      | @cons second _ rest _ hvalue hothers =>
        have hseveral : 1 < (ValueList.mk first (second :: rest)).size :=
          Nat.succ_lt_succ (Nat.succ_pos rest.length)
        rw [if_pos hseveral]
        exact written_disjunction hpath (.cons hvalue hothers) (hequality.loosen (by decide))
    · cases negated <;> exact (Except.ok.inj h).symm

/-! ### Meanings -/

/-- More equalities make the formula hold in more cases. -/
theorem exists_foldl_connect (config : RenderConfig) (k : Key) (vs : List Value) {t : Term}
    {f : Formula} (h : t.formula? = some f) :
    ∃ g, (vs.foldl (fun t v => .connect .or t (equality config k v)) t).formula? = some g ∧
      (∀ assign, g.holds assign =
        (f.holds assign || vs.any fun v => assign (atomOf config ⟨k, .equal, v⟩))) ∧
      g.atoms = f.atoms ++ vs.map fun v => atomOf config ⟨k, .equal, v⟩ := by
  induction vs generalizing t f with
  | nil => exact ⟨f, h, by simp, by simp⟩
  | cons v vs ih =>
    -- the formula so far is joined with one more atom
    have hnext : (Term.connect .or t (equality config k v)).formula? =
        some (.connect .or f (.atom (atomOf config ⟨k, .equal, v⟩))) := by
      rw [Term.formula?, h, equality, formula?_compare]
      rfl
    obtain ⟨g, hg, hholds, hatoms⟩ := ih hnext
    refine ⟨g, hg, fun assign => ?_, ?_⟩
    · rw [hholds, List.any_cons, ← Bool.or_assoc]
      rfl
    · rw [hatoms, List.map_cons]
      simp [Formula.atoms]

namespace Formula.Means

variable {config : RenderConfig} {f g : Formula} {e e' : Expr}

/-- The atom of a comparison means the comparison. -/
theorem comparison (k : Key) (op : CompareOp) (v : Value) :
    (atom (atomOf config ⟨k, op, v⟩)).Means config (.comparison k op v) :=
  ⟨fun _ => rfl, rfl⟩

/-- The disjunction of equalities means that the field is among the values. -/
theorem exists_disjunction (config : RenderConfig) (k : Key) (vs : ValueList) :
    ∃ f, (disjunction config k vs).formula? = some f ∧
      f.Means config (.membership k false vs) := by
  obtain ⟨f, hf, hholds, hatoms⟩ := exists_foldl_connect config k vs.others
    (formula?_compare config k .equal vs.first)
  refine ⟨f, hf, hholds, ?_⟩
  rw [hatoms, Expr.tests, List.map_map]
  rfl

/-- The negation of a membership test means the negated test. -/
theorem not {k : Key} {vs : ValueList} (h : f.Means config (.membership k false vs)) :
    (Formula.not f).Means config (.membership k true vs) := by
  refine ⟨fun assign => ?_, h.atoms⟩
  rw [Formula.holds, h.holds]
  rfl

/-- A connective of formulas means the connective of their filters. -/
theorem connect (c : Connective) (h : f.Means config e) (h' : g.Means config e') :
    (Formula.connect c f g).Means config (.join c e e') := by
  constructor
  · intro assign
    rw [Formula.holds, h.holds, h'.holds]
    rfl
  · rw [Formula.atoms, h.atoms, h'.atoms, Expr.tests, List.map_append]

/-- Parentheses do not change what a formula means. -/
theorem group (h : f.Means config e) : f.Means config (.group e) :=
  ⟨h.holds, h.atoms⟩

/-- Regrouping does not change what a formula means. -/
theorem of_regroup (h : f.Means config e.regroup) : f.Means config e := by
  constructor
  · intro assign
    rw [h.holds, Expr.holds_regroup]
  · rw [h.atoms, Expr.tests_regroup]

end Formula.Means

/-- What is written for a membership test is read as a disjunction, or as its negation. -/
theorem exists_membership {config : RenderConfig} {k : Key} {negated : Bool} {vs : ValueList}
    {s : String} (h : (dialect config).membership k negated vs = .ok s) :
    ∃ t f, language.Written 3 s.toList t ∧ t.formula? = some f ∧
      f.Means config (.membership k negated vs) := by
  obtain ⟨d, hwritten, rfl⟩ := exists_disjunction h
  obtain ⟨f, hf, hmeans⟩ := Formula.Means.exists_disjunction config k vs
  cases negated with
  | true =>
    refine ⟨.not (disjunction config k vs), .not f, ?_, by rw [Term.formula?, hf]; rfl, hmeans.not⟩
    exact written_not 3 (hwritten.loosen (by split <;> decide))
  | false =>
    refine ⟨disjunction config k vs, f, ?_, hf, hmeans⟩
    -- a single equality is no disjunction and has no parentheses
    by_cases hsize : 1 < vs.size
    · rw [if_pos hsize] at hwritten
      rw [if_neg (by decide), Dialect.wrap, if_pos (decide_eq_true hsize),
        Dialect.toList_parenthesized]
      exact hwritten.enclosed 3
    · rw [if_neg hsize] at hwritten
      rw [if_neg (by decide), Dialect.wrap, if_neg (by simpa using hsize)]
      exact hwritten

/-- What is written is read as a formula that means the filter. -/
theorem exists_means {config : RenderConfig} {e : Expr} {p : String} (h : render config e = .ok p) :
    ∃ f, read p = some f ∧ f.Means config e := by
  have hall : ∃ t f, language.Written 1 p.toList t ∧ t.formula? = some f ∧
      f.Means config e.regroup := by
    -- what is written is the text of the regrouped tree, so the induction is along that text
    refine Dialect.render_induction (d := dialect config)
      (Q := fun p s e => ∃ t f, language.Written p s.toList t ∧ t.formula? = some f ∧
        f.Means config e)
      ?_ ?_ ?_ ?_ ?_ h
    -- a comparison, a membership test, a bracketed text, a connective and a group, in this order
    · intro k op v s h
      obtain ⟨path, hpath, h⟩ := Rendered.bind_eq_ok h
      obtain ⟨literal, hvalue, h⟩ := Rendered.bind_eq_ok h
      cases h
      exact ⟨_, _, written_comparison op hpath hvalue (by simp [toString]),
        formula?_compare config k op v, .comparison k op v⟩
    · exact fun h => exists_membership h
    · exact fun hle ⟨t, f, hwritten, hf, hmeans⟩ => ⟨t, f, hwritten.loosen hle, hf, hmeans⟩
    · intro c s text l r ⟨t, f, hleft, hf, hl⟩ ⟨u, g, hright, hg, hr⟩
      have hwritten := written_connect config hleft hright (Dialect.toList_joined _ _ _)
      have hformula : (Term.connect c t u).formula? = some (.connect c f g) := by
        rw [Term.formula?, hf, hg]
        rfl
      exact ⟨_, _, hwritten, hformula, hl.connect c hr⟩
    · intro s e ⟨t, f, hwritten, hf, hmeans⟩
      refine ⟨t, f, ?_, hf, hmeans.group⟩
      rw [Dialect.toList_parenthesized]
      exact hwritten.enclosed 3
  -- the text has one term, and that term one formula
  obtain ⟨t, f, hwritten, hf, hmeans⟩ := hall
  have hread : language.read p = some t := hwritten.read_eq
  exact ⟨f, by rw [read, hread, Option.bind_some, hf], hmeans.of_regroup⟩

/-! ### Predicates as literals of SQL -/

/-- The condition that matches the metadata column with a path predicate. -/
def matchTerm (config : RenderConfig) (p : String) : Sql.Term :=
  .apply "@@" (.cast (.column config.metadataColumn) "jsonb")
    (.cast (.constant (.text p)) "jsonpath")

/-- A predicate is the metadata column, matched with the text of the path predicate as a literal. -/
theorem predicate_eq (config : RenderConfig) (e : Expr) :
    predicate config e = (render config e).map fun p =>
      Sql.identifier config.metadataColumn ++ "::jsonb @@ " ++ quoteDoubled '\'' p ++
        "::jsonpath" := by
  unfold predicate
  cases render config e <;> rfl

/-- A predicate is read back from the literal that it is. -/
theorem read_predicate {config : RenderConfig} {e : Expr} {p q : String}
    (h : render config e = .ok p) (hq : predicate config e = .ok q) :
    Sql.read q = some (matchTerm config p) := by
  obtain ⟨ts, hscan, hreads⟩ := Sql.exists_identifier 6 config.metadataColumn
  obtain ⟨us, hscan', hreads'⟩ := Sql.exists_string 6 p
  have hjsonb : "jsonb" ∈ Sql.castTypes := by decide
  have hjsonpath : "jsonpath" ∈ Sql.castTypes := by decide
  have hcolumn := Sql.written_cast hjsonb (by decide) hscan hreads
  have hpath := Sql.written_cast hjsonpath (by decide) hscan' hreads'
  have hsymbol : Scans Sql.front Sql.isOperatorChar "@@".toList [.operator "@@"] :=
    Sql.scans_operator (by decide) (by decide)
  rw [predicate_eq, h] at hq
  cases hq
  -- the text of the predicate is cut at its operator, with a cast on either side
  have htext : (Sql.identifier config.metadataColumn ++ "::jsonb @@ " ++ quoteDoubled '\'' p ++
      "::jsonpath").toList =
      ((Sql.identifier config.metadataColumn).toList ++ ':' :: ':' :: "jsonb".toList) ++
        ' ' :: ("@@".toList ++
          ' ' :: ((quoteDoubled '\'' p).toList ++ ':' :: ':' :: "jsonpath".toList)) := by
    simp
  -- casts bind more tightly than the operator between them
  have hwritten : Sql.language.Written 5 (Sql.identifier config.metadataColumn ++ "::jsonb @@ " ++
      quoteDoubled '\'' p ++ "::jsonpath").toList (matchTerm config p) := by
    rw [htext]
    exact .operator hsymbol (by decide) (fun _ => rfl) (fun _ _ _ => rfl)
      (hcolumn.loosen (by decide)) hpath
  exact (hwritten.loosen (by decide)).read_eq

/-- What is written is read as a formula that means the filter. As a condition of SQL it can be
written whenever it can be written at all, and is then read back with the name of the column. -/
theorem meaning_of_render (config : RenderConfig) (e : Expr) :
    (∀ p, render config e = .ok p → ∃ f, read p = some f ∧ f.Means config e) ∧
    ((∃ q, predicate config e = .ok q) ↔ ∃ p, render config e = .ok p) ∧
    ∀ p q, render config e = .ok p → predicate config e = .ok q →
      Sql.read q = some (matchTerm config p) := by
  refine ⟨fun p h => exists_means h, ?_, fun p q h hq => read_predicate h hq⟩
  rw [predicate_eq]
  constructor
  -- a predicate is put together after its path predicate has been written
  · intro hpredicate
    obtain ⟨q, hq⟩ := hpredicate
    cases h : render config e with
    | error c => rw [h] at hq; cases hq
    | ok p => exact ⟨p, rfl⟩
  · intro hrender
    obtain ⟨p, h⟩ := hrender
    rw [h]
    exact ⟨_, rfl⟩

/-- A list of two values becomes a disjunction in parentheses, and a negated list of one becomes
a negation. -/
theorem meaning_of_render_membership :
    render ⟨FieldMap.empty.insert "lang" "x y", "Meta", "node"⟩
        (.join .and (.membership (.field "lang") false ⟨.text "it's", [.integer (-1)]⟩)
          (.membership (.nested "a" "b\x22c") true ⟨.boolean true, []⟩)) =
      .ok ("($.\x22x y\x22 == \x22it's\x22 || $.\x22x y\x22 == -1) && " ++
        "!($.a.\x22b\\\x22c\x22 == true)") ∧
    (∃ f, read ("($.\x22x y\x22 == \x22it's\x22 || $.\x22x y\x22 == -1) && " ++
        "!($.a.\x22b\\\x22c\x22 == true)") = some f ∧
      f.Means ⟨FieldMap.empty.insert "lang" "x y", "Meta", "node"⟩
        (.join .and (.membership (.field "lang") false ⟨.text "it's", [.integer (-1)]⟩)
          (.membership (.nested "a" "b\x22c") true ⟨.boolean true, []⟩))) ∧
    ∃ q, predicate ⟨FieldMap.empty.insert "lang" "x y", "Meta", "node"⟩
        (.join .and (.membership (.field "lang") false ⟨.text "it's", [.integer (-1)]⟩)
          (.membership (.nested "a" "b\x22c") true ⟨.boolean true, []⟩)) = .ok q ∧
      Sql.read q = some (matchTerm ⟨FieldMap.empty.insert "lang" "x y", "Meta", "node"⟩
        ("($.\x22x y\x22 == \x22it's\x22 || $.\x22x y\x22 == -1) && " ++
          "!($.a.\x22b\\\x22c\x22 == true)")) := by
  have hmeaning := meaning_of_render ⟨FieldMap.empty.insert "lang" "x y", "Meta", "node"⟩
    (.join .and (.membership (.field "lang") false ⟨.text "it's", [.integer (-1)]⟩)
      (.membership (.nested "a" "b\x22c") true ⟨.boolean true, []⟩))
  have h : render ⟨FieldMap.empty.insert "lang" "x y", "Meta", "node"⟩
      (.join .and (.membership (.field "lang") false ⟨.text "it's", [.integer (-1)]⟩)
        (.membership (.nested "a" "b\x22c") true ⟨.boolean true, []⟩)) =
      .ok ("($.\x22x y\x22 == \x22it's\x22 || $.\x22x y\x22 == -1) && " ++
        "!($.a.\x22b\\\x22c\x22 == true)") := by
    rfl
  obtain ⟨q, hq⟩ := hmeaning.2.1.2 ⟨_, h⟩
  exact ⟨h, hmeaning.1 _ h, q, hq, hmeaning.2.2 _ q h hq⟩

end MetadataFilter.JsonPath
