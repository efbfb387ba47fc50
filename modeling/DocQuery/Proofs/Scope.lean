import DocQuery.Proofs.Pipelines

namespace DocQuery.Proofs

open Sql Check
open Value (doc)

/-- A table of a schema has a column. -/
def ColumnIn (schema : Value) (table column : String) : Prop :=
  ∃ columns, schema.index (.text table) = .ok columns ∧ (Value.text column).isIn columns = .ok true

theorem table_columns {schema columns : Value} {t : String} (hs : Schema.check schema = .ok ())
    (hi : schema.index (.text t) = .ok columns) : ∃ cs, columns = .dict cs := by
  unfold Schema.check at hs
  split at hs
  · obtain ⟨e, he, rfl⟩ := index_dict hi
    obtain ⟨cs, hcs, -⟩ := tables_typed hs e he
    exact ⟨cs, hcs⟩
  · cases hs

theorem column_entry {cs : Entries} {c : String}
    (h : (Value.text c).isIn (.dict cs) = .ok true) : ∃ v, Entries.get? cs (.text c) = some v := by
  have hhas : Entries.has cs (.text c) = true := by simpa [Value.isIn] using h
  rw [has_eq_get] at hhas
  exact Option.isSome_iff_exists.mp hhas

/-- The columns of a checked schema have one of two types. -/
theorem column_typed {schema : Value} {t c : String} (hs : Schema.check schema = .ok ())
    (h : ColumnIn schema t c) : ∃ type, typeOf schema (.text t) (.text c) = .ok (.text type) ∧
      (type = "int" ∨ type = "string") := by
  obtain ⟨columns, hi, hc⟩ := h
  obtain ⟨cs, rfl⟩ := table_columns hs hi
  obtain ⟨type, htype⟩ := column_entry hc
  have hof : typeOf schema (.text t) (.text c) = .ok type := by
    rw [typeOf, hi, ok_bind]
    simp only [Value.index, as_key_text, ok_bind, htype]
  rcases column_types hs hof with ht | ht
  · obtain rfl := eq_text_of_same ht
    exact ⟨_, hof, .inl rfl⟩
  · obtain rfl := eq_text_of_same ht
    exact ⟨_, hof, .inr rfl⟩

/-- Each part of a statement was accepted, with some notes on the tree. -/
structure AcceptedParts (schema : Value) (subquery : Value → Checked Value) (q : Query) :
    Prop where
  tables : checkTables schema (partsOf q) = .ok ()
  selected : (checkSelected schema (partsOf q)).outcome = .ok ()
  joins : ∃ p, StatementTree q p ∧ (checkJoins schema subquery p).outcome = .ok ()
  condition : ∃ p, StatementTree q p ∧ (checkWhere schema subquery p).outcome = .ok ()
  having : ∃ p, StatementTree q p ∧ (checkHaving schema subquery p).outcome = .ok ()
  groups : ∃ p, StatementTree q p ∧ checkGroups schema p = .ok ()

theorem parts_tree (q : Query) : StatementTree q (partsOf q) := by
  obtain ⟨p, hp, hq⟩ := statement_tree q
  have hparts := statement_parts q
  rw [Statement.toValue, hp] at hparts
  cases hparts
  exact hq

theorem accepted_parts {schema : Value} {q : Query}
    (h : (Check.check schema q.toValue).outcome = .ok ()) :
    ∃ subquery, AcceptedParts schema subquery q := by
  rw [statement_parts] at h
  let subquery := checkNested schema (Value.select (partsOf q)).depth
  have hsub : Annotates subquery := check_nested_tree schema _
  have hselect : (checkSelect schema subquery (partsOf q)).outcome = .ok () := h
  unfold checkSelect at hselect
  obtain ⟨h6, hgroups, -⟩ := and_then_ok hselect
  obtain ⟨h5, hhaving, e5⟩ := and_then_ok h6
  obtain ⟨h4, -, e4⟩ := and_then_ok h5
  obtain ⟨h3, hwhere, e3⟩ := and_then_ok h4
  obtain ⟨h2, hjoins, e2⟩ := and_then_ok h3
  obtain ⟨h1, hselected, e1⟩ := and_then_ok h2
  have t1 := check_selected_tree schema (parts_tree q)
  rw [e1] at hjoins e2
  have t2 := @check_joins_tree schema subquery hsub q _ t1
  rw [e2] at hwhere e3
  have t3 := @check_where_tree schema subquery hsub q _ t2
  rw [e3] at e4
  have t4 := note_join_tree t3
  rw [e4] at hhaving e5
  have t5 := @check_having_tree schema subquery hsub q _ t4
  rw [e5] at hgroups
  exact ⟨subquery, h1, hselected, ⟨_, t1, hjoins⟩, ⟨_, t2, hwhere⟩, ⟨_, t4, hhaving⟩,
    ⟨_, t5, hgroups⟩⟩

/-- The tables of a statement. -/
def sourceNames : Source Condition → List String
  | .table a => [a]
  | .join a b _ => [a, b]
  | .tables a b more => a :: b :: more

theorem all_tables_of {q : Query} {p : SelectOf Value} (h : StatementTree q p) :
    allTables p = .ok ((sourceNames q.source).map Value.text) := by
  obtain ⟨-, table, joins, -, -, -, -, -, -⟩ := h
  generalize hj : p.joins = js at joins
  generalize q.source = source at table joins
  cases joins with
  | table => simp [allTables, table, hj, sourceTable, Value.present, tablesOf, sourceNames]
  | tables =>
    simp [allTables, table, hj, sourceTable, textList, Value.present, tablesOf, sourceNames]
  | @join c v a b hc =>
    have htable : (doc [("table", .text b), ("condition", v)]).entry "table" =
      .ok (.text b) := rfl
    simp [allTables, table, hj, sourceTable, Value.present, tablesOf, sourceNames, Value.items,
      htable]

/-- The first table of a statement. -/
def baseName : Source Condition → String
  | .table a => a
  | .join a _ _ => a
  | .tables a _ _ => a

theorem base_table_of {q : Query} {p : SelectOf Value} (h : StatementTree q p) :
    baseTable p = .ok (.text (baseName q.source)) := by
  rw [baseTable, all_tables_of h]
  cases q.source <;> rfl

/-- A requirement whose failure is an error is met. -/
theorem required {x : Except Fault Bool} {failure : Except Check.Error Unit}
    (hf : failure ≠ .ok ())
    (h : (liftM x >>= fun b => if (!b) = true then failure else pure ()) = .ok ()) :
    x = .ok true := by
  simp only [bind_ok, check_lift_ok] at h
  obtain ⟨b, hx, h⟩ := h
  cases b with
  | true => exact hx
  | false => exact absurd h hf

theorem column_required {schema : Value} {t c : String}
    (h : requireColumn schema (.text t) (.text c) = .ok ()) : ColumnIn schema t c := by
  obtain ⟨columns, hindex, h⟩ := bind_ok.mp h
  exact ⟨columns, check_lift_ok.mp hindex, required (by simp [bind_ok]) h⟩

/-- The grouping columns exist in the base table, and every selected column is one of them. -/
theorem groups_accepted {schema : Value} {q : Query} {p : SelectOf Value}
    (ht : StatementTree q p) (hgroup : q.groupBy ≠ []) (h : checkGroups schema p = .ok ()) :
    (∀ c ∈ q.groupBy, ColumnIn schema (baseName q.source) c) ∧
      ∃ vs, q.items.toValue.items = .ok vs ∧
        ∀ v ∈ vs, checkGrouped (textList q.groupBy) v = .ok () := by
  have hbase := base_table_of ht
  obtain ⟨columns, -, -, -, groupBy, -, -, -, -⟩ := ht
  have hpresent : (textList q.groupBy).present = true := by
    cases hg : q.groupBy with
    | nil => exact absurd hg hgroup
    | cons c cs => rfl
  simp only [checkGroups, groupBy, columns, hpresent, hbase, ↓reduceIte, bind_ok,
    check_lift_ok] at h
  obtain ⟨base, hbase, columns, hindex, cs, hcs, _, hall, vs, hvs, hgrouped⟩ := h
  cases hbase
  cases hcs
  refine ⟨fun c hc => ⟨columns, hindex, ?_⟩, vs, hvs, for_each_ok.mp hgrouped⟩
  have hin := for_each_ok.mp hall (.text c) (List.mem_map_of_mem hc)
  exact required (by simp [bind_ok]) hin

theorem text_in_list (cs : List String) (c : String) :
    (Value.text c).isIn (textList cs) = .ok (decide (c ∈ cs)) := by
  simp only [textList, Value.isIn, List.any_map]
  congr 1
  rw [Bool.eq_iff_iff]
  simp

theorem grouped_text {cs : List String} {v : Value} {c : String} (hv : groupedName v = .text c)
    (h : checkGrouped (textList cs) v = .ok ()) : c ∈ cs := by
  simp only [checkGrouped, hv] at h
  have hin := required (by simp) h
  rw [text_in_list] at hin
  simpa using hin

/-- A grouped statement selects grouping columns and aggregates only. -/
theorem selected_grouped {q : Query} {vs : List Value} (hnames : ∀ c ∈ q.groupBy, IsName c)
    (hvs : q.items.toValue.items = .ok vs)
    (h : ∀ v ∈ vs, checkGrouped (textList q.groupBy) v = .ok ()) :
    q.items ≠ .all ∧ ∀ c, SelectItem.column c ∈ selectedItems q.items → c.name ∈ q.groupBy := by
  cases hi : q.items with
  | all =>
    rw [hi] at hvs
    cases hvs
    have hstar : "*" ∈ q.groupBy := grouped_text rfl (h (.text "*") (by simp))
    obtain ⟨c, cs, hc, hstart, -⟩ := hnames _ hstar
    cases hc
    exact absurd hstart (by decide)
  | items x xs =>
    rw [hi] at hvs
    cases hvs
    refine ⟨by simp, fun c hc => ?_⟩
    exact grouped_text rfl (h c.toValue (List.mem_map.mpr ⟨.column c, hc, rfl⟩))

/-- Each selected item was found, with any notes made before. -/
theorem each_accepted {schema base : Value} {cs : List Value} {seen : List String}
    {p : SelectOf Value} (h : (checkEach schema base cs seen (.select p)).outcome = .ok ()) :
    ∀ c ∈ cs, ∃ r, select schema base (.select { p with resolved? := r }) c = .ok none ∨
      ∃ s, select schema base (.select { p with resolved? := r }) c = .ok (some s) ∧
        requireColumn schema s.table s.column = .ok () := by
  induction cs generalizing seen p with
  | nil => simp
  | cons c cs ih =>
    unfold checkEach at h
    split at h
    · cases h
    · rename_i hnone
      exact List.forall_mem_cons.mpr ⟨⟨p.resolved?, .inl hnone⟩, ih h⟩
    · rename_i s hsome
      split at h
      · simp only [bind_ok] at h
        obtain ⟨_, -, he⟩ := h
        cases he
      · split at h
        · cases h
        · rename_i noted hnote
          obtain ⟨hrequired, hrest, -⟩ := and_then_ok h
          obtain ⟨_, -, hcolumn⟩ := bind_ok.mp hrequired
          obtain ⟨r, rfl⟩ := note_resolved hnote
          refine List.forall_mem_cons.mpr ⟨⟨p.resolved?, .inr ⟨s, hsome, hcolumn⟩⟩, ?_⟩
          exact @ih _ { p with resolved? := r } hrest

/-- The items of an accepted select list. -/
theorem selected_accepted {schema : Value} {q : Query}
    (h : (checkSelected schema (partsOf q)).outcome = .ok ()) :
    ∀ x ∈ selectedItems q.items, ∃ r, select schema (.text (baseName q.source))
        (.select { partsOf q with resolved? := r }) x.toValue = .ok none ∨
      ∃ s, select schema (.text (baseName q.source))
          (.select { partsOf q with resolved? := r }) x.toValue = .ok (some s) ∧
        requireColumn schema s.table s.column = .ok () := by
  cases hi : q.items with
  | all => simp [selectedItems]
  | items x xs =>
    have hcolumns : (partsOf q).columns = .list ((x :: xs).map SelectItem.toValue) := by
      simp only [partsOf, hi, SelectList.toValue]
    have hstar : (Value.list ((x :: xs).map SelectItem.toValue)).same (.list [.text "*"]) =
        false := by
      cases x with
      | column c =>
        simp [SelectItem.toValue, ColumnRef.toValue, doc, Value.same, Value.sameItems,
          Value.sameNumber, Value.number?]
      | aggregate a =>
        cases a <;> simp [SelectItem.toValue, Aggregate.toValue, Value.same, Value.sameItems,
          Value.sameNumber, Value.number?]
    simp only [checkSelected, base_table_of (parts_tree q), checkColumns, hcolumns, hstar,
      Value.items, Checked.map, Bool.false_eq_true, ↓reduceIte] at h
    split at h
    · cases h
    · intro y hy
      exact each_accepted h y.toValue (List.mem_map_of_mem hy)

theorem select_ref (schema base tree : Value) (c : ColumnRef) :
    select schema base tree c.toValue = (do
      let t ← ownerIn schema tree (.text c.name)
      return some (← selectedAs t (.text c.name))) := by
  have hdot : Entries.has [(.text "table", optionalText c.table?), (.text "column", .text c.name)]
    (.text ".") = false := rfl
  simp only [ColumnRef.toValue, doc, List.map_cons, List.map_nil, select, hdot, Bool.not_false,
    Bool.or_true, ↓reduceIte]
  rfl

theorem owner_found {schema t : Value} {p : SelectOf Value} {ts : List Value} {c : String}
    (htables : allTables p = .ok ts) (h : ownerIn schema (.select p) (.text c) = .ok t) :
    owners schema ts (.text c) = .ok [t] := by
  simp only [ownerIn, Value.asSelect, bind_ok, check_lift_ok] at h
  obtain ⟨_, hp, _, hts, found, howners, h⟩ := h
  cases hp
  cases htables.symm.trans hts
  rw [howners]
  cases found with
  | nil => simp [bind_ok] at h
  | cons u us =>
    cases us with
    | nil =>
      cases h
      rfl
    | cons => simp [bind_ok] at h

/-- A selected column is found in just one of the tables. -/
theorem selected_owner {schema : Value} {q : Query} {c : ColumnRef}
    (hx : SelectItem.column c ∈ selectedItems q.items)
    (h : (checkSelected schema (partsOf q)).outcome = .ok ()) :
    ∃ t, owners schema ((sourceNames q.source).map .text) (.text c.name) = .ok [t] := by
  have htables := all_tables_of (parts_tree q)
  obtain ⟨r, hnone | ⟨s, hsome, -⟩⟩ := selected_accepted h _ hx
  · rw [SelectItem.toValue, select_ref] at hnone
    simp [bind_ok] at hnone
  · rw [SelectItem.toValue, select_ref] at hsome
    obtain ⟨t, ht, -⟩ := bind_ok.mp hsome
    exact ⟨t, @owner_found _ _ { partsOf q with resolved? := r } _ _ htables ht⟩

/-- No selected column of a join is in both tables. -/
theorem selected_once {schema : Value} {q : Query} {a b : String} {on : Condition} {c : ColumnRef}
    (hsource : q.source = .join a b on) (hx : SelectItem.column c ∈ selectedItems q.items)
    (h : (checkSelected schema (partsOf q)).outcome = .ok ()) :
    ¬ (ColumnIn schema a c.name ∧ ColumnIn schema b c.name) := by
  rintro ⟨⟨as, hia, hina⟩, ⟨bs, hib, hinb⟩⟩
  obtain ⟨t, ht⟩ := selected_owner hx h
  have hboth : owners schema [.text a, .text b] (.text c.name) = .ok [.text a, .text b] := by
    simp [owners, List.filterM, hia, hib, hina, hinb]
  rw [hsource] at ht
  have hlength := congrArg List.length (Except.ok.inj (hboth.symm.trans ht))
  simp at hlength

theorem IsName.no_dot {s : String} (h : IsName s) : '.' ∉ s.toList :=
  fun hdot => absurd (h.parts _ hdot) (by decide)

theorem IsName.not_star {s : String} (h : IsName s) : s ≠ "*" := by
  rintro rfl
  obtain ⟨c, cs, hs, hc, -⟩ := h
  cases hs
  exact absurd hc (by decide)

theorem occurs_char {x : Char} {cs : List Char} (h : x ∉ cs) : Value.occursIn [x] cs = false := by
  induction cs with
  | nil => rfl
  | cons c cs ih =>
    obtain ⟨hc, hcs⟩ := not_or.mp (fun hm => h (List.mem_cons.mpr hm))
    simp [Value.occursIn, ih hcs, List.isPrefixOf, hc]

/-- The column of a selected aggregate exists in the base table. -/
theorem call_selected (schema tree : Value) (base : String) (f : Func) {c : String}
    (hc : IsName c) :
    select schema (.text base) tree (SelectItem.aggregate (.call f c)).toValue =
      .ok (some ⟨.text base, .text c,
        "agg_" ++ f.keyword.spelling ++ "_" ++ (base ++ "." ++ c)⟩) := by
  have hdot : (Value.text ".").isIn (.text c) = .ok false := by
    have := occurs_char hc.no_dot
    simp [Value.isIn, this]
  have hstar : (f.keyword.spelling == "COUNT" && c == "*") = false := by
    simp [hc.not_star]
  simp only [SelectItem.toValue, Aggregate.toValue, select, same_text, hstar, aggregated, hdot,
    selectedAs]
  rfl

theorem aggregate_accepted {schema : Value} {q : Query} {f : Func} {c : String}
    (hc : IsName c) (hx : SelectItem.aggregate (.call f c) ∈ selectedItems q.items)
    (h : (checkSelected schema (partsOf q)).outcome = .ok ()) :
    ColumnIn schema (baseName q.source) c := by
  obtain ⟨r, hnone | ⟨s, hsome, hcolumn⟩⟩ := selected_accepted h _ hx
  · rw [call_selected _ _ _ _ hc] at hnone
    cases hnone
  · rw [call_selected _ _ _ _ hc] at hsome
    cases hsome
    exact column_required hcolumn

end DocQuery.Proofs
