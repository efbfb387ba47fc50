import DocQuery.Pipeline
import DocQuery.Proofs.Comparisons
import DocQuery.Schema

namespace DocQuery.Proofs

open Sql Check

theorem check_lift_ok {α : Type} {x : Except Fault α} {a : α} :
    (liftM x : Except Check.Error α) = .ok a ↔ x = .ok a := map_error_ok

theorem and_then_ok {α : Type} {c : Checked α} {next : α → Checked α}
    (h : (c.andThen next).outcome = .ok ()) :
    c.outcome = .ok () ∧ (next c.tree).outcome = .ok () ∧
      (c.andThen next).tree = (next c.tree).tree := by
  unfold Checked.andThen at h ⊢
  split at h
  · rename_i hc
    exact ⟨hc, h, by simp⟩
  · cases h

/-- The table, the joins and the condition of a statement are left as they are. -/
structure Keeps (p q : SelectOf Value) : Prop where
  table : q.table = p.table
  joins : q.joins = p.joins
  condition : q.condition = p.condition

theorem Keeps.refl (p : SelectOf Value) : Keeps p p := ⟨rfl, rfl, rfl⟩

theorem Keeps.trans {p q r : SelectOf Value} (hpq : Keeps p q) (hqr : Keeps q r) : Keeps p r :=
  ⟨hqr.table.trans hpq.table, hqr.joins.trans hpq.joins, hqr.condition.trans hpq.condition⟩

theorem note_resolved {p : SelectOf Value} {table column tree : Value}
    (h : note (.select p) table column = .ok tree) :
    ∃ r, tree = .select { p with resolved? := r } := by
  simp only [note] at h
  split at h
  · cases h
    exact ⟨_, rfl⟩
  · cases h
    exact ⟨_, rfl⟩
  · cases h

theorem check_each_resolved (schema base : Value) (cs : List Value) (seen : List String)
    (p : SelectOf Value) :
    ∃ r, (checkEach schema base cs seen (.select p)).tree = .select { p with resolved? := r } := by
  induction cs generalizing seen p with
  | nil => exact ⟨p.resolved?, rfl⟩
  | cons c cs ih =>
    unfold checkEach
    split
    · exact ⟨p.resolved?, rfl⟩
    · exact ih seen p
    · split
      · exact ⟨p.resolved?, rfl⟩
      · split
        · exact ⟨p.resolved?, rfl⟩
        · rename_i noted hnote
          obtain ⟨r, rfl⟩ := note_resolved hnote
          unfold Checked.andThen
          split
          · exact ih _ { p with resolved? := r }
          · exact ⟨r, rfl⟩

theorem check_columns_resolved (schema columns base : Value) (p : SelectOf Value) :
    ∃ r, (checkColumns schema columns base (.select p)).tree =
      .select { p with resolved? := r } := by
  unfold checkColumns
  split
  · exact ⟨p.resolved?, rfl⟩
  · split
    · exact ⟨p.resolved?, rfl⟩
    · split
      · exact ⟨p.resolved?, rfl⟩
      · exact check_each_resolved schema base _ [] p

/-- The selected columns are noted, and nothing else is changed. -/
theorem check_selected_resolved (schema : Value) (p : SelectOf Value) :
    ∃ r, (checkSelected schema p).tree = { p with resolved? := r } := by
  unfold checkSelected
  split
  · exact ⟨p.resolved?, rfl⟩
  · rename_i base _
    obtain ⟨r, hr⟩ := check_columns_resolved schema p.columns base p
    exact ⟨r, by simp [Checked.map, hr]⟩

theorem check_selected_keeps (schema : Value) (p : SelectOf Value) :
    Keeps p (checkSelected schema p).tree := by
  obtain ⟨r, hr⟩ := check_selected_resolved schema p
  rw [hr]
  exact ⟨rfl, rfl, rfl⟩

theorem check_joins_keeps (schema : Value) (subquery : Value → Checked Value) {p : SelectOf Value}
    (hj : p.joins = .list []) : Keeps p (checkJoins schema subquery p).tree := by
  simp only [checkJoins, hj, checkClauses, Checked.map, Checked.accept]
  exact ⟨rfl, hj.symm, rfl⟩

theorem note_join_keeps {p : SelectOf Value} {t : String} (ht : p.table = .text t) :
    Keeps p (noteJoin p).tree := by
  simp only [noteJoin, ht, isPair, Bool.false_eq_true, ↓reduceIte, Checked.accept]
  exact ⟨ht.symm, rfl, rfl⟩

theorem check_having_keeps (schema : Value) (subquery : Value → Checked Value)
    (p : SelectOf Value) : Keeps p (checkHaving schema subquery p).tree := by
  unfold checkHaving
  split
  · split
    · split
      · exact .refl p
      · exact ⟨rfl, rfl, rfl⟩
    · exact .refl p
  · exact .refl p

theorem check_connected {schema : Value} {subquery : Value → Checked Value} {tables : List Value}
    {l o r : Value}
    (h : (checkCondition schema subquery tables (.logical l o r)).outcome = .ok ()) :
    (checkCondition schema subquery tables l).outcome = .ok () ∧
      (checkCondition schema subquery tables r).outcome = .ok () ∧
      (checkCondition schema subquery tables (.logical l o r)).tree =
        .logical (checkCondition schema subquery tables l).tree o
          (checkCondition schema subquery tables r).tree := by
  simp only [checkCondition] at h
  split at h
  · cases h
  · rename_i hl
    exact ⟨hl, h, by simp [checkCondition, hl, Checked.map]⟩

theorem relation_not_subquery (r : Relation) : isSubquery r.toValue = false := by
  cases r <;> rfl

/-- A comparison with literals is checked by itself, and left as it is. -/
theorem check_term (schema : Value) (subquery : Value → Checked Value) (tables : List Value)
    {c : Condition} (hc : Term c) (hl : isLiteral c = true) :
    ∃ i o v, c.toValue = .comparison i o v ∧
      checkCondition schema subquery tables c.toValue =
        ⟨c.toValue, checkPlain schema tables i o v⟩ := by
  cases hc with
  | @compare c r x hc =>
    refine ⟨_, _, _, by rw [Condition.toValue], ?_⟩
    simp [Condition.toValue, checkCondition, checkComparison, relation_not_subquery]
  | @aggregate a r l ha =>
    refine ⟨_, _, _, by rw [Condition.toValue], ?_⟩
    simp [Condition.toValue, checkCondition, checkComparison, relation_not_subquery]
  | between hc =>
    refine ⟨_, _, _, by rw [Condition.toValue], ?_⟩
    simp [Condition.toValue, checkCondition, checkComparison, isSubquery]
  | inList hc =>
    refine ⟨_, _, _, by rw [Condition.toValue], ?_⟩
    simp [Condition.toValue, checkCondition, checkComparison, isSubquery]
  | inQuery hc => simp [isLiteral] at hl

theorem check_comb_tree {schema : Value} {subquery : Value → Checked Value} {tables : List Value}
    {c : Condition} (hc : Comb c) (hl : isLiteral c = true)
    (h : (checkCondition schema subquery tables c.toValue).outcome = .ok ()) :
    (checkCondition schema subquery tables c.toValue).tree = c.toValue := by
  induction hc with
  | term ht =>
    obtain ⟨i, o, v, -, hcheck⟩ := check_term schema subquery tables ht hl
    rw [hcheck]
  | @connect l w r _ _ hr ih =>
    simp only [isLiteral, Bool.and_eq_true] at hl
    rw [Condition.toValue] at h ⊢
    obtain ⟨hleft, -, htree⟩ := check_connected h
    obtain ⟨i, o, v, -, hcheck⟩ := check_term schema subquery tables hr hl.2
    rw [htree, ih hl.1 hleft, hcheck]

theorem columns_typed {table : Value} {es : Entries} (h : Schema.checkColumns table es = .ok ()) :
    ∀ e ∈ es, Schema.isType e.2 = true := by
  induction es with
  | nil => simp
  | cons e es ih =>
    unfold Schema.checkColumns at h
    split at h
    · rename_i ht
      exact List.forall_mem_cons.mpr ⟨ht, ih h⟩
    · cases h

theorem tables_typed {es : Entries} (h : Schema.checkTables es = .ok ()) :
    ∀ e ∈ es, ∃ columns, e.2 = .dict columns ∧ ∀ c ∈ columns, Schema.isType c.2 = true := by
  induction es with
  | nil => simp
  | cons e es ih =>
    unfold Schema.checkTables at h
    split at h
    · cases ‹e :: es = []›
    · rename_i table columns rest heq
      cases heq
      obtain ⟨_, hcolumns, htables⟩ := bind_ok.mp h
      exact List.forall_mem_cons.mpr ⟨⟨columns, rfl, columns_typed hcolumns⟩, ih htables⟩
    · cases h

theorem get_mem {es : Entries} {key v : Value} (h : Entries.get? es key = some v) :
    ∃ e ∈ es, e.2 = v := by
  obtain ⟨e, he, hv⟩ := Option.map_eq_some_iff.mp h
  exact ⟨e, List.mem_of_find?_eq_some he, hv⟩

theorem index_dict {es : Entries} {key v : Value} (h : (Value.dict es).index key = .ok v) :
    ∃ e ∈ es, e.2 = v := by
  simp only [Value.index, bind_ok] at h
  obtain ⟨_, -, h⟩ := h
  split at h
  · rename_i w hw
    cases h
    exact get_mem hw
  · cases h

/-- The columns of a schema have one of the two types. -/
theorem column_types {schema table column type : Value} (hs : Schema.check schema = .ok ())
    (h : typeOf schema table column = .ok type) :
    Check.isType type "int" = true ∨ Check.isType type "string" = true := by
  simp only [typeOf, bind_ok] at h
  obtain ⟨columns, htable, hcolumn⟩ := h
  unfold Schema.check at hs
  split at hs
  · obtain ⟨e, he, rfl⟩ := index_dict htable
    obtain ⟨cs, hcs, htyped⟩ := tables_typed hs e he
    rw [hcs] at hcolumn
    obtain ⟨c, hc, rfl⟩ := index_dict hcolumn
    simpa [Schema.isType, Check.isType] using htyped c hc
  · cases hs

/-- The type of a compared column is found in the table that it names, or in the one that has it. -/
theorem tested_type_cases {schema table column type : Value} {tables : List Value}
    (h : testedType schema tables table column = .ok type) :
    (table.present = true ∧ typeOf schema table column = .ok type) ∨
      table.present = false ∧ ∃ t, owners schema tables column = .ok [t] ∧
        typeOf schema t column = .ok type := by
  unfold testedType at h
  split at h
  · rename_i hpresent
    simp only [bind_ok, check_lift_ok] at h
    obtain ⟨_, -, columns, -, known, -, h⟩ := h
    split at h
    · simp only [bind_ok] at h
      obtain ⟨_, _, _, _, _, he, _⟩ := h
      cases he
    · exact .inl ⟨hpresent, check_lift_ok.mp h⟩
  · rename_i habsent
    simp only [bind_ok, check_lift_ok] at h
    obtain ⟨found, hfound, h⟩ := h
    split at h
    · obtain ⟨_, _, he⟩ := bind_ok.mp h
      cases he
    · exact .inr ⟨by simpa using habsent, _, hfound, check_lift_ok.mp h⟩
    · obtain ⟨_, _, he⟩ := bind_ok.mp h
      cases he

theorem tested_type_found {schema table column type : Value} {tables : List Value}
    (h : testedType schema tables table column = .ok type) :
    ∃ t, typeOf schema t column = .ok type := by
  rcases tested_type_cases h with ⟨-, ht⟩ | ⟨-, t, -, ht⟩
  · exact ⟨table, ht⟩
  · exact ⟨t, ht⟩

theorem eq_text_of_same {v : Value} {s : String} (h : v.same (.text s) = true) : v = .text s := by
  cases v <;> simp_all [Value.same, Value.sameNumber, Value.number?]

/-- A literal that is accepted for a column has the column's type. -/
theorem check_bound_type {column type : Value} {l : Literal}
    (ht : Check.isType type "int" = true ∨ Check.isType type "string" = true)
    (h : checkBound column type l.toValue = .ok ()) :
    (scalarOf l).isText = Check.isType type "string" := by
  rcases ht with ht | ht
  · obtain rfl := eq_text_of_same ht
    cases l with
    | number n => rfl
    | text s =>
      simp only [checkBound, Check.isType, Literal.toValue, Value.isInt, same_text, BEq.rfl,
        Bool.not_false, Bool.and_self, ↓reduceIte, bind_ok] at h
      obtain ⟨_, _, _, he, _⟩ := h
      cases he
  · obtain rfl := eq_text_of_same ht
    cases l with
    | number n =>
      simp [checkBound, Check.isType, Literal.toValue, Value.isText, bind_ok] at h
    | text s => rfl

theorem tested_ref (c : ColumnRef) :
    testedColumn c.toValue = (optionalText c.table?, .text c.name) := rfl

theorem condition_present (c : Condition) : c.toValue.present = true := by
  cases c <;> simp [Condition.toValue, Value.present]

theorem all_tables_one {p : SelectOf Value} {t : String} (ht : p.table = .text t)
    (hj : p.joins = .list []) : allTables p = .ok [.text t] := by
  simp [allTables, ht, hj, Value.present, tablesOf]

theorem check_where_keeps {schema : Value} {subquery : Value → Checked Value} {p : SelectOf Value}
    {t : String} {c : Condition} (ht : p.table = .text t) (hj : p.joins = .list [])
    (hw : p.condition = c.toValue) (hc : Comb c) (hl : isLiteral c = true)
    (h : (checkWhere schema subquery p).outcome = .ok ()) :
    Keeps p (checkWhere schema subquery p).tree ∧
      (checkCondition schema subquery [.text t] c.toValue).outcome = .ok () := by
  simp only [checkWhere, hw, condition_present, ↓reduceIte, all_tables_one ht hj,
    Checked.map] at h ⊢
  exact ⟨⟨rfl, rfl, (check_comb_tree hc hl h).trans hw.symm⟩, h⟩

theorem check_select_keeps {schema : Value} {subquery : Value → Checked Value} {p : SelectOf Value}
    {t : String} {c : Condition} (ht : p.table = .text t) (hj : p.joins = .list [])
    (hw : p.condition = c.toValue) (hc : Comb c) (hl : isLiteral c = true)
    (h : (checkSelect schema subquery p).outcome = .ok ()) :
    Keeps p (checkSelect schema subquery p).tree ∧
      (checkCondition schema subquery [.text t] c.toValue).outcome = .ok () := by
  unfold checkSelect at h ⊢
  obtain ⟨h6, -, e6⟩ := and_then_ok h
  obtain ⟨h5, -, e5⟩ := and_then_ok h6
  obtain ⟨h4, -, e4⟩ := and_then_ok h5
  obtain ⟨h3, hwhere, e3⟩ := and_then_ok h4
  obtain ⟨h2, -, e2⟩ := and_then_ok h3
  obtain ⟨-, -, e1⟩ := and_then_ok h2
  rw [e6]
  have k1 : Keeps p _ := e1 ▸ check_selected_keeps schema p
  have k2 := k1.trans (e2 ▸ check_joins_keeps schema subquery (k1.joins.trans hj))
  obtain ⟨hkeep, hcond⟩ := check_where_keeps (k2.table.trans ht) (k2.joins.trans hj)
    (k2.condition.trans hw) hc hl hwhere
  have k3 := k2.trans (e3 ▸ hkeep)
  have k4 := k3.trans (e4 ▸ note_join_keeps (k3.table.trans ht))
  exact ⟨k4.trans (e5 ▸ check_having_keeps schema subquery _), hcond⟩

end DocQuery.Proofs
