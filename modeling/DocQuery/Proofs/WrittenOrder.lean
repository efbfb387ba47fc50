import DocQuery.Proofs.Precedence
import DocQuery.Proofs.StageOrder

namespace DocQuery.Proofs

open Sql

def aggregateOf : Derivation .aggregate → Aggregate
  | .count .. => .countAll
  | .call f _ _ (.identifier c) _ => .call f c

/-- The aggregates that a statement and the subqueries in it are written to be ordered by. The trees
have only their aliases, which may also be names of columns. -/
def orderAggregates : {p : Part} → Derivation p → List Aggregate
  | _, .query _ _ _ tables condition _ having order _ _ =>
    orderAggregates tables ++ orderAggregates condition ++ orderAggregates having ++
      orderAggregates order
  | _, .subquery _ _ _ tables condition _ having order _ =>
    orderAggregates tables ++ orderAggregates condition ++ orderAggregates having ++
      orderAggregates order
  | _, .join _ _ _ _ on => orderAggregates on
  | _, .moreTables tables _ _ => orderAggregates tables
  | _, .clause _ _ body => orderAggregates body
  | _, .term c => orderAggregates c
  | _, .both l _ r => orderAggregates l ++ orderAggregates r
  | _, .either l _ r => orderAggregates l ++ orderAggregates r
  | _, .comparison c => orderAggregates c
  | _, .inQuery _ _ _ q _ => orderAggregates q
  | _, .byClause _ _ _ items => orderAggregates items
  | _, .one _ x => orderAggregates x
  | _, .more _ xs _ x => orderAggregates xs ++ orderAggregates x
  | _, .orderAggregate a => [aggregateOf a]
  | _, .orderAggregateBy _ a _ => [aggregateOf a]
  | _, _ => []

/-- A written aggregate has a name that was read, and is ordered by under its alias. -/
theorem aggregate_written (d : Derivation .aggregate) (hs : ∀ l ∈ d.yield, Spelled l) :
    NamedItem (.aggregate (aggregateOf d)) ∧ orderedBy d.value = .text (aggregateOf d).alias := by
  obtain ⟨hnamed, hvalue⟩ :
      NamedItem (.aggregate (aggregateOf d)) ∧ d.value = (aggregateOf d).toValue := by
    cases d with
    | count f l c r =>
      cases f with
      | keyword _ w =>
        have hword : Spelled (.keyword .count w) :=
          hs _ (List.mem_append_left _ (List.mem_singleton_self _))
        cases c with
        | symbol =>
          refine ⟨nofun, ?_⟩
          change Value.aggregate (Text.upper w) (.text "*") = _
          rw [upper_spelled hword]
          rfl
    | call g f l c r =>
      cases f with
      | keyword _ w =>
        have hword : Spelled (.keyword g.keyword w) :=
          hs _ (List.mem_append_left _ (List.mem_singleton_self _))
        cases c with
        | identifier c =>
          have hname : Spelled (.identifier c) := hs _ (List.mem_append_right _
            (List.mem_append_right _ (List.mem_append_left _ (List.mem_singleton_self _))))
          refine ⟨?_, ?_⟩
          · intro _ _ he
            cases he
            exact hname
          · change Value.aggregate (Text.upper w) (.text c) = _
            rw [upper_spelled hword]
            rfl
  exact ⟨hnamed, hvalue ▸ ordered_by_alias hnamed⟩

/-- An order item with an aggregate has the alias of it. -/
theorem order_item_written (d : Derivation .orderItem) (hs : ∀ l ∈ d.yield, Spelled l) :
    ∀ a ∈ orderAggregates d, NamedItem (.aggregate a) ∧
      ∃ direction, d.value = .orderItem (.text a.alias) direction := by
  intro a ha
  cases d with
  | orderColumn x => cases ha
  | orderColumnBy _ x w => cases ha
  | orderAggregate x =>
    obtain rfl := List.mem_singleton.mp ha
    obtain ⟨hnamed, halias⟩ := aggregate_written x hs
    exact ⟨hnamed, "ASC", congrArg (Value.orderItem · "ASC") halias⟩
  | orderAggregateBy _ x w =>
    obtain rfl := List.mem_singleton.mp ha
    obtain ⟨hnamed, halias⟩ := aggregate_written x fun l hl => hs l (List.mem_append_left _ hl)
    exact ⟨hnamed, _, congrArg (Value.orderItem · _) halias⟩

theorem order_items_written : (d : Derivation (.list .orderItems)) → (∀ l ∈ d.yield, Spelled l) →
    ∃ vs, d.value = .list vs ∧ ∀ a ∈ orderAggregates d, NamedItem (.aggregate a) ∧
      ∃ direction, .orderItem (.text a.alias) direction ∈ vs
  | .one _ x, hs => by
    refine ⟨[x.value], rfl, fun a ha => ?_⟩
    obtain ⟨hnamed, direction, hvalue⟩ := order_item_written x hs a ha
    exact ⟨hnamed, direction, List.mem_singleton.mpr hvalue.symm⟩
  | .more _ xs c x, hs => by
    have hxs : ∀ l ∈ xs.yield, Spelled l := fun l hl => hs l (List.mem_append_left _ hl)
    have hx : ∀ l ∈ x.yield, Spelled l := fun l hl =>
      hs l (List.mem_append_right _ (List.mem_append_right _ hl))
    obtain ⟨vs, hvs, hall⟩ := order_items_written xs hxs
    refine ⟨vs ++ [x.value], ?_, fun a ha => ?_⟩
    · exact congrArg (appended · x.value) hvs
    · rcases List.mem_append.mp ha with ha | ha
      · obtain ⟨hnamed, direction, hmem⟩ := hall a ha
        exact ⟨hnamed, direction, List.mem_append_left _ hmem⟩
      · obtain ⟨hnamed, direction, hvalue⟩ := order_item_written x hx a ha
        exact ⟨hnamed, direction, List.mem_append_right _ (List.mem_singleton.mpr hvalue.symm)⟩

section

variable {columns tables condition groupBy having orderBy limit : Value} {q : Query}

theorem select_value_clauses
    (h : selectValue columns tables condition groupBy having orderBy limit = q.toValue) :
    condition = optionalCondition q.condition? ∧ having = optionalCondition q.having? ∧
      orderBy = .list (q.orderBy.map OrderItem.toValue) := by
  cases q
  unfold selectValue at h
  have hparts := Value.select.inj h
  exact ⟨congrArg SelectOf.condition hparts, congrArg SelectOf.having hparts,
    congrArg SelectOf.orderBy hparts⟩

theorem select_value_listed {vs : List Value} (hvs : 2 ≤ vs.length)
    (h : selectValue columns (.list vs) condition groupBy having orderBy limit = q.toValue)
    (t : String) : q.source ≠ .table t := by
  intro hs
  cases q
  cases hs
  match vs with
  | _ :: _ :: _ => cases congrArg SelectOf.table (Value.select.inj h)

/-- A list of tables with a comma has two or more. -/
theorem more_tables_value : (d : Derivation .tableList) → (v : Value) →
    ∃ vs, tablesWith d.value v = .list vs ∧ 2 ≤ vs.length
  | .table _, _ => ⟨_, rfl, Nat.le_refl 2⟩
  | .join .., v => ⟨_, rfl, by simp⟩
  | .moreTables d _ x, v => by
    obtain ⟨vs, h, hlength⟩ := more_tables_value d x.value
    refine ⟨vs ++ [v], congrArg (tablesWith · v) h, ?_⟩
    rw [List.length_append]
    omega

/-- A statement on one table joins nothing. -/
theorem tables_order {t : String} (d : Derivation .tableList) (hs : q.source = .table t)
    (h : selectValue columns d.value condition groupBy having orderBy limit = q.toValue) :
    orderAggregates d = [] := by
  cases d with
  | table a => rfl
  | join a _ b _ on =>
    cases q
    cases hs
    cases congrArg SelectOf.joins (Value.select.inj h)
  | moreTables ts c x =>
    obtain ⟨vs, hvs, hlength⟩ := more_tables_value ts x.value
    have hvalue : (Derivation.moreTables ts c x).value = .list vs := hvs
    rw [hvalue] at h
    exact absurd hs (select_value_listed hlength h t)

end

/-- Only a subquery in a condition can be ordered. -/
theorem comparison_order (d : Derivation .comparison) (h : Command.hasSubquery d.value = false) :
    orderAggregates d = [] := by
  cases d with
  | inQuery c _ _ q _ => cases h
  | _ => rfl

theorem condition_order : (d : Derivation .condition) → Command.hasSubquery d.value = false →
    orderAggregates d = []
  | .term (.comparison c), h => comparison_order c h
  | .both l _ (.comparison c), h => by
    obtain ⟨hl, hr⟩ := Bool.or_eq_false_iff.mp h
    exact List.append_eq_nil_iff.mpr ⟨condition_order l hl, comparison_order c hr⟩
  | .either l _ (.comparison c), h => by
    obtain ⟨hl, hr⟩ := Bool.or_eq_false_iff.mp h
    exact List.append_eq_nil_iff.mpr ⟨condition_order l hl, comparison_order c hr⟩

theorem clause_order {c : Clause} (d : Derivation (.clause c))
    (h : Command.hasSubquery d.value = false) : orderAggregates d = [] := by
  cases d with
  | clause _ k body =>
    cases c with
    | condition => exact condition_order body h
    | having => exact condition_order body h
    | limit => cases body; rfl
  | noClause => rfl

theorem no_subquery_value {c? : Option Condition} (h : c?.any asksQuery = false) :
    Command.hasSubquery (optionalCondition c?) = false := by
  cases c? with
  | none => rfl
  | some c =>
    rw [optionalCondition, has_subquery_condition]
    exact h

/-- The aggregates that a statement is written to be ordered by are in its order under their
aliases. -/
theorem order_written {text : String} {line : Nat} {q : Query} {d : Derivation .query} {t : String}
    (hparse : Sql.parse text line = .ok q)
    (hd : d.yield = (scan text line).tokens.map (·.lexeme)) (hs : q.source = .table t)
    (hw : q.condition?.any asksQuery = false) (hh : q.having?.any asksQuery = false) :
    ∀ a ∈ orderAggregates d, NamedItem (.aggregate a) ∧ ∃ o ∈ q.orderBy, o.column = a.alias := by
  obtain ⟨e, he, hvalue⟩ := of_lexemes_sound (scan_spelled text line) (parse_read hparse)
  obtain rfl : d = e := derivation_unique (hd.trans he.symm)
  have hspelled : ∀ l ∈ d.yield, Spelled l := hd ▸ scan_spelled text line
  cases d with
  | query x y z ts w g h o n m =>
    obtain ⟨hcondition, hhaving, horder⟩ := select_value_clauses hvalue
    have hwhere := clause_order w (hcondition ▸ no_subquery_value hw)
    have hgroups := clause_order h (hhaving ▸ no_subquery_value hh)
    intro a ha
    change a ∈ orderAggregates ts ++ orderAggregates w ++ orderAggregates h ++
      orderAggregates o at ha
    rw [tables_order ts hs hvalue, hwhere, hgroups] at ha
    cases o with
    | noByClause => cases ha
    | byClause _ k b items =>
      have hitems : ∀ l ∈ items.yield, Spelled l := by
        intro l hl
        have hclause : l ∈ k.yield ++ (b.yield ++ items.yield) :=
          List.mem_append_right _ (List.mem_append_right _ hl)
        apply hspelled
        iterate 7 apply List.mem_append_right
        exact List.mem_append_left _ hclause
      obtain ⟨vs, hvs, hall⟩ := order_items_written items hitems
      obtain ⟨hnamed, direction, hmem⟩ := hall a ha
      rw [Value.list.inj (hvs.symm.trans horder)] at hmem
      obtain ⟨o, ho, heq⟩ := List.mem_map.mp hmem
      exact ⟨hnamed, o, ho, Value.text.inj (Value.orderItem.inj heq).1⟩

end DocQuery.Proofs
