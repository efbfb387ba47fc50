import DocQuery.Proofs.Accepted

namespace DocQuery.Proofs

open Sql Check
open Value (doc)

mutual
/-- The trees of a condition, with any notes on its subqueries. -/
inductive ConditionTree : Condition → Value → Prop where
  | compare : ConditionTree (.compare c r x) (Condition.compare c r x).toValue
  | aggregate : ConditionTree (.aggregate a r l) (Condition.aggregate a r l).toValue
  | between : ConditionTree (.between c low high) (Condition.between c low high).toValue
  | inList : ConditionTree (.inList c l ls) (Condition.inList c l ls).toValue
  | inQuery (hq : StatementTree q p) :
      ConditionTree (.inQuery c q) (.comparison c.toValue (.text "IN_SUBQUERY") (.select p))
  | connect (hl : ConditionTree l v) (hr : ConditionTree r w) :
      ConditionTree (.connect l o r) (.logical v (.text o) w)

/-- The trees of a condition that may be absent. -/
inductive ClauseTree : Option Condition → Value → Prop where
  | none : ClauseTree none .null
  | some (hc : ConditionTree c v) : ClauseTree (some c) v

/-- The trees of the join clause that a source may have. -/
inductive JoinTree : Source Condition → Value → Prop where
  | table : JoinTree (.table a) (.list [])
  | tables : JoinTree (.tables a b more) (.list [])
  | join (hc : ConditionTree c v) :
      JoinTree (.join a b c) (.list [doc [("table", .text b), ("condition", v)]])

/-- The trees of a statement, with any notes on it and on its subqueries. -/
inductive StatementTree : Query → SelectOf Value → Prop where
  | mk {q : Query} {p : SelectOf Value} (columns : p.columns = q.items.toValue)
      (table : p.table = sourceTable q.source) (joins : JoinTree q.source p.joins)
      (condition : ClauseTree q.condition? p.condition) (groupBy : p.groupBy = textList q.groupBy)
      (having : ClauseTree q.having? p.having)
      (orderBy : p.orderBy = .list (q.orderBy.map OrderItem.toValue))
      (limit : p.limit = optionalNumber q.limit?) (offset : p.offset = .null) : StatementTree q p
end

mutual
theorem condition_tree (c : Condition) : ConditionTree c c.toValue := by
  match c with
  | .compare .. => exact .compare
  | .aggregate .. => exact .aggregate
  | .between .. => exact .between
  | .inList .. => exact .inList
  | .inQuery c q =>
    obtain ⟨p, hp, hq⟩ := statement_tree q
    rw [Condition.toValue, hp]
    exact .inQuery hq
  | .connect l w r =>
    rw [Condition.toValue]
    exact .connect (condition_tree l) (condition_tree r)

theorem clause_tree (c? : Option Condition) : ClauseTree c? (optionalCondition c?) := by
  match c? with
  | none => exact .none
  | some c => exact .some (condition_tree c)

theorem join_tree (s : Source Condition) : JoinTree s (sourceJoins s) := by
  match s with
  | .table a => exact .table
  | .tables a b more => exact .tables
  | .join a b c => exact .join (condition_tree c)

theorem statement_tree (q : Query) :
    ∃ p, statementValue q = .select p ∧ StatementTree q p := by
  match q with
  | ⟨items, source, condition?, groupBy, having?, orderBy, limit?⟩ =>
    rw [statementValue]
    exact ⟨_, rfl, rfl, rfl, join_tree source, clause_tree condition?, rfl, clause_tree having?,
      rfl, rfl, rfl⟩
end

/-- The parts of the tree of a statement, without notes. -/
def partsOf (q : Query) : SelectOf Value where
  columns := q.items.toValue
  table := sourceTable q.source
  joins := sourceJoins q.source
  condition := optionalCondition q.condition?
  groupBy := textList q.groupBy
  having := optionalCondition q.having?
  orderBy := .list (q.orderBy.map OrderItem.toValue)
  limit := optionalNumber q.limit?
  offset := .null
  join? := none
  filter? := none
  resolved? := none

theorem statement_parts (q : Query) : q.toValue = .select (partsOf q) := by
  obtain ⟨items, source, condition?, groupBy, having?, orderBy, limit?⟩ := q
  rw [Statement.toValue, statementValue]
  rfl

/-- Notes may be exchanged. -/
theorem StatementTree.noted {q : Query} {p : SelectOf Value} (h : StatementTree q p)
    (join? filter? resolved? : Option Value) :
    StatementTree q { p with join? := join?, filter? := filter?, resolved? := resolved? } := by
  obtain ⟨columns, table, joins, condition, groupBy, having, orderBy, limit, offset⟩ := h
  exact ⟨columns, table, joins, condition, groupBy, having, orderBy, limit, offset⟩

theorem and_then_tree {α : Type} {P : α → Prop} {c : Checked α} {next : α → Checked α}
    (hc : P c.tree) (hnext : ∀ a, P a → P (next a).tree) : P (c.andThen next).tree := by
  unfold Checked.andThen
  split
  · exact hnext _ hc
  · exact hc

/-- A check of statements leaves a tree of the same statement. -/
def Annotates (subquery : Value → Checked Value) : Prop :=
  ∀ {q : Query} {p : SelectOf Value}, StatementTree q p →
    ∃ p', (subquery (.select p)).tree = .select p' ∧ StatementTree q p'

section

variable {schema : Value} {subquery : Value → Checked Value} (hsub : Annotates subquery)

include hsub

theorem check_condition_tree (tables : List Value) {c : Condition} {v : Value}
    (h : ConditionTree c v) :
    ConditionTree c (checkCondition schema subquery tables v).tree := by
  cases h with
  | compare =>
    simp only [Condition.toValue, checkCondition, checkComparison, relation_not_subquery]
    exact condition_tree (.compare _ _ _)
  | aggregate =>
    simp only [Condition.toValue, checkCondition, checkComparison, relation_not_subquery]
    exact condition_tree (.aggregate _ _ _)
  | between =>
    simp only [Condition.toValue, checkCondition, checkComparison, isSubquery, same_text]
    exact condition_tree (.between _ _ _)
  | inList =>
    simp only [Condition.toValue, checkCondition, checkComparison, isSubquery, same_text]
    exact condition_tree (.inList _ _ _)
  | @inQuery q p c hq =>
    obtain ⟨p', hp, hq'⟩ := hsub hq
    have htree : (checkCondition schema subquery tables
        (.comparison c.toValue (.text "IN_SUBQUERY") (.select p))).tree =
          .comparison c.toValue (.text "IN_SUBQUERY") (subquery (.select p)).tree := rfl
    rw [htree, hp]
    exact .inQuery hq'
  | connect hl hr =>
    rw [checkCondition]
    have hl' := check_condition_tree tables hl
    have hr' := check_condition_tree tables hr
    split
    · exact .connect hl' hr
    · exact .connect hl' hr'

theorem check_joins_tree {q : Query} {p : SelectOf Value} (h : StatementTree q p) :
    StatementTree q (checkJoins schema subquery p).tree := by
  obtain ⟨columns, table, joins, condition, groupBy, having, orderBy, limit, offset⟩ := h
  generalize hj : p.joins = js at joins
  generalize hs : q.source = source at joins
  cases joins with
  | table =>
    simp only [checkJoins, hj, checkClauses, Checked.map, Checked.accept]
    exact ⟨columns, table, hs ▸ .table, condition, groupBy, having, orderBy, limit, offset⟩
  | tables =>
    simp only [checkJoins, hj, checkClauses, Checked.map, Checked.accept]
    exact ⟨columns, table, hs ▸ .tables, condition, groupBy, having, orderBy, limit, offset⟩
  | @join c v a b hc =>
    let checked := checkCondition schema subquery (tablesOf p.table ++ [.text b]) v
    have hc' : ConditionTree c checked.tree := check_condition_tree hsub _ hc
    have htree : (checkJoins schema subquery p).tree =
        { p with joins := .list [doc [("table", .text b), ("condition", checked.tree)]] } := by
      have htable : (doc [("table", .text b), ("condition", v)]).entry "table" =
        .ok (.text b) := rfl
      have hcondition : (doc [("table", .text b), ("condition", v)]).entry "condition" =
        .ok v := rfl
      simp only [checkJoins, hj, checkClauses, htable, hcondition, Checked.map]
      split <;> rfl
    rw [htree]
    exact ⟨columns, table, hs ▸ .join hc', condition, groupBy, having, orderBy, limit, offset⟩

theorem check_clause_tree (tables : List Value) {c? : Option Condition} {v : Value}
    (h : ClauseTree c? v) (hv : v.present = true) :
    ClauseTree c? (checkCondition schema subquery tables v).tree := by
  cases h with
  | none => cases hv
  | some hc => exact .some (check_condition_tree hsub tables hc)

theorem check_where_tree {q : Query} {p : SelectOf Value} (h : StatementTree q p) :
    StatementTree q (checkWhere schema subquery p).tree := by
  unfold checkWhere
  split
  · rename_i hv
    split
    · exact h
    · obtain ⟨columns, table, joins, condition, groupBy, having, orderBy, limit, offset⟩ := h
      exact ⟨columns, table, joins, check_clause_tree hsub _ condition hv, groupBy, having,
        orderBy, limit, offset⟩
  · split
    · exact h
    · exact h

theorem check_having_tree {q : Query} {p : SelectOf Value} (h : StatementTree q p) :
    StatementTree q (checkHaving schema subquery p).tree := by
  unfold checkHaving
  split
  · rename_i hv
    split
    · split
      · exact h
      · obtain ⟨columns, table, joins, condition, groupBy, having, orderBy, limit, offset⟩ := h
        exact ⟨columns, table, joins, condition, groupBy, check_clause_tree hsub _ having hv,
          orderBy, limit, offset⟩
    · exact h
  · exact h

end

theorem check_selected_tree (schema : Value) {q : Query} {p : SelectOf Value}
    (h : StatementTree q p) : StatementTree q (checkSelected schema p).tree := by
  obtain ⟨r, hr⟩ := check_selected_resolved schema p
  rw [hr]
  exact h.noted _ _ r

theorem note_join_tree {q : Query} {p : SelectOf Value} (h : StatementTree q p) :
    StatementTree q (noteJoin p).tree := by
  simp only [noteJoin]
  split
  · split
    · exact h.noted _ _ _
    · exact h.noted _ _ _
    · split
      · exact h.noted _ _ _
      · exact h.noted _ _ _
  · exact h.noted _ _ _

theorem check_select_tree (schema : Value) {subquery : Value → Checked Value}
    (hsub : Annotates subquery) {q : Query} {p : SelectOf Value} (h : StatementTree q p) :
    StatementTree q (checkSelect schema subquery p).tree := by
  unfold checkSelect
  refine and_then_tree ?_ (fun _ h => h)
  refine and_then_tree ?_ (fun _ => check_having_tree hsub)
  refine and_then_tree ?_ (fun _ => note_join_tree)
  refine and_then_tree ?_ (fun _ => check_where_tree hsub)
  refine and_then_tree ?_ (fun _ => check_joins_tree hsub)
  exact and_then_tree h (fun _ => check_selected_tree schema)

/-- Checking only annotates, to any depth. -/
theorem check_nested_tree (schema : Value) (depth : Nat) : Annotates (checkNested schema depth) := by
  induction depth with
  | zero =>
    intro q p h
    exact ⟨p, rfl, h⟩
  | succ depth ih =>
    intro q p h
    exact ⟨_, rfl, check_select_tree schema ih h⟩

/-- What is left of a statement is a tree of it, whether it is accepted or not. -/
theorem check_leaves_tree (schema : Value) (q : Query) :
    ∃ p, (Check.check schema q.toValue).tree = .select p ∧ StatementTree q p := by
  obtain ⟨p, hp, hq⟩ := statement_tree q
  rw [Check.check, Statement.toValue, hp]
  exact check_nested_tree schema _ hq

/-- Two conditions or join clauses that no translation tells apart: they differ inside subqueries,
of which only the columns and the table are read, and in connectives that mean the same. -/
inductive Twins : Value → Value → Prop where
  | same : Twins v v
  | select (columns : p.columns = p'.columns) (table : p.table = p'.table) :
      Twins (.select p) (.select p')
  | subquery (h : Twins v w) : Twins (.comparison i (.text "IN_SUBQUERY") v)
      (.comparison i (.text "IN_SUBQUERY") w)
  | logical (hl : Twins l l') (ho : Command.connectiveOf o = Command.connectiveOf o')
      (hr : Twins r r') : Twins (.logical l o r) (.logical l' o' r')
  | join (h : Twins v w) : Twins (.list [doc [("table", t), ("condition", v)]])
      (.list [doc [("table", t), ("condition", w)]])

theorem condition_twins {c : Condition} {v w : Value} (hv : ConditionTree c v)
    (hw : ConditionTree c w) : Twins v w := by
  match hv, hw with
  | .compare, .compare => exact .same
  | .aggregate, .aggregate => exact .same
  | .between, .between => exact .same
  | .inList, .inList => exact .same
  | .inQuery ⟨columns, table, _, _, _, _, _, _, _⟩,
      .inQuery ⟨columns', table', _, _, _, _, _, _, _⟩ =>
    exact .subquery (.select (columns.trans columns'.symm) (table.trans table'.symm))
  | .connect hl hr, .connect hl' hr' =>
    exact .logical (condition_twins hl hl') rfl (condition_twins hr hr')

theorem tree_present {c : Condition} {v : Value} (h : ConditionTree c v) : v.present = true := by
  cases h <;> simp [Condition.toValue, Value.present]

namespace Twins

variable {v w : Value} (h : Twins v w)

include h

theorem present_eq : v.present = w.present := by
  cases h <;> rfl

/-- Twins have one filter: a subquery has none. -/
theorem filter_eq (base? : Option Value) : Command.filter base? v = Command.filter base? w := by
  induction h with
  | same => rfl
  | select => rfl
  | subquery => rfl
  | logical _ ho _ hl hr => simp only [Command.filter, hl, hr, ho]
  | join => rfl

theorem has_subquery_eq : Command.hasSubquery v = Command.hasSubquery w := by
  induction h with
  | same => rfl
  | select => rfl
  | subquery => rfl
  | logical _ _ _ hl hr => simp only [Command.hasSubquery, hl, hr]
  | join => rfl

/-- The parts of twins: the same join, and parts with the same filters. -/
theorem split_eq (base? : Option Value) :
    (Command.splitConditions v).1 = (Command.splitConditions w).1 ∧
      (Command.splitConditions v).2.map (Command.filter base?) =
        (Command.splitConditions w).2.map (Command.filter base?) := by
  induction h with
  | same => exact ⟨rfl, rfl⟩
  | select => exact ⟨rfl, rfl⟩
  | subquery hv => cases hv <;> exact ⟨rfl, rfl⟩
  | logical _ _ _ hl hr =>
    obtain ⟨hjl, hfl⟩ := hl
    obtain ⟨hjr, hfr⟩ := hr
    simp [Command.splitConditions, hjl, hjr, hfl, hfr]
  | join => exact ⟨rfl, rfl⟩

end Twins

theorem conjunction_map {base? : Option Value} {cs ds : List Value}
    (h : cs.map (Command.filter base?) = ds.map (Command.filter base?)) :
    Command.conjunction base? cs = Command.conjunction base? ds := by
  match cs, ds with
  | [], [] => rfl
  | [c], [d] =>
    obtain ⟨hf, -⟩ := List.cons.inj h
    simp only [Command.conjunction, hf]
  | c :: c' :: cs, d :: d' :: ds =>
    have hall : (c :: c' :: cs).mapM (Command.filter base?) =
        (d :: d' :: ds).mapM (Command.filter base?) := by
      have := congrArg (List.mapM id) h
      simpa only [List.mapM_map, Function.id_comp] using this
    simp only [Command.conjunction, hall]
  | [], d :: ds => cases h
  | c :: cs, [] => cases h
  | [c], d :: d' :: ds => simp at h
  | c :: c' :: cs, [d] => simp at h

/-- Two statements that differ only in twins and in notes. -/
structure TwinStatements (p p' : SelectOf Value) : Prop where
  columns : p.columns = p'.columns
  table : p.table = p'.table
  joins : Twins p.joins p'.joins
  condition : Twins p.condition p'.condition
  groupBy : p.groupBy = p'.groupBy
  having : Twins p.having p'.having
  orderBy : p.orderBy = p'.orderBy
  limit : p.limit = p'.limit

theorem clause_twins {c? : Option Condition} {v w : Value} (hv : ClauseTree c? v)
    (hw : ClauseTree c? w) : Twins v w := by
  cases hv with
  | none =>
    cases hw
    exact .same
  | some hv =>
    cases hw with
    | some hw => exact condition_twins hv hw

theorem join_twins {s : Source Condition} {v w : Value} (hv : JoinTree s v) (hw : JoinTree s w) :
    Twins v w := by
  cases hv with
  | table =>
    cases hw
    exact .same
  | tables =>
    cases hw
    exact .same
  | join hv =>
    cases hw with
    | join hw => exact .join (condition_twins hv hw)

/-- The trees of one statement differ only in notes. -/
theorem statement_twins {q : Query} {p p' : SelectOf Value} (hp : StatementTree q p)
    (hp' : StatementTree q p') : TwinStatements p p' := by
  obtain ⟨columns, table, joins, condition, groupBy, having, orderBy, limit, -⟩ := hp
  obtain ⟨columns', table', joins', condition', groupBy', having', orderBy', limit', -⟩ := hp'
  exact ⟨columns.trans columns'.symm, table.trans table'.symm, join_twins joins joins',
    clause_twins condition condition', groupBy.trans groupBy'.symm, clause_twins having having',
    orderBy.trans orderBy'.symm, limit.trans limit'.symm⟩

namespace TwinStatements

variable {p p' : SelectOf Value} (h : TwinStatements p p')

include h

theorem subquery_command_eq : Command.subqueryCommand p = Command.subqueryCommand p' := by
  have hcondition := h.condition
  simp only [Command.subqueryCommand, h.columns, h.table]
  generalize p.condition = v at hcondition
  generalize p'.condition = w at hcondition
  cases hcondition with
  | subquery hv =>
    cases hv with
    | select columns table =>
      simp only [Value.asComparison, Value.asSelect, ok_bind, columns, table]
    | _ => rfl
  | _ => rfl

theorem clause_join_eq (base? : Option Value) :
    Command.clauseJoin base? p = Command.clauseJoin base? p' := by
  have hjoins := h.joins
  simp only [Command.clauseJoin, h.columns, h.table, h.condition.present_eq,
    h.condition.filter_eq]
  generalize p.joins = js at hjoins
  generalize p'.joins = js' at hjoins
  generalize p'.table = base
  cases hjoins with
  | join hv =>
    cases hv with
    | subquery hv => cases hv <;> rfl
    | _ => rfl
  | _ => rfl

theorem comma_join_eq (base? schema? : Option Value) :
    Command.commaJoin base? schema? p = Command.commaJoin base? schema? p' := by
  obtain ⟨hjoin, hfilters⟩ := h.condition.split_eq base?
  have hall := conjunction_map hfilters
  simp only [Command.commaJoin, h.columns, h.table]
  generalize Command.splitConditions p.condition = parts at hjoin hall
  generalize Command.splitConditions p'.condition = parts' at hjoin hall
  obtain ⟨j, fs⟩ := parts
  obtain ⟨j', fs'⟩ := parts'
  obtain rfl : j = j' := hjoin
  simp only at hall
  cases j with
  | none => rfl
  | some j => cases j <;> simp only [hall]

theorem group_command_eq (base? : Option Value) :
    Command.groupCommand base? p = Command.groupCommand base? p' := by
  simp only [Command.groupCommand, h.columns, h.table, h.groupBy, h.orderBy, h.limit,
    h.condition.present_eq, h.condition.filter_eq, h.having.present_eq, h.having.filter_eq]

theorem find_command_eq (base? : Option Value) :
    Command.findCommand base? p = Command.findCommand base? p' := by
  simp only [Command.findCommand, Command.filterOf, h.columns, h.table, h.orderBy, h.limit,
    h.condition.present_eq, h.condition.filter_eq]

/-- Statements that differ only in twins and in notes have one command. -/
theorem of_select_eq (schema? : Option Value) :
    Command.ofSelect schema? p = Command.ofSelect schema? p' := by
  simp only [Command.ofSelect, h.columns, h.table, h.groupBy, h.condition.present_eq,
    h.condition.has_subquery_eq, h.joins.present_eq, h.subquery_command_eq, h.clause_join_eq,
    h.comma_join_eq, h.group_command_eq, h.find_command_eq]

end TwinStatements

/-- Trees that differ only in their notes have one command. -/
theorem translate_trees {q : Query} {p p' : SelectOf Value} (hp : StatementTree q p)
    (hp' : StatementTree q p') (schema? : Option Value) :
    Command.ofSelect schema? p = Command.ofSelect schema? p' :=
  (statement_twins hp hp').of_select_eq schema?

/-- The command of a checked statement is that of the statement as it was parsed. -/
theorem translate_checked {schema tree : Value} {q : Query}
    (h : Pipeline.check schema q.toValue = .ok tree) :
    Command.translate tree = Command.translate q.toValue := by
  simp only [Pipeline.check] at h
  split at h
  · cases h
    obtain ⟨p, hp, hq⟩ := check_leaves_tree schema q
    obtain ⟨p', hp', hq'⟩ := statement_tree q
    rw [hp, Statement.toValue, hp']
    exact translate_trees hq hq' none
  · cases h

/-- The stages up to a command: a parsed statement, accepted, and its command. -/
theorem command_stages {schema command : Value} {sql : String} {line : Nat}
    (h : Pipeline.command schema sql line = .ok command) :
    ∃ q, Sql.parse sql line = .ok q ∧ (Check.check schema q.toValue).outcome = .ok () ∧
      Command.translate q.toValue = .ok command := by
  simp only [Pipeline.command, bind_ok] at h
  obtain ⟨value, hparse, tree, hcheck, htranslate⟩ := h
  simp only [Pipeline.parse] at hparse
  split at hparse
  · rename_i q hq
    cases hparse
    refine ⟨q, hq, ?_, ?_⟩
    · simp only [Pipeline.check] at hcheck
      split at hcheck
      · rename_i hok
        exact hok
      · cases hcheck
    · rw [← translate_checked hcheck]
      exact map_error_ok.mp htranslate
  · cases hparse

/-- An accepted statement that has a command has it in the pipeline. -/
theorem command_accepted {schema command : Value} {sql : String} {line : Nat} {q : Query}
    (hparse : Sql.parse sql line = .ok q)
    (hcheck : (Check.check schema q.toValue).outcome = .ok ())
    (htranslate : Command.translate q.toValue = .ok command) :
    Pipeline.command schema sql line = .ok command := by
  have htree : Pipeline.check schema q.toValue = .ok (Check.check schema q.toValue).tree := by
    simp only [Pipeline.check, hcheck]
  simp only [Pipeline.command, Pipeline.parse, hparse, ok_bind, htree, Pipeline.translate,
    translate_checked htree, htranslate]
  rfl

end DocQuery.Proofs
