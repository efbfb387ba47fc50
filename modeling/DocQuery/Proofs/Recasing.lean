import DocQuery.Proofs.ExactReaders
import DocQuery.Proofs.Rendering
import DocQuery.Proofs.Rewording
import DocQuery.Proofs.Verdicts

namespace DocQuery.Proofs

open Sql Check
open Value (doc)

/-- Two words for one connective, in any letter case. -/
def SameConnective (w w' : String) : Prop :=
  (Text.upper w = "AND" ∨ Text.upper w = "OR") ∧ Text.upper w' = Text.upper w

/-- Trees, checked or not, that are equal up to the letter case of connectives. -/
inductive Recased : Value → Value → Prop where
  | same : Recased v v
  | logical (hl : Recased l l') (hw : SameConnective w w') (hr : Recased r r') :
      Recased (.logical l (.text w) r) (.logical l' (.text w') r')
  | subquery (h : Recased v v') : Recased (.comparison i (.text "IN_SUBQUERY") v)
      (.comparison i (.text "IN_SUBQUERY") v')
  | join (h : Recased v v') : Recased (.list [doc [("table", t), ("condition", v)]])
      (.list [doc [("table", t), ("condition", v')]])
  | select (columns : p.columns = p'.columns) (table : p.table = p'.table)
      (joins : Recased p.joins p'.joins) (condition : Recased p.condition p'.condition)
      (groupBy : p.groupBy = p'.groupBy) (having : Recased p.having p'.having)
      (orderBy : p.orderBy = p'.orderBy) (limit : p.limit = p'.limit)
      (offset : p.offset = p'.offset) (join : p.join? = p'.join?)
      (filtered : p.filter?.isSome = p'.filter?.isSome)
      (filter : Recased (p.filter?.getD .null) (p'.filter?.getD .null))
      (resolved : p.resolved? = p'.resolved?) : Recased (.select p) (.select p')

/-- The parts of statements that are equal up to the letter case of connectives. -/
structure RecasedParts (p p' : SelectOf Value) : Prop where
  columns : p.columns = p'.columns
  table : p.table = p'.table
  joins : Recased p.joins p'.joins
  condition : Recased p.condition p'.condition
  groupBy : p.groupBy = p'.groupBy
  having : Recased p.having p'.having
  orderBy : p.orderBy = p'.orderBy
  limit : p.limit = p'.limit
  offset : p.offset = p'.offset
  join : p.join? = p'.join?
  filtered : p.filter?.isSome = p'.filter?.isSome
  filter : Recased (p.filter?.getD .null) (p'.filter?.getD .null)
  resolved : p.resolved? = p'.resolved?

theorem recased_select {p p' : SelectOf Value} :
    Recased (.select p) (.select p') ↔ RecasedParts p p' := by
  constructor
  · intro h
    cases h with
    | same => exact ⟨rfl, rfl, .same, .same, rfl, .same, rfl, rfl, rfl, rfl, rfl, .same, rfl⟩
    | select columns table joins condition groupBy having orderBy limit offset join filtered filter
        resolved =>
      exact ⟨columns, table, joins, condition, groupBy, having, orderBy, limit, offset, join,
        filtered, filter, resolved⟩
  · intro h
    exact .select h.columns h.table h.joins h.condition h.groupBy h.having h.orderBy h.limit
      h.offset h.join h.filtered h.filter h.resolved

theorem note_depth (v? : Option Value) : Value.noteDepth v? = (v?.getD .null).depth := by
  cases v? <;> rfl

theorem select_depth (p : SelectOf Value) : (Value.select p).depth =
    [p.columns.depth, p.table.depth, p.joins.depth, p.condition.depth, p.groupBy.depth,
      p.having.depth, p.orderBy.depth, p.limit.depth, p.offset.depth, (p.join?.getD .null).depth,
      (p.filter?.getD .null).depth, (p.resolved?.getD .null).depth].foldl max 0 + 1 := by
  obtain ⟨_, _, _, _, _, _, _, _, _, join?, filter?, resolved?⟩ := p
  rw [Value.depth, Value.selectDepth, note_depth, note_depth, note_depth]

theorem Recased.depth_eq {v v' : Value} (h : Recased v v') : v.depth = v'.depth := by
  induction h with
  | same => rfl
  | logical _ _ _ hl hr => simp only [Value.depth, hl, hr]
  | subquery _ ih => simp only [Value.depth, ih]
  | join _ ih => simp only [doc, List.map, Value.depth, Value.depths, Value.entryDepths, ih]
  | select columns table _ _ groupBy _ orderBy limit offset join _ _ resolved hjoins hcondition
      hhaving hfilter =>
    rw [select_depth, select_depth, columns, table, groupBy, orderBy, limit, offset, join, resolved,
      hjoins, hcondition, hhaving, hfilter]

theorem Recased.present_eq {v v' : Value} (h : Recased v v') : v.present = v'.present := by
  cases h <;> rfl

/-- Both checks have one outcome, and leave trees that are related. -/
structure Alike {α : Type} (R : α → α → Prop) (c c' : Checked α) : Prop where
  outcome : c.outcome = c'.outcome
  tree : R c.tree c'.tree

theorem Alike.and_then {α : Type} {R : α → α → Prop} {c c' : Checked α}
    {next next' : α → Checked α} (hc : Alike R c c')
    (hnext : ∀ a a', R a a' → Alike R (next a) (next' a')) :
    Alike R (c.andThen next) (c'.andThen next') := by
  obtain ⟨houtcome, htree⟩ := hc
  simp only [Checked.andThen, houtcome]
  split
  · exact hnext _ _ htree
  · exact ⟨rfl, htree⟩

section

variable {schema : Value} {subquery : Value → Checked Value}
  (hsub : ∀ v v', Recased v v' → Alike Recased (subquery v) (subquery v'))

include hsub

theorem check_condition_recased (tables : List Value) {v v' : Value} (h : Recased v v') :
    Alike Recased (checkCondition schema subquery tables v)
      (checkCondition schema subquery tables v') := by
  induction h with
  | same => exact ⟨rfl, .same⟩
  | logical hl hw hr ihl ihr =>
    rw [checkCondition, checkCondition]
    obtain ⟨houtcome, htree⟩ := ihl
    simp only [houtcome]
    split
    · exact ⟨rfl, .logical htree hw hr⟩
    · exact ⟨ihr.outcome, .logical htree hw ihr.tree⟩
  | subquery h =>
    obtain ⟨houtcome, htree⟩ := hsub _ _ h
    exact ⟨houtcome, .subquery htree⟩
  | join h => exact ⟨rfl, .join h⟩
  | select columns table joins condition groupBy having orderBy limit offset join filtered filter
      resolved =>
    exact ⟨rfl, .select columns table joins condition groupBy having orderBy limit offset join
      filtered filter resolved⟩

end

section

variable {p p' : SelectOf Value} (h : RecasedParts p p')

include h

theorem recased_tables : allTables p = allTables p' := by
  have hjoins := h.joins
  simp only [allTables, h.table]
  generalize p.joins = js at hjoins
  generalize p'.joins = js' at hjoins
  cases hjoins <;> rfl

theorem recased_base : baseTable p = baseTable p' := by
  rw [baseTable, baseTable, recased_tables h]

theorem check_tables_recased (schema : Value) :
    checkTables schema p = checkTables schema p' := by
  rw [checkTables, checkTables, recased_tables h]

theorem check_groups_recased (schema : Value) :
    checkGroups schema p = checkGroups schema p' := by
  rw [checkGroups, checkGroups, h.groupBy, h.columns, recased_base h]

theorem check_selected_recased (schema : Value) :
    Alike RecasedParts (checkSelected schema p) (checkSelected schema p') := by
  obtain ⟨houtcome, r, hr, hr'⟩ :=
    check_selected_alike (recased_tables h) h.resolved h.columns schema
  exact ⟨houtcome, by rw [hr, hr']; exact { h with resolved := rfl }⟩

theorem check_joins_recased {schema : Value} {subquery : Value → Checked Value}
    (hsub : ∀ v v', Recased v v' → Alike Recased (subquery v) (subquery v')) :
    Alike RecasedParts (checkJoins schema subquery p) (checkJoins schema subquery p') := by
  have hjoins := h.joins
  have htables : tablesOf p.table = tablesOf p'.table := by rw [h.table]
  simp only [checkJoins, htables]
  generalize hjs : p.joins = js at hjoins
  generalize hjs' : p'.joins = js' at hjoins
  cases hjoins with
  | same =>
    split
    · exact ⟨rfl, { h with joins := .same }⟩
    · exact ⟨rfl, { h with joins := .same }⟩
    · exact ⟨rfl, h⟩
  | @join v v' t hv =>
    have htable : ∀ v, (doc [("table", t), ("condition", v)]).entry "table" = .ok t := fun _ => rfl
    have hcondition : ∀ v, (doc [("table", t), ("condition", v)]).entry "condition" = .ok v :=
      fun _ => rfl
    obtain ⟨houtcome, htree⟩ :=
      @check_condition_recased schema subquery hsub (tablesOf p'.table ++ [t]) v v' hv
    simp only [checkClauses, htable, hcondition, houtcome]
    split
    · exact ⟨rfl, { h with joins := .join htree }⟩
    · exact ⟨rfl, { h with joins := .join htree }⟩
  | logical => exact ⟨rfl, h⟩
  | subquery => exact ⟨rfl, h⟩
  | select => exact ⟨rfl, h⟩

theorem check_where_recased {schema : Value} {subquery : Value → Checked Value}
    (hsub : ∀ v v', Recased v v' → Alike Recased (subquery v) (subquery v')) :
    Alike RecasedParts (checkWhere schema subquery p) (checkWhere schema subquery p') := by
  have hpair : isPair p.table = isPair p'.table := by rw [h.table]
  simp only [checkWhere, h.condition.present_eq, recased_tables h, hpair]
  split
  · split
    · exact ⟨rfl, h⟩
    · rename_i tables _
      obtain ⟨houtcome, htree⟩ := @check_condition_recased schema _ hsub tables _ _ h.condition
      exact ⟨houtcome, { h with condition := htree }⟩
  · split
    · exact ⟨rfl, h⟩
    · exact ⟨rfl, h⟩

theorem check_having_recased {schema : Value} {subquery : Value → Checked Value}
    (hsub : ∀ v v', Recased v v' → Alike Recased (subquery v) (subquery v')) :
    Alike RecasedParts (checkHaving schema subquery p) (checkHaving schema subquery p') := by
  have hgrouped : p.groupBy.present = p'.groupBy.present := by rw [h.groupBy]
  simp only [checkHaving, h.having.present_eq, recased_tables h, hgrouped]
  split
  · split
    · split
      · exact ⟨rfl, h⟩
      · rename_i tables _
        obtain ⟨houtcome, htree⟩ := @check_condition_recased schema _ hsub tables _ _ h.having
        exact ⟨houtcome, { h with having := htree }⟩
    · exact ⟨rfl, h⟩
  · exact ⟨rfl, h⟩

end

/-- Two conditions that may be absent, both present or both not. -/
structure RecasedOptions (v? v'? : Option Value) : Prop where
  some : v?.isSome = v'?.isSome
  value : Recased (v?.getD .null) (v'?.getD .null)

theorem conjoin_recased {a a' b b' : Option Value} (ha : RecasedOptions a a')
    (hb : RecasedOptions b b') : RecasedOptions (conjoin a b) (conjoin a' b') := by
  have hand : SameConnective "AND" "AND" := ⟨.inl (@upper_spelled "AND" .andWord rfl), rfl⟩
  obtain ⟨hsome, ha⟩ := ha
  obtain ⟨hsome', hb⟩ := hb
  match a, a', b, b' with
  | none, none, none, none => exact ⟨rfl, .same⟩
  | none, none, some _, some _ => exact ⟨rfl, hb⟩
  | some _, some _, none, none => exact ⟨rfl, ha⟩
  | some _, some _, some _, some _ => exact ⟨rfl, .logical ha hand hb⟩

/-- One join is found in conditions that are equal up to letter case, or there is one fault. -/
theorem split_join_recased {v v' : Value} (h : Recased v v') :
    (∃ f, splitJoin v = .error f ∧ splitJoin v' = .error f) ∨
      ∃ join? rest? rest'?, splitJoin v = .ok (join?, rest?) ∧
        splitJoin v' = .ok (join?, rest'?) ∧ RecasedOptions rest? rest'? := by
  have hsame : ∀ v, (∃ f, splitJoin v = .error f ∧ splitJoin v = .error f) ∨
      ∃ join? rest? rest'?, splitJoin v = .ok (join?, rest?) ∧ splitJoin v = .ok (join?, rest'?) ∧
        RecasedOptions rest? rest'? := by
    intro v
    cases splitJoin v with
    | error f => exact .inl ⟨f, rfl, rfl⟩
    | ok found => exact .inr ⟨found.1, found.2, found.2, rfl, rfl, rfl, .same⟩
  induction h with
  | @same v => exact hsame v
  | logical _ _ _ ihl ihr =>
    rw [splitJoin, splitJoin]
    obtain ⟨f, hl, hl'⟩ | ⟨j, r, r', hl, hl', hr⟩ := ihl
    · rw [hl, hl']
      exact .inl ⟨f, rfl, rfl⟩
    · rw [hl, hl']
      obtain ⟨f, hl, hl'⟩ | ⟨k, s, s', hl, hl', hs⟩ := ihr
      · rw [hl, hl']
        exact .inl ⟨f, rfl, rfl⟩
      · rw [hl, hl']
        exact .inr ⟨_, _, _, rfl, rfl, conjoin_recased hr hs⟩
  | @subquery v v' i h =>
    have hnone : Check.columnOf v = .ok none → Check.columnOf v' = .ok none →
        (∃ f, splitJoin (.comparison i (.text "IN_SUBQUERY") v) = .error f ∧
          splitJoin (.comparison i (.text "IN_SUBQUERY") v') = .error f) ∨
        ∃ join? rest? rest'?,
          splitJoin (.comparison i (.text "IN_SUBQUERY") v) = .ok (join?, rest?) ∧
          splitJoin (.comparison i (.text "IN_SUBQUERY") v') = .ok (join?, rest'?) ∧
          RecasedOptions rest? rest'? := by
      intro hv hv'
      simp only [splitJoin, joinOf, hv, hv']
      cases Check.columnOf i with
      | error f => exact .inl ⟨f, rfl, rfl⟩
      | ok left =>
        cases left with
        | none => exact .inr ⟨none, _, _, rfl, rfl, rfl, .subquery h⟩
        | some left => exact .inr ⟨none, _, _, rfl, rfl, rfl, .subquery h⟩
    cases h with
    | same => exact hsame _
    | _ => exact hnone rfl rfl
  | join => exact .inr ⟨none, none, none, rfl, rfl, rfl, .same⟩
  | select => exact .inr ⟨none, none, none, rfl, rfl, rfl, .same⟩

theorem note_join_recased {p p' : SelectOf Value} (h : RecasedParts p p') :
    Alike RecasedParts (noteJoin p) (noteJoin p') := by
  have hnone : RecasedParts { p with join? := some .null, filter? := some .null }
      { p' with join? := some .null, filter? := some .null } :=
    { h with join := rfl, filtered := rfl, filter := .same }
  have hpairs : isPair p.table = isPair p'.table := by rw [h.table]
  simp only [noteJoin, hpairs]
  by_cases hpair : isPair p'.table = true
  · simp only [hpair, ↓reduceIte]
    obtain ⟨f, hf, hf'⟩ | ⟨join?, rest?, rest'?, hj, hj', hrest⟩ := split_join_recased h.condition
    · rw [hf, hf']
      exact ⟨rfl, hnone⟩
    · rw [hj, hj']
      cases join? with
      | none => exact ⟨rfl, hnone⟩
      | some c =>
        dsimp only
        cases joinOf c with
        | error f => exact ⟨rfl, hnone⟩
        | ok join? => exact ⟨rfl, { h with join := rfl, filtered := rfl, filter := hrest.value }⟩
  · simp only [hpair, Bool.false_eq_true, ↓reduceIte]
    exact ⟨rfl, hnone⟩

theorem check_select_recased (schema : Value) {subquery : Value → Checked Value}
    (hsub : ∀ v v', Recased v v' → Alike Recased (subquery v) (subquery v'))
    {p p' : SelectOf Value} (h : RecasedParts p p') :
    Alike RecasedParts (checkSelect schema subquery p) (checkSelect schema subquery p') := by
  unfold checkSelect
  refine .and_then ?_ fun _ _ h => ⟨check_groups_recased h schema, h⟩
  refine .and_then ?_ fun _ _ h => check_having_recased h hsub
  refine .and_then ?_ fun _ _ h => note_join_recased h
  refine .and_then ?_ fun _ _ h => check_where_recased h hsub
  refine .and_then ?_ fun _ _ h => check_joins_recased h hsub
  refine .and_then ?_ fun _ _ h => check_selected_recased h schema
  exact ⟨check_tables_recased h schema, h⟩

theorem check_nested_recased (schema : Value) (depth : Nat) {v v' : Value} (h : Recased v v') :
    Alike Recased (checkNested schema depth v) (checkNested schema depth v') := by
  have hreject : ∀ v, checkNested schema 0 v = .reject v (.notQuery v.kind) := by
    intro v
    rw [checkNested]
    rintro _ _ ⟨⟩
  induction depth generalizing v v' with
  | zero =>
    rw [hreject, hreject]
    refine ⟨?_, h⟩
    cases h <;> rfl
  | succ depth ih =>
    cases h with
    | same => exact ⟨rfl, .same⟩
    | logical hl hw hr => exact ⟨rfl, .logical hl hw hr⟩
    | subquery h => exact ⟨rfl, .subquery h⟩
    | join h => exact ⟨rfl, .join h⟩
    | @select p p' =>
      have hparts : RecasedParts p p' := by constructor <;> assumption
      obtain ⟨houtcome, htree⟩ := check_select_recased schema (fun _ _ => ih) hparts
      exact ⟨houtcome, recased_select.mpr htree⟩

/-- Trees that are equal up to letter case are checked alike. -/
theorem check_recased (schema : Value) {v v' : Value} (h : Recased v v') :
    Alike Recased (Check.check schema v) (Check.check schema v') := by
  rw [Check.check, Check.check, h.depth_eq]
  exact check_nested_recased schema _ h

/-- A connective is recognised in any letter case. -/
theorem same_connective {w w' : String} (h : SameConnective w w') :
    Command.connectiveOf (.text w) = Command.connectiveOf (.text w') := by
  obtain ⟨hw, hw'⟩ := h
  rcases hw with hw | hw
  · simp only [Command.connectiveOf, Value.asText, command_lift, ok_bind, hw', hw]
  · simp only [Command.connectiveOf, Value.asText, command_lift, ok_bind, hw', hw]

/-- No translation sees the letter case of connectives. -/
theorem Recased.twins {v v' : Value} (h : Recased v v') : Twins v v' := by
  induction h with
  | same => exact .same
  | logical _ hw _ hl hr => exact .logical hl (same_connective hw) hr
  | subquery _ ih => exact .subquery ih
  | join _ ih => exact .join ih
  | select columns table => exact .select columns table

theorem translate_recased {v v' : Value} (h : Recased v v') :
    Command.translate v = Command.translate v' := by
  cases h with
  | @select p p' columns table joins condition groupBy having orderBy limit =>
    have htwins : TwinStatements p p' :=
      ⟨columns, table, joins.twins, condition.twins, groupBy, having.twins, orderBy, limit⟩
    exact htwins.of_select_eq none
  | _ => rfl

/-- A condition that differs from another one only in the words of connectives. -/
theorem reword_subquery {f : String → String} {a : ColumnRef} {q : Query} {c : Condition}
    (h : rewordCondition f (.inQuery a q) = rewordCondition f c) :
    ∃ q', c = .inQuery a q' ∧ reword f q = reword f q' := by
  cases c with
  | inQuery a' q' =>
    simp only [rewordCondition, Condition.inQuery.injEq] at h
    exact ⟨q', by rw [h.1], h.2⟩
  | _ => simp [rewordCondition] at h

theorem reword_connect {f : String → String} {l r c : Condition} {w : String}
    (h : rewordCondition f (.connect l w r) = rewordCondition f c) :
    ∃ l' w' r', c = .connect l' w' r' ∧ rewordCondition f l = rewordCondition f l' ∧ f w = f w' ∧
      rewordCondition f r = rewordCondition f r' := by
  cases c with
  | connect l' w' r' =>
    simp only [rewordCondition, Condition.connect.injEq] at h
    exact ⟨l', w', r', rfl, h⟩
  | _ => simp [rewordCondition] at h

theorem reword_same {f : String → String} {c c' : Condition} (hc : rewordCondition f c = c)
    (hquery : ∀ a q, c ≠ .inQuery a q) (hconnect : ∀ l w r, c ≠ .connect l w r)
    (h : rewordCondition f c = rewordCondition f c') : c = c' := by
  rw [hc] at h
  subst h
  cases c' with
  | inQuery a q => exact absurd rfl (hquery a _)
  | connect l w r => exact absurd rfl (hconnect _ _ _)
  | _ => rfl

theorem connective_upper {w : String} (h : Writable (.keyword (connectiveOf w) w)) :
    Text.upper w = "AND" ∨ Text.upper w = "OR" := by
  have hupper := upper_spelled h
  unfold connectiveOf at hupper
  split at hupper
  · exact .inr hupper
  · exact .inl hupper

mutual
/-- Conditions that are equal in upper case are equal up to letter case, if the connectives are such
as a text can have. -/
theorem condition_recased (c c' : Condition) (hc : AllWritable (conditionLexemes c))
    (h : rewordCondition Text.upper c = rewordCondition Text.upper c') :
    Recased c.toValue c'.toValue := by
  match c with
  | .inQuery a q =>
    obtain ⟨q', rfl, hq⟩ := reword_subquery h
    simp only [conditionLexemes, all_writable_append] at hc
    rw [Condition.toValue, Condition.toValue]
    exact .subquery (statement_recased q q' hc.1.2 hq)
  | .connect l w r =>
    obtain ⟨l', w', r', rfl, hl, hw, hr⟩ := reword_connect h
    simp only [conditionLexemes, all_writable_append, all_writable_cons] at hc
    rw [Condition.toValue, Condition.toValue]
    exact .logical (condition_recased l l' hc.1 hl) ⟨connective_upper hc.2.1, hw.symm⟩
      (condition_recased r r' hc.2.2 hr)
  | .compare a r x =>
    obtain rfl := reword_same rfl (by simp) (by simp) h
    exact .same
  | .aggregate a r l =>
    obtain rfl := reword_same rfl (by simp) (by simp) h
    exact .same
  | .between a low high =>
    obtain rfl := reword_same rfl (by simp) (by simp) h
    exact .same
  | .inList a l ls =>
    obtain rfl := reword_same rfl (by simp) (by simp) h
    exact .same
termination_by structural c

theorem clause_recased (k : Keyword) (c? c'? : Option Condition)
    (hc : AllWritable (clauseLexemes k c?))
    (h : rewordClause Text.upper c? = rewordClause Text.upper c'?) :
    Recased (optionalCondition c?) (optionalCondition c'?) := by
  match c?, c'? with
  | none, none => exact .same
  | some c, some c' =>
    simp only [clauseLexemes, all_writable_cons] at hc
    rw [optionalCondition, optionalCondition]
    exact condition_recased c c' hc.2 (Option.some.inj h)
termination_by structural c?

theorem source_recased (s s' : Source Condition) (hs : AllWritable (sourceLexemes s))
    (h : rewordSource Text.upper s = rewordSource Text.upper s') :
    sourceTable s = sourceTable s' ∧ Recased (sourceJoins s) (sourceJoins s') := by
  match s, s' with
  | .table a, .table a' =>
    simp only [rewordSource, Source.table.injEq] at h
    subst h
    exact ⟨rfl, .same⟩
  | .tables a b more, .tables a' b' more' =>
    simp only [rewordSource, Source.tables.injEq] at h
    obtain ⟨rfl, rfl, rfl⟩ := h
    exact ⟨rfl, .same⟩
  | .join a b on, .join a' b' on' =>
    simp only [rewordSource, Source.join.injEq] at h
    obtain ⟨rfl, rfl, hon⟩ := h
    simp only [sourceLexemes, all_writable_append] at hs
    rw [sourceJoins, sourceJoins]
    exact ⟨rfl, .join (condition_recased on on' hs.2 hon)⟩
termination_by structural s

theorem statement_recased (q q' : Statement Condition) (hq : AllWritable (statementLexemes q))
    (h : reword Text.upper q = reword Text.upper q') :
    Recased (statementValue q) (statementValue q') := by
  match q, q' with
  | ⟨items, source, condition?, groupBy, having?, orderBy, limit?⟩,
      ⟨items', source', condition'?, groupBy', having'?, orderBy', limit'?⟩ =>
    simp only [reword, Statement.mk.injEq] at h
    obtain ⟨rfl, hsource, hcondition, rfl, hhaving, rfl, rfl⟩ := h
    have hparts := writable_parts hq
    obtain ⟨htable, hjoins⟩ := source_recased source source' hparts.source hsource
    rw [statementValue, statementValue]
    exact .select rfl htable hjoins
      (clause_recased .whereWord condition? condition'? hparts.condition hcondition) rfl
      (clause_recased .having having? having'? hparts.having hhaving) rfl rfl rfl rfl rfl .same rfl
termination_by structural q
end

end DocQuery.Proofs
