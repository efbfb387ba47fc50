import DocQuery.Proofs.Scope

namespace DocQuery.Proofs

open Sql Check
open Value (doc)

/-- The tables of a statement, as they are checked. -/
def tableValues (s : Source Condition) : List Value := (sourceNames s).map .text

/-- The comparison that joins two tables, if one is found. -/
def joinFound (v : Value) : Except Fault (Option Value) := (splitJoin v).map (·.1)

/-- Two tables without a join clause are joined by the condition. -/
def pairVerdict (p : SelectOf Value) : Except Check.Error Unit :=
  if isPair p.table then do
    if (← joinFound p.condition).isNone then .error .joinMissing
  else .ok ()

mutual
/-- The verdict on a condition about the given tables. -/
def conditionVerdict (schema : Value) (tables : List Value) : Condition → Except Check.Error Unit
  | .compare c r x => checkPlain schema tables c.toValue r.toValue x.toValue
  | .aggregate a r l => checkPlain schema tables a.toValue r.toValue l.toValue
  | .between c low high =>
    checkPlain schema tables (.text c) (.text "BETWEEN") (.tuple [low.toValue, high.toValue])
  | .inList c l ls =>
    checkPlain schema tables c.toValue (.text "IN") (.list ((l :: ls).map Literal.toValue))
  | .inQuery _ q => verdict schema q
  | .connect l _ r => do
    conditionVerdict schema tables l
    conditionVerdict schema tables r

def clauseVerdict (schema : Value) (tables : List Value) :
    Option Condition → Except Check.Error Unit
  | none => .ok ()
  | some c => conditionVerdict schema tables c

def joinVerdict (schema : Value) : Source Condition → Except Check.Error Unit
  | .join a b on => conditionVerdict schema [.text a, .text b] on
  | _ => .ok ()

/-- The verdict on a statement: its tables, what it selects, and then clause by clause. -/
def verdict (schema : Value) : Statement Condition → Except Check.Error Unit
  | ⟨items, source, condition?, groupBy, having?, orderBy, limit?⟩ => do
    let p := partsOf ⟨items, source, condition?, groupBy, having?, orderBy, limit?⟩
    checkTables schema p
    (checkSelected schema p).outcome
    joinVerdict schema source
    (if condition?.isNone && isPair p.table then .error .joinRequired
      else clauseVerdict schema (tableValues source) condition?)
    pairVerdict p
    (if having?.isSome && groupBy.isEmpty then .error .havingWithoutGroup
      else clauseVerdict schema (tableValues source) having?)
    checkGroups schema p
end

/-- A check of statements up to a depth gives their verdicts. -/
def Judges (schema : Value) (n : Nat) (subquery : Value → Checked Value) : Prop :=
  ∀ q : Query, q.toValue.depth < n → (subquery q.toValue).outcome = verdict schema q

section

variable {schema : Value} {n : Nat} {subquery : Value → Checked Value}
  (hsub : Judges schema n subquery)

include hsub

theorem check_condition_verdict (tables : List Value) (c : Condition)
    (hdepth : c.toValue.depth ≤ n) :
    (checkCondition schema subquery tables c.toValue).outcome =
      conditionVerdict schema tables c := by
  match c with
  | .compare c r x =>
    rw [Condition.toValue, conditionVerdict, checkCondition, checkComparison,
      relation_not_subquery]
    rfl
  | .aggregate a r l =>
    rw [Condition.toValue, conditionVerdict, checkCondition, checkComparison,
      relation_not_subquery]
    rfl
  | .between c low high => rfl
  | .inList c l ls => rfl
  | .inQuery c q =>
    rw [Condition.toValue] at hdepth ⊢
    rw [conditionVerdict]
    apply hsub q
    simp only [Value.depth] at hdepth
    change (statementValue q).depth < n
    omega
  | .connect l w r =>
    rw [Condition.toValue] at hdepth ⊢
    simp only [Value.depth] at hdepth
    have hl := check_condition_verdict tables l (by omega)
    have hr := check_condition_verdict tables r (by omega)
    rw [conditionVerdict, checkCondition, ← hl, ← hr]
    cases hleft : (checkCondition schema subquery tables l.toValue).outcome with
    | error e => rfl
    | ok => rfl

theorem check_clause_verdict (tables : List Value) (c? : Option Condition)
    (hdepth : (optionalCondition c?).depth ≤ n) (hpresent : (optionalCondition c?).present = true) :
    (checkCondition schema subquery tables (optionalCondition c?)).outcome =
      clauseVerdict schema tables c? := by
  cases c? with
  | none => cases hpresent
  | some c => exact check_condition_verdict hsub tables c hdepth

end

/-- The clauses of a statement are not as deep as the statement. -/
theorem clause_depths (q : Query) :
    (sourceJoins q.source).depth < q.toValue.depth ∧
      (optionalCondition q.condition?).depth < q.toValue.depth ∧
      (optionalCondition q.having?).depth < q.toValue.depth := by
  rw [statement_parts]
  simp only [partsOf, Value.depth, Value.selectDepth, List.foldl, Nat.lt_succ_iff, le_max_iff,
    Nat.le_refl, true_or, or_true, and_self]

theorem join_depth (a b : String) (on : Condition) :
    on.toValue.depth < (sourceJoins (.join a b on)).depth := by
  simp only [sourceJoins, doc, List.map, Value.depth, Value.depths, Value.entryDepths]
  omega

/-- The notes of a check are on the join conditions only. -/
theorem check_joins_only (schema : Value) (subquery : Value → Checked Value)
    (p : SelectOf Value) : ∃ js, (checkJoins schema subquery p).tree = { p with joins := js } := by
  unfold checkJoins
  split
  · exact ⟨_, rfl⟩
  · exact ⟨_, rfl⟩
  · exact ⟨p.joins, rfl⟩

theorem check_where_only (schema : Value) (subquery : Value → Checked Value)
    (p : SelectOf Value) :
    ∃ c, (checkWhere schema subquery p).tree = { p with condition := c } := by
  unfold checkWhere
  split
  · split
    · exact ⟨p.condition, rfl⟩
    · exact ⟨_, rfl⟩
  · split
    · exact ⟨p.condition, rfl⟩
    · exact ⟨p.condition, rfl⟩

theorem note_join_only (p : SelectOf Value) :
    ∃ join? filter?, (noteJoin p).tree = { p with join? := join?, filter? := filter? } := by
  simp only [noteJoin]
  split
  · split
    · exact ⟨_, _, rfl⟩
    · exact ⟨_, _, rfl⟩
    · split
      · exact ⟨_, _, rfl⟩
      · exact ⟨_, _, rfl⟩
  · exact ⟨_, _, rfl⟩

theorem check_having_only (schema : Value) (subquery : Value → Checked Value)
    (p : SelectOf Value) :
    ∃ c, (checkHaving schema subquery p).tree = { p with having := c } := by
  unfold checkHaving
  split
  · split
    · split
      · exact ⟨p.having, rfl⟩
      · exact ⟨_, rfl⟩
    · exact ⟨p.having, rfl⟩
  · exact ⟨p.having, rfl⟩

theorem pair_ok {p : SelectOf Value} : pairVerdict p = .ok () ↔
    (isPair p.table = true → (joinFound p.condition).map Option.isSome = .ok true) := by
  rw [pairVerdict]
  by_cases hpair : isPair p.table = true
  · rw [if_pos hpair]
    cases joinFound p.condition with
    | error f => simp [bind_ok, check_lift_ok, Except.map, hpair]
    | ok found => cases found <;> simp [bind_ok, check_lift_ok, Except.map, hpair]
  · simp [hpair]

theorem join_found_connected (l o r : Value) : joinFound (.logical l o r) = (do
    let left ← joinFound l
    let right ← joinFound r
    return left.or right) := by
  rw [joinFound, splitJoin, joinFound, joinFound]
  cases splitJoin l with
  | error f => rfl
  | ok x =>
    cases splitJoin r with
    | error f => rfl
    | ok y => rfl

/-- Notes on subqueries do not matter for the join. -/
theorem join_found_tree {c : Condition} {v : Value} (h : ConditionTree c v) :
    joinFound v = joinFound c.toValue := by
  cases h with
  | compare => rfl
  | aggregate => rfl
  | between => rfl
  | inList => rfl
  | @inQuery q p c hq =>
    obtain ⟨p', hp, -⟩ := statement_tree q
    rw [Condition.toValue, hp]
    rfl
  | connect hl hr =>
    rw [Condition.toValue, join_found_connected, join_found_connected, join_found_tree hl,
      join_found_tree hr]

/-- What is found is a join condition. -/
theorem join_of_found {v c : Value} (h : joinFound v = .ok (some c)) :
    ∃ j, joinOf c = .ok (some j) := by
  induction v using splitJoin.induct generalizing c with
  | case1 l o r hl hr =>
    rw [join_found_connected] at h
    obtain ⟨left, hleft, h⟩ := bind_ok.mp h
    obtain ⟨right, hright, h⟩ := bind_ok.mp h
    cases left with
    | some d =>
      cases h
      exact hl hleft
    | none =>
      cases h
      exact hr hright
  | case2 i o w =>
    rw [joinFound, splitJoin] at h
    cases hj : joinOf (.comparison i o w) with
    | error f =>
      rw [hj] at h
      cases h
    | ok j? =>
      rw [hj] at h
      cases j? with
      | none => cases h
      | some j =>
        cases h
        exact ⟨j, hj⟩
  | case3 v hlogical hcomparison =>
    rw [joinFound, splitJoin] at h
    · cases h
    · exact hlogical
    · exact hcomparison

theorem note_join_outcome (p : SelectOf Value) : (noteJoin p).outcome =
    if isPair p.table then do
      if (← joinFound p.condition).isNone then .error .joinMissing
    else .ok () := by
  simp only [noteJoin]
  by_cases hpair : isPair p.table = true
  · rw [if_pos hpair, if_pos hpair]
    cases hsplit : splitJoin p.condition with
    | error f => simp [joinFound, hsplit]; rfl
    | ok parts =>
      obtain ⟨found, rest⟩ := parts
      have hfound : joinFound p.condition = .ok found := by rw [joinFound, hsplit]; rfl
      rw [hfound]
      cases found with
      | none => rfl
      | some c =>
        obtain ⟨j, hj⟩ := join_of_found hfound
        simp only [hj]
        rfl
  · rw [if_neg hpair, if_neg hpair]
    rfl

/-- A check that leaves a tree with a property gives a verdict. -/
structure Leads {α : Type} (c : Checked α) (P : α → Prop) (x : Except Check.Error Unit) : Prop where
  tree : P c.tree
  outcome : c.outcome = x

theorem Leads.and_then {α : Type} {P Q : α → Prop} {c : Checked α} {next : α → Checked α}
    {x y : Except Check.Error Unit} (h : Leads c P x) (hkeeps : ∀ a, P a → Q a)
    (hnext : ∀ a, P a → Leads (next a) Q y) : Leads (c.andThen next) Q (do x; y) := by
  obtain ⟨htree, rfl⟩ := h
  rw [Checked.andThen]
  cases hc : c.outcome with
  | error e => exact ⟨hkeeps _ htree, rfl⟩
  | ok => exact hnext _ htree

/-- A tree of a statement whose tests of groups have no notes yet. -/
structure Ungrouped (q : Query) (p : SelectOf Value) : Prop where
  tree : StatementTree q p
  having : p.having = optionalCondition q.having?

/-- The same before the condition is checked. -/
structure Unfiltered (q : Query) (p : SelectOf Value) : Prop extends Ungrouped q p where
  condition : p.condition = optionalCondition q.condition?

/-- The same before the join condition is checked. -/
structure Unjoined (q : Query) (p : SelectOf Value) : Prop extends Unfiltered q p where
  joins : p.joins = sourceJoins q.source

theorem parts_unjoined (q : Query) : Unjoined q (partsOf q) := ⟨⟨⟨parts_tree q, rfl⟩, rfl⟩, rfl⟩

theorem check_selected_leads (schema : Value) (q : Query) :
    Leads (checkSelected schema (partsOf q)) (Unjoined q)
      (checkSelected schema (partsOf q)).outcome := by
  obtain ⟨r, hr⟩ := check_selected_resolved schema (partsOf q)
  refine ⟨?_, rfl⟩
  rw [hr]
  exact ⟨⟨⟨(parts_tree q).noted _ _ _, rfl⟩, rfl⟩, rfl⟩

section

variable {schema : Value} {n : Nat} {subquery : Value → Checked Value}
  (hsub : Judges schema n subquery) (hnotes : Annotates subquery) {q : Query}
  (hdepth : q.toValue.depth ≤ n + 1) {p : SelectOf Value}

section

include hsub hdepth

theorem check_joins_verdict (h : Unjoined q p) :
    (checkJoins schema subquery p).outcome = joinVerdict schema q.source := by
  have hjoins := h.joins
  obtain ⟨-, htable, -, -, -, -, -, -, -⟩ := h.tree
  obtain ⟨hdeep, -, -⟩ := clause_depths q
  rw [checkJoins, hjoins, htable]
  cases hsource : q.source with
  | table a => rfl
  | tables a b more => rfl
  | join a b on =>
    rw [hsource] at hdeep
    have hon := join_depth a b on
    have houtcome := check_condition_verdict hsub [.text a, .text b] on (by omega)
    have hclause : ∀ v : Value, (doc [("table", .text b), ("condition", v)]).entry "table" =
        .ok (.text b) ∧ (doc [("table", .text b), ("condition", v)]).entry "condition" = .ok v :=
      fun v => ⟨rfl, rfl⟩
    rw [joinVerdict, ← houtcome]
    simp only [sourceJoins, sourceTable, checkClauses, hclause, tablesOf, List.cons_append,
      List.nil_append, Checked.map]
    cases (checkCondition schema subquery [.text a, .text b] on.toValue).outcome with
    | error e => rfl
    | ok => rfl

theorem check_where_verdict (h : Unfiltered q p) :
    (checkWhere schema subquery p).outcome =
      if q.condition?.isNone && isPair (partsOf q).table then .error .joinRequired
      else clauseVerdict schema (tableValues q.source) q.condition? := by
  obtain ⟨-, hdeep, -⟩ := clause_depths q
  have htable : p.table = (partsOf q).table := by
    obtain ⟨-, htable, -, -, -, -, -, -, -⟩ := h.tree
    exact htable
  rw [checkWhere, all_tables_of h.tree, h.condition, htable]
  cases hc : q.condition? with
  | none =>
    by_cases hpair : isPair (partsOf q).table = true
    · simp [optionalCondition, Value.present, hpair, Checked.reject]
    · simp [optionalCondition, Value.present, hpair, Checked.accept, clauseVerdict]
  | some c =>
    rw [hc] at hdeep
    have hclause := check_clause_verdict hsub (tableValues q.source) (some c) (by omega)
      (condition_present c)
    simp only [optionalCondition, condition_present, ↓reduceIte] at hclause ⊢
    exact hclause

theorem check_having_verdict (h : Ungrouped q p) :
    (checkHaving schema subquery p).outcome =
      if q.having?.isSome && q.groupBy.isEmpty then .error .havingWithoutGroup
      else clauseVerdict schema (tableValues q.source) q.having? := by
  obtain ⟨-, -, hdeep⟩ := clause_depths q
  have htables := all_tables_of h.tree
  obtain ⟨-, -, -, -, hgroup, -, -, -, -⟩ := h.tree
  have hgrouped : p.groupBy.present = !q.groupBy.isEmpty := by
    rw [hgroup]
    cases q.groupBy <;> rfl
  rw [checkHaving, htables, h.having, hgrouped]
  cases hc : q.having? with
  | none => rfl
  | some c =>
    rw [hc] at hdeep
    have hclause := check_clause_verdict hsub (tableValues q.source) (some c) (by omega)
      (condition_present c)
    cases hempty : q.groupBy.isEmpty with
    | true =>
      simp [optionalCondition, condition_present, Checked.reject]
    | false =>
      simp only [optionalCondition, condition_present, ↓reduceIte] at hclause ⊢
      exact hclause

end

section

include hnotes

theorem check_joins_unfiltered (h : Unjoined q p) :
    Unfiltered q (checkJoins schema subquery p).tree := by
  have htree := @check_joins_tree schema subquery hnotes q p h.tree
  obtain ⟨js, hjs⟩ := check_joins_only schema subquery p
  rw [hjs] at htree ⊢
  exact ⟨⟨htree, h.having⟩, h.condition⟩

theorem check_where_ungrouped (h : Unfiltered q p) :
    Ungrouped q (checkWhere schema subquery p).tree := by
  have htree := @check_where_tree schema subquery hnotes q p h.tree
  obtain ⟨c, hc⟩ := check_where_only schema subquery p
  rw [hc] at htree ⊢
  exact ⟨htree, h.having⟩

end

theorem note_join_ungrouped (h : Ungrouped q p) : Ungrouped q (noteJoin p).tree := by
  have htree := note_join_tree h.tree
  obtain ⟨join?, filter?, hnote⟩ := note_join_only p
  rw [hnote] at htree ⊢
  exact ⟨htree, h.having⟩

end

theorem note_join_verdict {q : Query} {p : SelectOf Value} (h : StatementTree q p) :
    (noteJoin p).outcome = pairVerdict (partsOf q) := by
  obtain ⟨-, htable, -, hcondition, -, -, -, -, -⟩ := h
  have hfound : joinFound p.condition = joinFound (optionalCondition q.condition?) := by
    generalize p.condition = v at hcondition
    generalize q.condition? = c? at hcondition
    cases hcondition with
    | none => rfl
    | some hc => exact join_found_tree hc
  rw [note_join_outcome, pairVerdict, htable, hfound]
  rfl

theorem check_groups_verdict (schema : Value) {q : Query} {p : SelectOf Value}
    (h : StatementTree q p) : checkGroups schema p = checkGroups schema (partsOf q) := by
  have hbase := base_table_of h
  obtain ⟨hcolumns, -, -, -, hgroup, -, -, -, -⟩ := h
  rw [checkGroups, checkGroups, hbase, base_table_of (parts_tree q), hcolumns, hgroup]
  rfl

/-- Each stage sees a tree of the statement; a clause has no notes before its own stage. -/
theorem check_select_verdict {schema : Value} {n : Nat} {subquery : Value → Checked Value}
    (hsub : Judges schema n subquery) (hnotes : Annotates subquery) {q : Query}
    (hdepth : q.toValue.depth ≤ n + 1) :
    (checkSelect schema subquery (partsOf q)).outcome = verdict schema q := by
  have htables : Leads ⟨partsOf q, checkTables schema (partsOf q)⟩ (· = partsOf q)
    (checkTables schema (partsOf q)) := ⟨rfl, rfl⟩
  have hselected := @htables.and_then _ _ (Unjoined q) _ (checkSelected schema) _
    (checkSelected schema (partsOf q)).outcome (fun p hp => hp ▸ parts_unjoined q)
    (fun p hp => hp ▸ check_selected_leads schema q)
  have hjoins := hselected.and_then (fun p hp => hp.toUnfiltered) (fun p hp =>
    ⟨@check_joins_unfiltered schema subquery hnotes _ _ hp, check_joins_verdict hsub hdepth hp⟩)
  have hwhere := hjoins.and_then (fun p hp => hp.toUngrouped) (fun p hp =>
    ⟨@check_where_ungrouped schema subquery hnotes _ _ hp, check_where_verdict hsub hdepth hp⟩)
  have hpair := hwhere.and_then (fun p hp => hp) (fun p hp =>
    ⟨note_join_ungrouped hp, note_join_verdict hp.tree⟩)
  have hhaving := hpair.and_then (fun p hp => hp.tree) (fun p hp =>
    ⟨@check_having_tree schema subquery hnotes _ _ hp.tree, check_having_verdict hsub hdepth hp⟩)
  have hgroups := hhaving.and_then (fun p hp => hp) (fun p hp =>
    (⟨hp, check_groups_verdict schema hp⟩ : Leads ⟨p, checkGroups schema p⟩ (StatementTree q) _))
  rw [checkSelect, hgroups.outcome]
  obtain ⟨items, source, condition?, groupBy, having?, orderBy, limit?⟩ := q
  simp only [bind_assoc]
  rfl

/-- Checking to a depth gives the verdict on every statement that is less deep. -/
theorem check_nested_verdict (schema : Value) (n : Nat) :
    Judges schema n (checkNested schema n) := by
  induction n with
  | zero =>
    intro q hdepth
    cases hdepth
  | succ n ih =>
    intro q hdepth
    rw [statement_parts, checkNested]
    exact check_select_verdict ih (check_nested_tree schema n) (Nat.le_of_lt hdepth)

theorem check_verdict (schema : Value) (q : Query) :
    (Check.check schema q.toValue).outcome = verdict schema q :=
  check_nested_verdict schema _ q (Nat.lt_succ_self _)

/-- A statement passes the check. -/
def Accepted (schema : Value) (q : Query) : Prop :=
  (Check.check schema q.toValue).outcome = .ok ()

theorem accepted_iff {schema : Value} {q : Query} :
    Accepted schema q ↔ verdict schema q = .ok () := by
  rw [Accepted, check_verdict]

/-- What is accepted of each part of a statement. -/
structure Accepts (schema : Value) (q : Query) : Prop where
  tables : checkTables schema (partsOf q) = .ok ()
  selected : (checkSelected schema (partsOf q)).outcome = .ok ()
  join : joinVerdict schema q.source = .ok ()
  filtered : (q.condition?.isNone && isPair (partsOf q).table) = false
  condition : clauseVerdict schema (tableValues q.source) q.condition? = .ok ()
  pair : pairVerdict (partsOf q) = .ok ()
  grouped : (q.having?.isSome && q.groupBy.isEmpty) = false
  having : clauseVerdict schema (tableValues q.source) q.having? = .ok ()
  groups : checkGroups schema (partsOf q) = .ok ()

theorem guarded_ok {b : Bool} {e : Check.Error} {x : Except Check.Error Unit} {u : Unit} :
    (if b = true then .error e else x) = .ok u ↔ b = false ∧ x = .ok () := by
  cases b <;> simp

theorem verdict_ok {schema : Value} {q : Query} :
    verdict schema q = .ok () ↔ Accepts schema q := by
  obtain ⟨items, source, condition?, groupBy, having?, orderBy, limit?⟩ := q
  simp only [verdict, bind_ok, guarded_ok]
  constructor
  · rintro ⟨_, ht, _, hs, _, hj, _, ⟨hf, hc⟩, _, hp, _, ⟨hg, hh⟩, hgroups⟩
    exact ⟨ht, hs, hj, hf, hc, hp, hg, hh, hgroups⟩
  · rintro ⟨ht, hs, hj, hf, hc, hp, hg, hh, hgroups⟩
    exact ⟨(), ht, (), hs, (), hj, (), ⟨hf, hc⟩, (), hp, (), ⟨hg, hh⟩, hgroups⟩

@[simp] theorem check_lift {α : Type} (a : α) :
    (liftM (Except.ok a : Except Fault α) : Except Check.Error α) = .ok a := rfl

section

variable {p p' : SelectOf Value}

/-- Only the tables of a statement are read to find a selected column. -/
theorem select_alike (htables : allTables p = allTables p') (schema base c : Value) :
    select schema base (.select p) c = select schema base (.select p') c := by
  have howner : ∀ column, ownerIn schema (.select p) column = ownerIn schema (.select p') column := by
    intro column
    simp only [ownerIn, Value.asSelect, check_lift, ok_bind, htables]
  cases c with
  | dict es => simp only [select, howner]
  | text s => simp only [select, howner]
  | _ => rfl

theorem note_alike (hnotes : p.resolved? = p'.resolved?) (table column : Value) :
    (∃ f, note (.select p) table column = .error f ∧ note (.select p') table column = .error f) ∨
      ∃ r, note (.select p) table column = .ok (.select { p with resolved? := r }) ∧
        note (.select p') table column = .ok (.select { p' with resolved? := r }) := by
  simp only [note, hnotes]
  split
  · exact .inr ⟨_, rfl, rfl⟩
  · exact .inr ⟨_, rfl, rfl⟩
  · exact .inl ⟨_, rfl, rfl⟩

/-- The selected columns of two statements on the same tables are found, and noted, alike. -/
theorem check_each_alike (htables : allTables p = allTables p')
    (hnotes : p.resolved? = p'.resolved?) (schema base : Value) (cs : List Value)
    (seen : List String) :
    (checkEach schema base cs seen (.select p)).outcome =
        (checkEach schema base cs seen (.select p')).outcome ∧
      ∃ r, (checkEach schema base cs seen (.select p)).tree = .select { p with resolved? := r } ∧
        (checkEach schema base cs seen (.select p')).tree =
          .select { p' with resolved? := r } := by
  induction cs generalizing seen p p' with
  | nil => exact ⟨rfl, p.resolved?, rfl, by rw [hnotes]; rfl⟩
  | cons c cs ih =>
    have hsame : ∃ r, Value.select p = .select { p with resolved? := r } ∧
      Value.select p' = .select { p' with resolved? := r } := ⟨p.resolved?, rfl, by rw [hnotes]⟩
    rw [checkEach, checkEach, select_alike htables]
    cases select schema base (.select p') c with
    | error e => exact ⟨rfl, hsame⟩
    | ok found =>
      cases found with
      | none => exact ih htables hnotes seen
      | some s =>
        by_cases hseen : seen.contains s.key = true
        · simp only [hseen, ↓reduceIte, true_and]
          exact hsame
        · simp only [hseen, Bool.false_eq_true, ↓reduceIte]
          obtain ⟨f, hf, hf'⟩ | ⟨r, hr, hr'⟩ := note_alike hnotes s.table s.column
          · rw [hf, hf']
            exact ⟨rfl, hsame⟩
          · rw [hr, hr']
            simp only [Checked.andThen]
            split
            · exact @ih { p with resolved? := r } { p' with resolved? := r } htables rfl _
            · exact ⟨rfl, r, rfl, rfl⟩

theorem check_columns_alike (htables : allTables p = allTables p')
    (hnotes : p.resolved? = p'.resolved?) {columns columns' : Value}
    (hcolumns : columns = columns') (schema base : Value) :
    (checkColumns schema columns base (.select p)).outcome =
        (checkColumns schema columns' base (.select p')).outcome ∧
      ∃ r, (checkColumns schema columns base (.select p)).tree = .select { p with resolved? := r } ∧
        (checkColumns schema columns' base (.select p')).tree =
          .select { p' with resolved? := r } := by
  subst hcolumns
  have hsame : ∃ r, Value.select p = .select { p with resolved? := r } ∧
    Value.select p' = .select { p' with resolved? := r } := ⟨p.resolved?, rfl, by rw [hnotes]⟩
  rw [checkColumns, checkColumns]
  cases schema.index base with
  | error f => exact ⟨rfl, hsame⟩
  | ok _ =>
    by_cases hall : columns.same (.list [.text "*"]) = true
    · simp only [hall, ↓reduceIte]
      exact ⟨rfl, hsame⟩
    · simp only [hall, Bool.false_eq_true, ↓reduceIte]
      cases columns.items with
      | error f => exact ⟨rfl, hsame⟩
      | ok cs => exact check_each_alike htables hnotes schema base cs []

theorem check_selected_alike (htables : allTables p = allTables p')
    (hnotes : p.resolved? = p'.resolved?) (hcolumns : p.columns = p'.columns) (schema : Value) :
    (checkSelected schema p).outcome = (checkSelected schema p').outcome ∧
      ∃ r, (checkSelected schema p).tree = { p with resolved? := r } ∧
        (checkSelected schema p').tree = { p' with resolved? := r } := by
  have hbase : baseTable p = baseTable p' := by rw [baseTable, baseTable, htables]
  rw [checkSelected, checkSelected, hbase]
  cases baseTable p' with
  | error f => exact ⟨rfl, p.resolved?, rfl, by rw [hnotes]; rfl⟩
  | ok base =>
    obtain ⟨houtcome, r, hr, hr'⟩ := check_columns_alike htables hnotes hcolumns schema base
    refine ⟨houtcome, r, ?_, ?_⟩
    · simp only [Checked.map, hr]
    · simp only [Checked.map, hr']

end

/-- Both ends of a range are held against the type of its column. -/
theorem between_verdict (schema : Value) (tables : List Value) (c : String)
    (low high : Sql.Literal) : conditionVerdict schema tables (.between c low high) = (do
      let type ← testedType schema tables .null (.text c)
      checkRange (.text c) type (.tuple [low.toValue, high.toValue])) := by
  simp [conditionVerdict, checkPlain, namesColumn, checkTest, testedColumn]

theorem in_list_verdict (schema : Value) (tables : List Value) (c : ColumnRef) (l : Sql.Literal)
    (ls : List Sql.Literal) : conditionVerdict schema tables (.inList c l ls) = (do
      let type ← testedType schema tables (optionalText c.table?) (.text c.name)
      checkMembers (.text c.name) type (.list ((l :: ls).map Literal.toValue))) := by
  simp [conditionVerdict, checkPlain, namesColumn, checkTest, tested_ref]

/-- Every test of an aggregate is accepted. -/
theorem aggregate_verdict (schema : Value) (tables : List Value) (a : Aggregate) (r : Relation)
    (l : Sql.Literal) : conditionVerdict schema tables (.aggregate a r l) = .ok () := by
  cases a <;> cases l <;> rfl

end DocQuery.Proofs
