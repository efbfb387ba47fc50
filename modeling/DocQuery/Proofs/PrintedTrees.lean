import DocQuery.Menu
import DocQuery.Proofs.AllColumns
import DocQuery.Proofs.Subqueries
import DocQuery.Proofs.TreeTexts

namespace DocQuery.Proofs

open Sql

/-- The tables of a statement without the one that is joined by a condition. -/
def unjoined : Source Condition → Source Condition
  | .join a _ _ => .table a
  | s => s

mutual
def conditionWithoutJoins : Condition → Condition
  | .inQuery c q => .inQuery c (withoutJoins q)
  | .connect l w r => .connect (conditionWithoutJoins l) w (conditionWithoutJoins r)
  | c => c

def clauseWithoutJoins : Option Condition → Option Condition
  | some c => some (conditionWithoutJoins c)
  | none => none

/-- A statement without its joins, and without those of its subqueries. -/
def withoutJoins : Statement Condition → Statement Condition
  | ⟨items, source, condition?, groupBy, having?, orderBy, limit?⟩ =>
    ⟨items, unjoined source, clauseWithoutJoins condition?, groupBy, clauseWithoutJoins having?,
      orderBy, limit?⟩
end

theorem unjoined_table (s : Source Condition) : sourceTable (unjoined s) = sourceTable s := by
  cases s <;> rfl

theorem unjoined_none (s : Source Condition) : sourceJoins (unjoined s) = .list [] := by
  cases s <;> rfl

mutual
theorem condition_literal (c : Condition) :
    (conditionWithoutJoins c).toValue.literal = c.toValue.literal := by
  match c with
  | .inQuery c q =>
    simp only [conditionWithoutJoins, Condition.toValue, Value.literal, statement_literal q]
  | .connect l w r =>
    simp only [conditionWithoutJoins, Condition.toValue, Value.literal, condition_literal l,
      condition_literal r]
  | .compare .. | .aggregate .. | .between .. | .inList .. => rfl

theorem clause_literals (c? : Option Condition) :
    Value.clause (optionalCondition (clauseWithoutJoins c?))
        (optionalCondition (clauseWithoutJoins c?)).literal =
      Value.clause (optionalCondition c?) (optionalCondition c?).literal := by
  match c? with
  | none => rfl
  | some c =>
    simp only [clauseWithoutJoins, optionalCondition, Value.clause, condition_present,
      condition_literal c]

/-- Joins are not printed. -/
theorem statement_literal (q : Statement Condition) :
    (statementValue (withoutJoins q)).literal = (statementValue q).literal := by
  match q with
  | ⟨items, source, condition?, groupBy, having?, orderBy, limit?⟩ =>
    simp only [withoutJoins, statementValue, Value.literal, Value.literalSelect, unjoined_table,
      clause_literals condition?, clause_literals having?]
end

/-- A tree that is printed. -/
def Printed (v : Value) : Prop := ∃ cs, TreeText v cs

theorem printed_items {xs : List Value} (h : ∀ x ∈ xs, Printed x) :
    ∃ ps : List (Value × List Char), ps.map Prod.fst = xs ∧ ∀ p ∈ ps, TreeText p.1 p.2 := by
  induction xs with
  | nil => exact ⟨[], rfl, by simp⟩
  | cons x xs ih =>
    obtain ⟨⟨cs, hx⟩, hrest⟩ := List.forall_mem_cons.mp h
    obtain ⟨ps, hps, htexts⟩ := ih hrest
    exact ⟨(x, cs) :: ps, congrArg (x :: ·) hps, List.forall_mem_cons.mpr ⟨hx, htexts⟩⟩

theorem list_printed {xs : List Value} (h : ∀ x ∈ xs, Printed x) : Printed (.list xs) := by
  obtain ⟨ps, rfl, htexts⟩ := printed_items h
  exact ⟨_, .list htexts⟩

theorem text_printed (s : String) : Printed (.text s) := ⟨_, .text s⟩

theorem texts_printed (ss : List String) : ∀ x ∈ ss.map Value.text, Printed x :=
  List.forall_mem_map.mpr fun s _ => text_printed s

theorem column_printed (c : ColumnRef) : Printed c.toValue := by
  obtain ⟨_ | t, a⟩ := c
  · exact ⟨_, .column .null (.text a)⟩
  · exact ⟨_, .column (.text t) (.text a)⟩

theorem literal_printed (l : Sql.Literal) : Printed l.toValue := by
  cases l with
  | number n => exact ⟨_, .number n⟩
  | text s => exact text_printed s

theorem operand_printed (x : Operand) : Printed x.toValue := by
  cases x with
  | column c => exact column_printed c
  | literal l => exact literal_printed l

theorem keyword_bare (k : Keyword) : Bare k.spelling := name_bare (keyword_name (word_writable k))

theorem bare_of_all {s : String} (h : (s.toList.all fun c => c != '\'' && c != '\n') = true) :
    Bare s := by
  simpa [Bare] using h

theorem relation_bare (r : Relation) : Bare r.symbol.spelling := by
  cases r <;> exact bare_of_all rfl

theorem aggregate_printed {a : Aggregate} (h : AllWritable (aggregateLexemes a)) :
    Printed a.toValue := by
  cases a with
  | countAll => exact ⟨_, .aggregate (keyword_bare .count) (bare_of_all rfl)⟩
  | call f c =>
    simp only [aggregateLexemes, all_writable_cons] at h
    exact ⟨_, .aggregate (keyword_bare f.keyword) (name_bare h.2.2.1.1)⟩

theorem select_printed {s : SelectList} (h : AllWritable (selectLexemes s)) :
    Printed s.toValue ∧ s.toValue.kind = .list := by
  cases s with
  | all => exact ⟨list_printed (by simpa using text_printed "*"), rfl⟩
  | items x xs =>
    rw [selectLexemes, all_writable_append] at h
    have hitems : ∀ y ∈ x :: xs, AllWritable (itemLexemes y) :=
      List.forall_mem_cons.mpr ⟨h.1, more_writable h.2⟩
    refine ⟨list_printed (List.forall_mem_map.mpr fun y hy => ?_), rfl⟩
    cases y with
    | column c => exact column_printed c
    | aggregate a => exact aggregate_printed (hitems _ hy)

theorem table_printed {s : Source Condition} (h : AllWritable (sourceLexemes s)) :
    Printed (sourceTable s) ∧ NameLike (sourceTable s) := by
  cases s with
  | table a =>
    rw [sourceLexemes, all_writable_cons] at h
    exact ⟨text_printed a, h.1.1⟩
  | join a b on =>
    rw [sourceLexemes, all_writable_append, all_writable_cons] at h
    exact ⟨text_printed a, h.1.1.1⟩
  | tables a b more => exact ⟨list_printed (texts_printed _), trivial⟩

theorem order_printed {o : OrderItem} (h : AllWritable (orderLexemes o)) : Printed o.toValue := by
  have hcolumn : Bare o.column := by
    rw [orderLexemes, all_writable_append] at h
    split at h
    · rename_i halias
      rw [halias]
      exact bare_of_all rfl
    · exact name_bare (all_writable_cons.mp h.1).1.1
  exact ⟨_, .orderItem hcolumn (keyword_bare o.direction.keyword)⟩

theorem limit_printed (limit? : Option Nat) :
    Printed (optionalNumber limit?) ∧ (optionalNumber limit?).kind ≠ .text := by
  cases limit? with
  | none => exact ⟨⟨_, .null⟩, by decide⟩
  | some n => exact ⟨⟨_, .number n⟩, by simp [optionalNumber, Value.kind]⟩

mutual
theorem condition_printed (c : Condition) (h : AllWritable (conditionLexemes c)) :
    Printed (conditionWithoutJoins c).toValue := by
  match c with
  | .compare c r x =>
    obtain ⟨is, hi⟩ := column_printed c
    obtain ⟨vs, hv⟩ := operand_printed x
    exact ⟨_, .comparison hi trivial (relation_bare r) hv⟩
  | .aggregate a r l =>
    rw [conditionLexemes, all_writable_append] at h
    obtain ⟨is, hi⟩ := aggregate_printed h.1
    obtain ⟨vs, hv⟩ := literal_printed l
    exact ⟨_, .comparison hi (by cases a <;> trivial) (relation_bare r) hv⟩
  | .between c low high =>
    simp only [conditionLexemes, all_writable_cons] at h
    obtain ⟨as, ha⟩ := literal_printed low
    obtain ⟨bs, hb⟩ := literal_printed high
    exact ⟨_, .comparison (.text c) h.1.1 (bare_of_all rfl) (.pair ha hb)⟩
  | .inList c l ls =>
    obtain ⟨is, hi⟩ := column_printed c
    obtain ⟨vs, hv⟩ := list_printed (List.forall_mem_map.mpr fun m (_ : m ∈ l :: ls) =>
      literal_printed m)
    exact ⟨_, .comparison hi trivial (bare_of_all rfl) hv⟩
  | .inQuery c q =>
    simp only [conditionLexemes, all_writable_append] at h
    obtain ⟨is, hi⟩ := column_printed c
    obtain ⟨vs, hv⟩ := statement_printed q h.1.2
    exact ⟨_, .comparison hi trivial (bare_of_all rfl) hv⟩
  | .connect l w r =>
    rw [conditionLexemes, all_writable_append, all_writable_cons] at h
    obtain ⟨ls, hl⟩ := condition_printed l h.1
    obtain ⟨rs, hr⟩ := condition_printed r h.2.2
    exact ⟨_, .logical hl (name_bare (keyword_name h.2.1)) hr⟩

theorem clause_printed (k : Keyword) (c? : Option Condition)
    (h : AllWritable (clauseLexemes k c?)) :
    Printed (optionalCondition (clauseWithoutJoins c?)) ∧
      OptionalNode (optionalCondition (clauseWithoutJoins c?)) := by
  match c? with
  | none => exact ⟨⟨_, .null⟩, .inl rfl⟩
  | some c =>
    rw [clauseLexemes, all_writable_cons] at h
    exact ⟨condition_printed c h.2, .inr (condition_present _)⟩

theorem statement_printed (q : Statement Condition) (h : AllWritable (statementLexemes q)) :
    Printed (statementValue (withoutJoins q)) := by
  match q with
  | ⟨items, source, condition?, groupBy, having?, orderBy, limit?⟩ =>
    have hparts := writable_parts h
    obtain ⟨⟨cs, hcolumns⟩, hlist⟩ := select_printed hparts.items
    obtain ⟨⟨ts, htable⟩, hname⟩ := table_printed hparts.source
    obtain ⟨⟨ws, hwhere⟩, hoptional⟩ := clause_printed .whereWord condition? hparts.condition
    obtain ⟨groups, hgroups, hgroupTexts⟩ := printed_items (texts_printed groupBy)
    obtain ⟨⟨hs, hfilter⟩, hoptional'⟩ := clause_printed .having having? hparts.having
    obtain ⟨orders, horders, horderTexts⟩ := printed_items
      (List.forall_mem_map.mpr fun o ho => order_printed (by_writable hparts.orderBy o ho))
    obtain ⟨⟨ns, hlimit⟩, hnumber⟩ := limit_printed limit?
    rw [withoutJoins, statementValue, unjoined_table, unjoined_none, textList, ← hgroups,
      ← horders]
    exact ⟨_, .select hcolumns hlist htable hname hwhere hoptional hgroupTexts hfilter hoptional'
      horderTexts hlimit hnumber⟩
end

/-- A statement that is read is printed as its tree without the joins. -/
theorem parsed_text {sql : String} {line : Nat} {q : Query} (h : Sql.parse sql line = .ok q) :
    ∃ cs, TreeText (withoutJoins q).toValue cs ∧ q.toValue.repr = .ok (String.ofList cs) ∧
      Menu.shown q.toValue = String.ofList cs := by
  have hwritable := parse_writable h
  obtain ⟨cs, hcs⟩ := statement_printed q hwritable
  have hliteral : q.toValue.literal = .ok (String.ofList cs) :=
    (statement_literal q).symm.trans (tree_literal hcs)
  have hstr : q.toValue.str = .ok (String.ofList cs) := by
    rw [Value.str, Value.shown, plain_other (by simp [statement_parts, Value.kind]), hliteral]
    rfl
  refine ⟨cs, hcs, ?_, ?_⟩
  · rw [Value.repr, hliteral]
    rfl
  · rw [Menu.shown, hstr]
    rfl

/-- Statements that are read have printed trees, which are the same just if nothing but joins is
different in the trees, also inside subqueries. -/
theorem printed_alike_iff {sql sql' : String} {line line' : Nat} {q q' : Query}
    (h : Sql.parse sql line = .ok q) (h' : Sql.parse sql' line' = .ok q') :
    ∃ s s', q.toValue.repr = .ok s ∧ q'.toValue.repr = .ok s' ∧
      Menu.shown q.toValue = s ∧ Menu.shown q'.toValue = s' ∧
      (s = s' ↔ (withoutJoins q).toValue = (withoutJoins q').toValue) := by
  obtain ⟨cs, hcs, hrepr, hshown⟩ := parsed_text h
  obtain ⟨ds, hds, hrepr', hshown'⟩ := parsed_text h'
  refine ⟨_, _, hrepr, hrepr', hshown, hshown', fun hsame => ?_, fun hsame => ?_⟩
  · obtain rfl := String.ofList_injective hsame
    exact tree_text_injective hcs hds
  · have hliterals := (tree_literal hcs).symm.trans (hsame ▸ tree_literal hds)
    exact Except.ok.inj hliterals

def allUsers : Query := ⟨.all, .table "users", none, [], none, [], none⟩

theorem all_users_parsed : Sql.parse "SELECT * FROM users;" 1 = .ok allUsers :=
  parse_spelled ⟨rfl, rfl⟩ rfl

theorem all_orders_parsed : Sql.parse allOrdersText 1 = .ok allOrders :=
  parse_spelled ⟨rfl, rfl⟩ rfl

/-- The users with their orders are printed as the users. -/
theorem printed_alike_users :
    Sql.parse "SELECT * FROM users;" 1 = .ok allUsers ∧
      Sql.parse allOrdersText 1 = .ok allOrders ∧
      ∃ s, allUsers.toValue.repr = .ok s ∧ allOrders.toValue.repr = .ok s := by
  obtain ⟨s, s', hs, hs', -, -, hsame⟩ := printed_alike_iff all_users_parsed all_orders_parsed
  refine ⟨all_users_parsed, all_orders_parsed, s, hs, ?_⟩
  rw [hsame.mpr rfl]
  exact hs'

/-- A printed tree does not tell what is joined. -/
theorem printed_alike_differ :
    ¬ ∀ (sql sql' : String) (line line' : Nat) (q q' : Query), Sql.parse sql line = .ok q →
      Sql.parse sql' line' = .ok q' → q.toValue.repr = q'.toValue.repr →
      q.toValue = q'.toValue := by
  intro hall
  have hrepr : allUsers.toValue.repr = allOrders.toValue.repr :=
    congrArg (Except.mapError Fault.notIterable) (statement_literal allOrders)
  have hsame := hall _ _ 1 1 allUsers allOrders all_users_parsed all_orders_parsed hrepr
  cases congrArg SelectOf.joins (Value.select.inj hsame)

end DocQuery.Proofs
