import DocQuery.Proofs.Rendering
import DocQuery.Proofs.StageOrder
import DocQuery.Proofs.Verdicts

namespace DocQuery.Proofs

open Sql Check

/-- What a statement does with a column that it refers to. -/
inductive Use where
  /-- It is compared with literals. -/
  | tested
  /-- It is compared with a column, or with a text that has a dot and is taken for one. -/
  | joined
  /-- An aggregate of it is tested. -/
  | aggregated
  /-- It is looked for among the results of a subquery. -/
  | searched
  | ordered
deriving DecidableEq

/-- A reference to a column, with the tables of the statement in which it stands and the names that
it may have instead of a column's. -/
structure Reference where
  use : Use
  column : ColumnRef
  tables : List String
  aliases : List String := []

namespace Reference

/-- A reference is to a column of one of the tables, namely of the one that it names, or to another
name that it may have. -/
def InScope (schema : Value) (r : Reference) : Prop :=
  (∃ t ∈ r.tables, (r.column.table? = none ∨ r.column.table? = some t) ∧
    ColumnIn schema t r.column.name) ∨
  (r.column.table? = none ∧ r.column.name ∈ r.aliases)

/-- Whether checking looks for the column. The sides of a join are found only by their tables. -/
def isChecked (r : Reference) : Bool :=
  match r.use with
  | .tested => true
  | .joined => r.column.table?.isSome
  | _ => false

/-- A table that is named is one of the statement's. -/
def Placed (r : Reference) : Prop := ∀ t, r.column.table? = some t → t ∈ r.tables

/-- What checking knows of a column: it is in the table that it names, whether this is one of the
statement's or not, or else in one of the statement's tables. -/
def Resolved (schema : Value) (r : Reference) : Prop :=
  match r.column.table? with
  | some t => ColumnIn schema t r.column.name
  | none => ∃ t ∈ r.tables, ColumnIn schema t r.column.name

theorem Resolved.in_scope {schema : Value} {r : Reference} (h : r.Resolved schema)
    (hplaced : r.Placed) : r.InScope schema := by
  unfold Resolved at h
  left
  cases ht : r.column.table? with
  | some t =>
    rw [ht] at h
    exact ⟨t, hplaced t ht, .inr rfl, h⟩
  | none =>
    rw [ht] at h
    obtain ⟨t, hmem, hcolumn⟩ := h
    exact ⟨t, hmem, .inl rfl, hcolumn⟩

theorem InScope.placed {schema : Value} {r : Reference} (h : r.InScope schema) : r.Placed := by
  intro t ht
  rcases h with ⟨u, hmem, hnone | hsome, -⟩ | ⟨hnone, -⟩
  · rw [hnone] at ht
    cases ht
  · cases hsome.symm.trans ht
    exact hmem
  · rw [hnone] at ht
    cases ht

end Reference

def operandUse (x : Operand) : Use := if namesColumn x.toValue then .joined else .tested

def operandReferences (tables : List String) : Operand → List Reference
  | .column c => [⟨.joined, c, tables, []⟩]
  | .literal _ => []

def aggregateReferences (tables : List String) : Aggregate → List Reference
  | .countAll => []
  | .call _ c => [⟨.aggregated, ⟨none, c⟩, tables, []⟩]

def selectedAliases (items : SelectList) : List String :=
  (selectedItems items).filterMap fun
    | .aggregate a => some a.alias
    | .column _ => none

mutual
/-- The references in a condition of a statement on the given tables. -/
def conditionReferences (tables : List String) : Condition → List Reference
  | .compare c _ x => ⟨operandUse x, c, tables, []⟩ :: operandReferences tables x
  | .aggregate a _ _ => aggregateReferences tables a
  | .between c _ _ => [⟨.tested, ⟨none, c⟩, tables, []⟩]
  | .inList c _ _ => [⟨.tested, c, tables, []⟩]
  | .inQuery c q => ⟨.searched, c, tables, []⟩ :: references q
  | .connect l _ r => conditionReferences tables l ++ conditionReferences tables r

def clauseReferences (tables : List String) : Option Condition → List Reference
  | none => []
  | some c => conditionReferences tables c

def joinReferences : Source Condition → List Reference
  | .join a b on => conditionReferences [a, b] on
  | _ => []

/-- The references of a statement outside of its select list, with those of its subqueries. -/
def references : Statement Condition → List Reference
  | ⟨items, source, condition?, _, having?, orderBy, _⟩ =>
    joinReferences source ++ clauseReferences (sourceNames source) condition? ++
      clauseReferences (sourceNames source) having? ++
      orderBy.map fun o => ⟨.ordered, ⟨none, o.column⟩, sourceNames source, selectedAliases items⟩
end

/-- What a filter keeps is kept before or passes. -/
theorem filter_aux_kept {ε α : Type} {p : α → Except ε Bool} {xs kept found : List α}
    (h : List.filterAuxM p xs kept = .ok found) :
    ∀ x ∈ found, x ∈ kept ∨ x ∈ xs ∧ p x = .ok true := by
  induction xs generalizing kept with
  | nil =>
    cases h
    exact fun x hx => .inl hx
  | cons y xs ih =>
    obtain ⟨b, hb, h⟩ := bind_ok.mp h
    intro x hx
    rcases ih h x hx with hkept | ⟨hmem, hpass⟩
    · cases b with
      | false => exact .inl hkept
      | true =>
        rcases List.mem_cons.mp hkept with rfl | hkept
        · exact .inr ⟨List.mem_cons_self, hb⟩
        · exact .inl hkept
    · exact .inr ⟨List.mem_cons_of_mem _ hmem, hpass⟩

/-- The tables found for a column are among those searched, and have it. -/
theorem owners_have {schema column : Value} {tables found : List Value}
    (h : owners schema tables column = .ok found) : ∀ t ∈ found, t ∈ tables ∧
      ∃ columns, schema.index t = .ok columns ∧ column.isIn columns = .ok true := by
  obtain ⟨kept, hkept, hfound⟩ := bind_ok.mp h
  cases hfound
  intro t ht
  rcases filter_aux_kept hkept t (List.mem_reverse.mp ht) with hnil | ⟨hmem, hhas⟩
  · cases hnil
  · exact ⟨hmem, bind_ok.mp hhas⟩

theorem tested_resolved {schema type : Value} {c : ColumnRef} {tables : List String} (use : Use)
    (hc : ∀ t, c.table? = some t → t ≠ "")
    (h : testedType schema (tables.map .text) (optionalText c.table?) (.text c.name) = .ok type) :
    (⟨use, c, tables, []⟩ : Reference).Resolved schema := by
  unfold Reference.Resolved
  unfold testedType at h
  cases ht : c.table? with
  | some t =>
    have hpresent : (Value.text t).present = true := by simp [Value.present, hc t ht]
    simp only [ht, optionalText, hpresent, ↓reduceIte, bind_ok, check_lift_ok] at h
    obtain ⟨_, -, columns, hindex, known, hknown, h⟩ := h
    cases known with
    | true => exact ⟨columns, hindex, hknown⟩
    | false => simp [bind_ok] at h
  | none =>
    simp only [ht, optionalText, Value.present, Bool.false_eq_true, ↓reduceIte, bind_ok,
      check_lift_ok] at h
    obtain ⟨found, hfound, h⟩ := h
    cases found with
    | nil => simp at h
    | cons t found =>
      obtain ⟨hmem, columns, hindex, hin⟩ := owners_have hfound t List.mem_cons_self
      obtain ⟨u, hu, rfl⟩ := List.mem_map.mp hmem
      exact ⟨u, hu, columns, hindex, hin⟩

/-- A comparison with literals is accepted only for a column that is found. -/
theorem test_resolved {schema identifier operator value : Value} {c : ColumnRef}
    {tables : List String} (use : Use) (hc : ∀ t, c.table? = some t → t ≠ "")
    (hi : testedColumn identifier = (optionalText c.table?, .text c.name))
    (h : checkTest schema (tables.map .text) identifier operator value = .ok ()) :
    (⟨use, c, tables, []⟩ : Reference).Resolved schema := by
  simp only [checkTest, hi, bind_ok] at h
  obtain ⟨type, htype, -⟩ := h
  exact tested_resolved use hc htype

/-- A join is accepted only for columns that are in their tables. -/
theorem join_resolved {schema : Value} {left right : Value × Value}
    (h : checkJoin schema left right = .ok ()) :
    requireColumn schema left.1 left.2 = .ok () ∧ requireColumn schema right.1 right.2 = .ok () := by
  simp only [checkJoin, bind_ok] at h
  obtain ⟨_, -, _, -, _, hleft, _, hright, -⟩ := h
  exact ⟨hleft, hright⟩

/-- A side of a join that names its table. -/
theorem side_resolved {schema : Value} {c : ColumnRef} (tables : List String)
    (hqualified : c.table?.isSome = true)
    (h : requireColumn schema (optionalText c.table?) (.text c.name) = .ok ()) :
    (⟨.joined, c, tables, []⟩ : Reference).Resolved schema := by
  unfold Reference.Resolved
  cases ht : c.table? with
  | none => simp [ht] at hqualified
  | some t =>
    rw [ht] at h
    exact column_required h

theorem compare_resolved {schema : Value} {tables : List String} {c : ColumnRef} {r : Relation}
    {x : Operand} (hc : ∀ t, c.table? = some t → t ≠ "")
    (h : checkPlain schema (tables.map .text) c.toValue r.toValue x.toValue = .ok ()) :
    ∀ ref ∈ conditionReferences tables (.compare c r x), ref.isChecked = true →
      ref.Resolved schema := by
  have hnames : namesColumn c.toValue = true := rfl
  rw [conditionReferences, operandUse]
  by_cases hx : namesColumn x.toValue = true
  · -- a join: both sides are looked for in the tables that they name
    simp only [checkPlain, hnames, hx, Bool.and_self, ↓reduceIte, bind_ok, check_lift_ok] at h
    obtain ⟨left, hleft, right, hright, h⟩ := h
    obtain ⟨hl, hr⟩ := join_resolved h
    cases hleft
    rw [if_pos hx]
    intro ref href hchecked
    rcases List.mem_cons.mp href with rfl | href
    · exact side_resolved tables hchecked hl
    · cases x with
      | literal l => cases href
      | column d =>
        obtain rfl := List.mem_singleton.mp href
        cases hright
        exact side_resolved tables hchecked hr
  · simp only [checkPlain, hnames, hx, Bool.and_false, Bool.false_eq_true, ↓reduceIte] at h
    rw [if_neg hx]
    intro ref href hchecked
    rcases List.mem_cons.mp href with rfl | href
    · exact test_resolved _ hc rfl h
    · cases x with
      | literal l => cases href
      | column d => exact absurd rfl hx

/-- The tables that an operand of a writable condition names. -/
theorem qualifier_named {c : ColumnRef} (h : AllWritable (columnLexemes c)) :
    ∀ t, c.table? = some t → t ≠ "" :=
  fun t ht => ((column_named h).2 t ht).ne_empty

mutual
theorem condition_resolved {schema : Value} {tables : List String} (c : Condition)
    (hw : AllWritable (conditionLexemes c))
    (h : conditionVerdict schema (tables.map .text) c = .ok ()) :
    ∀ ref ∈ conditionReferences tables c, ref.isChecked = true → ref.Resolved schema := by
  match c with
  | .compare c r x =>
    simp only [conditionLexemes, all_writable_append] at hw
    exact compare_resolved (qualifier_named hw.1) h
  | .aggregate a r l =>
    intro ref href hchecked
    cases a with
    | countAll => cases href
    | call f c =>
      obtain rfl := List.mem_singleton.mp href
      cases hchecked
  | .between c low high =>
    intro ref href _
    obtain rfl := List.mem_singleton.mp href
    have htest : checkTest schema (tables.map .text) (.text c) (.text "BETWEEN")
        (.tuple [low.toValue, high.toValue]) = .ok () := by
      rw [conditionVerdict, checkPlain] at h
      simpa [namesColumn] using h
    exact test_resolved _ (fun t ht => nomatch ht) rfl htest
  | .inList c l ls =>
    intro ref href _
    obtain rfl := List.mem_singleton.mp href
    simp only [conditionLexemes, all_writable_append] at hw
    have htest : checkTest schema (tables.map .text) c.toValue (.text "IN")
        (.list ((l :: ls).map Literal.toValue)) = .ok () := by
      rw [conditionVerdict, checkPlain] at h
      simpa [namesColumn] using h
    exact test_resolved _ (qualifier_named hw.1.1.1) rfl htest
  | .inQuery c q =>
    simp only [conditionLexemes, all_writable_append] at hw
    rw [conditionVerdict] at h
    intro ref href hchecked
    rcases List.mem_cons.mp href with rfl | href
    · cases hchecked
    · exact references_resolved q hw.1.2 h ref href hchecked
  | .connect l w r =>
    simp only [conditionLexemes, all_writable_append, all_writable_cons] at hw
    rw [conditionVerdict] at h
    obtain ⟨_, hl, hr⟩ := bind_ok.mp h
    intro ref href hchecked
    rcases List.mem_append.mp href with href | href
    · exact condition_resolved l hw.1 hl ref href hchecked
    · exact condition_resolved r hw.2.2 hr ref href hchecked

theorem clause_resolved {schema : Value} {tables : List String} {k : Keyword}
    (c? : Option Condition) (hw : AllWritable (clauseLexemes k c?))
    (h : clauseVerdict schema (tables.map .text) c? = .ok ()) :
    ∀ ref ∈ clauseReferences tables c?, ref.isChecked = true → ref.Resolved schema := by
  match c? with
  | none => exact fun ref href => nomatch href
  | some c => exact condition_resolved c (all_writable_cons.mp hw).2 h

theorem join_references_resolved {schema : Value} (s : Source Condition)
    (hw : AllWritable (sourceLexemes s)) (h : joinVerdict schema s = .ok ()) :
    ∀ ref ∈ joinReferences s, ref.isChecked = true → ref.Resolved schema := by
  match s with
  | .table a => exact fun ref href => nomatch href
  | .tables a b more => exact fun ref href => nomatch href
  | .join a b on => exact condition_resolved on (all_writable_append.mp hw).2 h

/-- In an accepted statement the references that checking looks for are resolved, also those of
the subqueries. -/
theorem references_resolved {schema : Value} (q : Statement Condition)
    (hw : AllWritable (statementLexemes q)) (h : verdict schema q = .ok ()) :
    ∀ ref ∈ references q, ref.isChecked = true → ref.Resolved schema := by
  match q with
  | ⟨items, source, condition?, groupBy, having?, orderBy, limit?⟩ =>
    have haccepts := verdict_ok.mp h
    have hparts := writable_parts hw
    intro ref href hchecked
    simp only [references, List.mem_append, List.mem_map] at href
    rcases href with ((href | href) | href) | ⟨o, -, rfl⟩
    · exact join_references_resolved source hparts.source haccepts.join ref href hchecked
    · exact clause_resolved condition? hparts.condition haccepts.condition ref href hchecked
    · exact clause_resolved having? hparts.having haccepts.having ref href hchecked
    · cases hchecked
end

/-- Of an accepted statement the references that checking looks for are resolved. All references
are in scope just if these name no table but the statement's own, and if the others, which are
never looked for, are in scope already. -/
theorem accepted_scope_exact {schema : Value} {text : String} {line : Nat} {q : Query}
    (hparse : Sql.parse text line = .ok q) (haccepted : Accepted schema q) :
    (∀ r ∈ references q, r.isChecked = true → r.Resolved schema) ∧
      ((∀ r ∈ references q, r.InScope schema) ↔
        ∀ r ∈ references q,
          (r.isChecked = true → r.Placed) ∧ (r.isChecked = false → r.InScope schema)) := by
  have hresolved := references_resolved q (parse_writable hparse) (accepted_iff.mp haccepted)
  refine ⟨hresolved, ?_, ?_⟩
  · intro h r hr
    exact ⟨fun _ => (h r hr).placed, fun _ => h r hr⟩
  · intro h r hr
    obtain ⟨hplaced, hscope⟩ := h r hr
    cases hchecked : r.isChecked with
    | true => exact (hresolved r hr hchecked).in_scope (hplaced hchecked)
    | false => exact hscope hchecked

/-- The ages of the oldest adults, by city. -/
def oldestAdults : Query :=
  ⟨.items (.column ⟨none, "city"⟩) [.aggregate (.call .max "age")], .table "users",
    some (.compare ⟨some "users", "id"⟩ .gt (.literal (.number 3))), ["city"],
    some (.aggregate (.call .max "age") .gt (.number 18)), [⟨"max_age", .asc⟩], none⟩

def oldestAdultsText : String :=
  "SELECT city, MAX(age) FROM users WHERE users.id > 3 GROUP BY city HAVING MAX(age) > 18 " ++
    "ORDER BY max_age;"

theorem accepted_scope_adults : Sql.parse oldestAdultsText 1 = .ok oldestAdults ∧
    Accepted shopSchema oldestAdults ∧ ∀ r ∈ references oldestAdults, r.InScope shopSchema := by
  have hparse : Sql.parse oldestAdultsText 1 = .ok oldestAdults :=
    parse_lexemes (lexemes_scanned_append ⟨rfl, rfl⟩) rfl
  have haccepted : Accepted shopSchema oldestAdults := rfl
  refine ⟨hparse, haccepted, (accepted_scope_exact hparse haccepted).2.mpr ?_⟩
  intro r hr
  have hrefs : references oldestAdults = [⟨.tested, ⟨some "users", "id"⟩, ["users"], []⟩,
    ⟨.aggregated, ⟨none, "age"⟩, ["users"], []⟩,
    ⟨.ordered, ⟨none, "max_age"⟩, ["users"], [(Aggregate.call .max "age").alias]⟩] := rfl
  rw [hrefs] at hr
  simp only [List.mem_cons, List.not_mem_nil, or_false] at hr
  rcases hr with rfl | rfl | rfl
  · refine ⟨fun _ t ht => ?_, (nomatch ·)⟩
    cases ht
    exact List.mem_singleton_self "users"
  · refine ⟨(nomatch ·), fun _ => .inl ?_⟩
    exact ⟨"users", List.mem_singleton_self _, .inl rfl, _, rfl, rfl⟩
  · refine ⟨(nomatch ·), fun _ => .inr ?_⟩
    have halias : "max_age" = (Aggregate.call .max "age").alias := by decide +kernel
    exact ⟨rfl, List.mem_singleton.mpr halias⟩

/-- Users by the amount of an order that is not asked for. -/
def strayAmounts : Query :=
  ⟨.items (.column ⟨none, "id"⟩) [], .table "users",
    some (.compare ⟨some "orders", "amount"⟩ .gt (.literal (.number 5))), [], none, [], none⟩

/-- A condition may name a table of the schema that is none of the statement's. -/
theorem scope_escaped :
    ¬ ∀ {schema : Value} {text : String} {line : Nat} {q : Query}, Sql.parse text line = .ok q →
      Accepted schema q → ∀ r ∈ references q, r.InScope schema := by
  intro hall
  have hparse : Sql.parse "SELECT id FROM users WHERE orders.amount > 5;" 1 = .ok strayAmounts :=
    parse_spelled ⟨rfl, rfl⟩ rfl
  have haccepted : Accepted shopSchema strayAmounts := rfl
  have hstray : (⟨.tested, ⟨some "orders", "amount"⟩, ["users"], []⟩ : Reference) ∈
    references strayAmounts := List.mem_singleton_self _
  have horders := (hall hparse haccepted _ hstray).placed "orders" rfl
  simp at horders

end DocQuery.Proofs
