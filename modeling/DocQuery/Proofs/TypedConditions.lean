import DocQuery.Proofs.OneTable
import DocQuery.Proofs.SelectLists

namespace DocQuery.Proofs

open Sql Check

/-- A check decides a property: it succeeds if the property holds, and fails for a reason in the
statement if it does not. -/
structure Decides (x : Except Check.Error Unit) (P : Prop) : Prop where
  accepts : P → x = .ok ()
  rejects : ¬ P → ∃ e, x = .error e ∧ Semantic e

namespace Decides

variable {x : Except Check.Error Unit} {P Q : Prop}

theorem ok_iff (h : Decides x P) : x = .ok () ↔ P := by
  refine ⟨fun hx => ?_, h.accepts⟩
  by_contra hP
  obtain ⟨e, he, -⟩ := h.rejects hP
  rw [he] at hx
  cases hx

theorem of_ok (h : x = .ok ()) (hP : P) : Decides x P := ⟨fun _ => h, fun hno => absurd hP hno⟩

theorem of_error {e : Check.Error} (h : x = .error e) (he : Semantic e) (hP : ¬ P) : Decides x P :=
  ⟨fun hyes => absurd hyes hP, fun _ => ⟨e, h, he⟩⟩

theorem congr (h : Decides x P) (hPQ : P ↔ Q) : Decides x Q :=
  ⟨fun hQ => h.accepts (hPQ.mpr hQ), fun hQ => h.rejects fun hP => hQ (hPQ.mp hP)⟩

/-- The second of two checks counts where the first one succeeds. -/
theorem and_then {next : Unit → Except Check.Error Unit} (h : Decides x P)
    (hnext : P → Decides (next ()) Q) : Decides (x >>= next) (P ∧ Q) := by
  constructor
  · rintro ⟨hP, hQ⟩
    rw [h.accepts hP]
    exact (hnext hP).accepts hQ
  · intro hno
    by_cases hP : P
    · rw [h.accepts hP]
      exact (hnext hP).rejects fun hQ => hno ⟨hP, hQ⟩
    · obtain ⟨e, he, hsemantic⟩ := h.rejects hP
      rw [he]
      exact ⟨e, rfl, hsemantic⟩

theorem for_each {α : Type} {g : α → Except Check.Error Unit} {R : α → Prop} {xs : List α}
    (h : ∀ a ∈ xs, Decides (g a) (R a)) : Decides (xs.forM g) (∀ a ∈ xs, R a) := by
  induction xs with
  | nil => exact ⟨fun _ => rfl, fun hno => absurd (by simp) hno⟩
  | cons a xs ih =>
    obtain ⟨ha, hxs⟩ := List.forall_mem_cons.mp h
    exact (ha.and_then fun _ => ih hxs).congr List.forall_mem_cons.symm

end Decides

/-- The name of a literal's type in a schema. -/
def Scalar.typeName : Scalar → String
  | int _ => "int"
  | text _ => "string"

/-- How a condition names the column that it compares: with its table, without it, or as a plain
text. -/
inductive Compared where
  | ofTable (table column : String) (named : table ≠ "")
  | unqualified (column : String)
  | plain (column : String)

namespace Compared

def column : Compared → String
  | ofTable _ c _ | unqualified c | plain c => c

def table? : Compared → Option String
  | ofTable t _ _ => some t
  | unqualified _ | plain _ => none

def toValue : Compared → Value
  | ofTable t c _ => ColumnRef.toValue ⟨some t, c⟩
  | unqualified c => ColumnRef.toValue ⟨none, c⟩
  | plain c => .text c

/-- A table in which the column is found: the one that it names, if this one has it, or the only
entry of the tables that has it. -/
def FoundIn (schema : Value) (tables : List String) (t : String) : Compared → Prop
  | ofTable u c _ => t = u ∧ ColumnIn schema u c
  | unqualified c | plain c => holdersOf schema tables c = [t]

theorem FoundIn.unique {schema : Value} {tables : List String} {t u : String} {c : Compared}
    (ht : c.FoundIn schema tables t) (hu : c.FoundIn schema tables u) : t = u := by
  cases c with
  | ofTable v c named => exact ht.1.trans hu.1.symm
  | unqualified c | plain c => exact List.singleton_inj.mp (Eq.trans (Eq.symm ht) hu)

end Compared

/-- A condition of any shape: comparisons of columns with literals, joined by whatever operators. -/
inductive LiteralCondition where
  | compare (column : Compared) (test : FieldTest)
  | connect (left : LiteralCondition) (operator : Value) (right : LiteralCondition)

namespace LiteralCondition

def toValue : LiteralCondition → Value
  | compare c t => .comparison c.toValue (.text t.operator) t.operand
  | connect l o r => .logical l.toValue o r.toValue

/-- The comparisons from left to right. -/
def leaves : LiteralCondition → List (Compared × FieldTest)
  | compare c t => [(c, t)]
  | connect l _ r => l.leaves ++ r.leaves

end LiteralCondition

/-- The column of a comparison is found, and has the type of each literal. -/
def WellTyped (schema : Value) (tables : List String) (leaf : Compared × FieldTest) : Prop :=
  ∃ t, leaf.1.FoundIn schema tables t ∧ ∀ v ∈ leaf.2.scalars,
    typeOf schema (.text t) (.text leaf.1.column) = .ok (.text v.typeName)

section

variable {type : String} (ht : type = "int" ∨ type = "string") (c : String)

include ht

theorem bound_decides (v : Scalar) :
    Decides (checkBound (.text c) (.text type) v.toValue) (v.typeName = type) := by
  rcases ht with rfl | rfl
  · cases v with
    | int n => exact .of_ok rfl rfl
    | text s => exact .of_error rfl (by simp [Semantic]) (by simp [Scalar.typeName])
  · cases v with
    | int n => exact .of_error rfl (by simp [Semantic]) (by simp [Scalar.typeName])
    | text s => exact .of_ok rfl rfl

omit ht in
theorem value_decides (v : Scalar) :
    Decides (checkValue (.text c) (.text type) v.toValue) (v.typeName = type) := by
  have htype : isType (.text type) (valueType v.toValue) = decide (v.typeName = type) := by
    cases v <;> simp [isType, valueType, Scalar.toValue, Value.isInt, Value.isText,
      Scalar.typeName, eq_comm, beq_eq_decide]
  by_cases h : v.typeName = type
  · refine .of_ok ?_ h
    simp [checkValue, htype, h]
  · refine .of_error (e := .valueType c type (valueType v.toValue)) ?_ (by simp [Semantic]) h
    simp [checkValue, htype, h]

/-- What stands beside a column is held against its type as a whole. -/
theorem operand_decides (test : FieldTest) :
    Decides (
      if (Value.text test.operator).same (.text "BETWEEN") then
        checkRange (.text c) (.text type) test.operand
      else if (Value.text test.operator).same (.text "IN") then
        checkMembers (.text c) (.text type) test.operand
      else checkValue (.text c) (.text type) test.operand)
    (∀ v ∈ test.scalars, v.typeName = type) := by
  cases test with
  | compare r v =>
    have hbetween :
        (Value.text (FieldTest.compare r v).operator).same (.text "BETWEEN") = false := by
      cases r <;> rfl
    have hin : (Value.text (FieldTest.compare r v).operator).same (.text "IN") = false := by
      cases r <;> rfl
    rw [hbetween, hin]
    exact (value_decides c v).congr (by simp [FieldTest.scalars])
  | between low high =>
    refine ((bound_decides ht c low).and_then fun _ => bound_decides ht c high).congr ?_
    simp [FieldTest.scalars]
  | among vs =>
    have hall : Decides ((vs.map Scalar.toValue).forM (checkBound (.text c) (.text type)))
        (∀ v ∈ vs, v.typeName = type) := by
      rw [List.forM_eq_forM, List.forM_map]
      exact .for_each fun v _ => bound_decides ht c v
    exact hall

end

theorem checked_tabular {schema : Value} (hs : Schema.check schema = .ok ()) : Tabular schema := by
  unfold Schema.check at hs
  split at hs
  · refine ⟨_, rfl, fun e he => ?_⟩
    obtain ⟨columns, hcolumns, -⟩ := tables_typed hs e he
    exact ⟨columns, hcolumns⟩
  · cases hs

/-- A table that is not in a schema has no columns in it. -/
theorem unknown_table {schema : Value} {t : String} (hs : Tabular schema)
    (ht : ¬ KnownTable schema t) :
    (Value.text t).isIn schema = .ok false ∧ ∀ c, ¬ ColumnIn schema t c := by
  obtain ⟨tables, rfl, -⟩ := hs
  have hhas : Entries.has tables (.text t) = false := by
    simpa [KnownTable, Value.isIn] using ht
  refine ⟨by simp [Value.isIn, hhas], ?_⟩
  rintro c ⟨columns, hindex, -⟩
  rw [has_eq_get, Option.isSome_eq_false_iff, Option.isNone_iff_eq_none] at hhas
  simp [Value.index, hhas] at hindex

theorem compared_column (c : Compared) :
    testedColumn c.toValue = (optionalText c.table?, .text c.column) := by
  cases c <;> rfl

section

variable {schema : Value} {tables : List String} (hs : Schema.check schema = .ok ())
  (hknown : ∀ t ∈ tables, KnownTable schema t)

include hs

theorem found_typed {c : Compared} {t : String} (h : c.FoundIn schema tables t) :
    ∃ type, typeOf schema (.text t) (.text c.column) = .ok (.text type) ∧
      (type = "int" ∨ type = "string") := by
  have hin : ColumnIn schema t c.column := by
    cases c with
    | ofTable u c named =>
      obtain ⟨rfl, hin⟩ := h
      exact hin
    | unqualified c | plain c =>
      have hmem : t ∈ holdersOf schema tables c := by
        rw [show holdersOf schema tables c = [t] from h]
        exact List.mem_singleton_self t
      exact (mem_holders.mp hmem).2
  exact column_typed hs hin

/-- A column is looked for in the table that it names, which may be any table of the schema. -/
theorem tested_named {t : String} (named : t ≠ "") (ts : List Value) (c : String) :
    (ColumnIn schema t c →
      testedType schema ts (.text t) (.text c) = liftM (typeOf schema (.text t) (.text c))) ∧
    (¬ ColumnIn schema t c →
      ∃ e, testedType schema ts (.text t) (.text c) = .error e ∧ Semantic e) := by
  have hpresent : (Value.text t).present = true := by simp [Value.present, named]
  rw [← has_column_iff]
  by_cases ht : KnownTable schema t
  · have hin : (Value.text t).isIn schema = .ok true := ht
    obtain ⟨columns, hindex⟩ := known_columns (checked_tabular hs) ht
    have hlook := column_looked_up (checked_tabular hs) ht c
    rw [hindex, ok_bind] at hlook
    simp only [testedType, hpresent, ↓reduceIte, requireTable, hin, hindex, hlook, check_lift,
      ok_bind, Bool.not_true, Bool.false_eq_true, pure_ok]
    cases hasColumn schema t c with
    | true => exact ⟨fun _ => rfl, fun hno => absurd rfl hno⟩
    | false =>
      exact ⟨fun h => absurd h (by decide), fun _ => ⟨.notInTable c t, rfl, by simp [Semantic]⟩⟩
  · obtain ⟨hin, hno⟩ := unknown_table (checked_tabular hs) ht
    refine ⟨fun h => absurd (has_column_iff.mp h) (hno c),
      fun _ => ⟨.noTable t, ?_, by simp [Semantic]⟩⟩
    simp only [testedType, hpresent, ↓reduceIte, requireTable, hin, check_lift, ok_bind,
      Bool.not_false, str_text]
    rfl

include hknown

/-- A column without a table is looked for in all tables, and must be in one entry only. -/
theorem tested_unnamed (c : String) :
    (∀ t, holdersOf schema tables c = [t] →
      testedType schema (tables.map .text) .null (.text c) =
        liftM (typeOf schema (.text t) (.text c))) ∧
    ((∀ t, holdersOf schema tables c ≠ [t]) →
      ∃ e, testedType schema (tables.map .text) .null (.text c) = .error e ∧ Semantic e) := by
  simp only [testedType, Value.present, Bool.false_eq_true, ↓reduceIte,
    owners_holders (checked_tabular hs) hknown c, check_lift, ok_bind]
  cases holdersOf schema tables c with
  | nil => exact ⟨fun t h => (by cases h), fun _ => ⟨.testedNowhere c, rfl, by simp [Semantic]⟩⟩
  | cons t ts =>
    cases ts with
    | nil =>
      refine ⟨fun u hu => ?_, fun hno => absurd rfl (hno t)⟩
      cases hu
      rfl
    | cons u ts =>
      exact ⟨fun t h => (by cases h), fun _ => ⟨.testedTwice c, rfl, by simp [Semantic]⟩⟩

/-- The type of a compared column is that of the column which is found. -/
theorem tested_compared (c : Compared) :
    (∀ t, c.FoundIn schema tables t →
      testedType schema (tables.map .text) (optionalText c.table?) (.text c.column) =
        liftM (typeOf schema (.text t) (.text c.column))) ∧
    ((∀ t, ¬ c.FoundIn schema tables t) →
      ∃ e, testedType schema (tables.map .text) (optionalText c.table?) (.text c.column) =
        .error e ∧ Semantic e) := by
  cases c with
  | ofTable u c named =>
    obtain ⟨hfound, hlost⟩ := tested_named hs named (tables.map .text) c
    refine ⟨?_, fun hno => hlost fun hin => hno u ⟨rfl, hin⟩⟩
    rintro t ⟨rfl, hin⟩
    exact hfound hin
  | unqualified c | plain c => exact tested_unnamed hs hknown c

/-- A comparison with literals without dots is no join: its column is looked for, and its literals
are held against the type. -/
theorem comparison_decides (c : Compared) (test : FieldTest)
    (hdots : ∀ s, .text s ∈ test.scalars → NoDot s) :
    Decides (checkPlain schema (tables.map .text) c.toValue (.text test.operator) test.operand)
      (WellTyped schema tables (c, test)) := by
  have hvalue : namesColumn test.operand = false := by
    cases test with
    | compare r v =>
      cases v with
      | int n => rfl
      | text s =>
        have hno : '.' ∉ s.toList := hdots s (List.mem_singleton_self _)
        simpa [namesColumn, FieldTest.operand, Scalar.toValue, Value.hasDot] using hno
    | between low high => rfl
    | among vs => rfl
  simp only [checkPlain, hvalue, Bool.and_false, Bool.false_eq_true, ↓reduceIte, checkTest,
    compared_column]
  obtain ⟨htested, hlost⟩ := tested_compared hs hknown c
  by_cases hfound : ∃ t, c.FoundIn schema tables t
  · obtain ⟨t, ht⟩ := hfound
    obtain ⟨type, htype, htypes⟩ := found_typed hs ht
    rw [htested t ht, htype, check_lift, ok_bind]
    refine (operand_decides htypes c.column test).congr ⟨fun h => ⟨t, ht, fun v hv => ?_⟩, ?_⟩
    · rw [h v hv]
      exact htype
    · rintro ⟨u, hu, hall⟩ v hv
      rw [ht.unique hu, hall v hv] at htype
      cases htype
      rfl
  · obtain ⟨e, he, hsemantic⟩ := hlost fun t ht => hfound ⟨t, ht⟩
    rw [he]
    refine .of_error rfl hsemantic ?_
    rintro ⟨t, ht, -⟩
    exact hfound ⟨t, ht⟩

omit hs hknown in
theorem connected_outcome (subquery : Value → Checked Value) (ts : List Value) (l o r : Value) :
    (checkCondition schema subquery ts (.logical l o r)).outcome = (do
      (checkCondition schema subquery ts l).outcome
      (checkCondition schema subquery ts r).outcome) := by
  rw [checkCondition]
  cases (checkCondition schema subquery ts l).outcome <;> rfl

theorem condition_decides (subquery : Value → Checked Value) (c : LiteralCondition)
    (hdots : ∀ leaf ∈ c.leaves, ∀ s, .text s ∈ leaf.2.scalars → NoDot s) :
    Decides (checkCondition schema subquery (tables.map .text) c.toValue).outcome
      (∀ leaf ∈ c.leaves, WellTyped schema tables leaf) := by
  induction c with
  | compare c test =>
    have hplain : isSubquery (.text test.operator) = false := by
      cases test with
      | compare r v => cases r <;> rfl
      | between low high => rfl
      | among vs => rfl
    rw [LiteralCondition.leaves, List.forall_mem_singleton] at hdots ⊢
    simp only [LiteralCondition.toValue, checkCondition, checkComparison, hplain,
      Bool.false_eq_true, ↓reduceIte]
    exact comparison_decides hs hknown c test hdots
  | connect l o r ihl ihr =>
    rw [LiteralCondition.leaves, List.forall_mem_append] at hdots ⊢
    rw [LiteralCondition.toValue, connected_outcome]
    exact (ihl hdots.1).and_then fun _ => ihr hdots.2

end

/-- The check of literals is exact. A condition over comparisons with literals without dots is
accepted just if at each of them the column is found and every literal has its type; and otherwise
the condition is at fault. -/
theorem literal_types_exact {schema : Value} {tables : List String}
    (hs : Schema.check schema = .ok ()) (hknown : ∀ t ∈ tables, KnownTable schema t)
    (subquery : Value → Checked Value) (c : LiteralCondition)
    (hdots : ∀ leaf ∈ c.leaves, ∀ s, .text s ∈ leaf.2.scalars → NoDot s) :
    let outcome := (checkCondition schema subquery (tables.map .text) c.toValue).outcome
    (outcome = .ok () ↔ ∀ leaf ∈ c.leaves, WellTyped schema tables leaf) ∧
      (outcome ≠ .ok () → ∃ e, outcome = .error e ∧ Semantic e) := by
  have hdecides := condition_decides hs hknown subquery c hdots
  exact ⟨hdecides.ok_iff, fun hno => hdecides.rejects (mt hdecides.ok_iff.mpr hno)⟩

/-- `users.age >= 18 AND (city IN ('Oslo', 'Bergen') OR amount BETWEEN 3 AND high)`. -/
def adultsNear (high : Scalar) : LiteralCondition :=
  .connect (.compare (.ofTable "users" "age" (by decide)) (.compare .ge (.int 18))) (.text "AND")
    (.connect (.compare (.unqualified "city") (.among [.text "Oslo", .text "Bergen"])) (.text "OR")
      (.compare (.plain "amount") (.between (.int 3) high)))

/-- The condition is accepted with a number as the end of the range, and not with a text. -/
theorem literal_types_exact_adults :
    let outcome (high : Scalar) := (checkCondition shopSchema .accept
      (["users", "orders"].map .text) (adultsNear high).toValue).outcome
    outcome (.int 5) = .ok () ∧
      (∀ leaf ∈ (adultsNear (.int 5)).leaves, WellTyped shopSchema ["users", "orders"] leaf) ∧
      ∃ e, outcome (.text "five") = .error e ∧ Semantic e := by
  have hs : Schema.check shopSchema = .ok () := rfl
  have hknown : ∀ t ∈ ["users", "orders"], KnownTable shopSchema t := by
    simpa using ⟨rfl, rfl⟩
  have hdots (high : Scalar) (hhigh : ∀ s, .text s = high → NoDot s) :
      ∀ leaf ∈ (adultsNear high).leaves, ∀ s, .text s ∈ leaf.2.scalars → NoDot s := by
    simpa [adultsNear, LiteralCondition.leaves, FieldTest.scalars, or_imp, forall_and] using
      ⟨⟨by decide, by decide⟩, hhigh⟩
  have hnumber := literal_types_exact hs hknown .accept _ (hdots (.int 5) (by simp))
  have htext := literal_types_exact hs hknown .accept _
    (hdots (.text "five") (by rintro s ⟨⟩; decide))
  exact ⟨rfl, hnumber.1.mp rfl, htext.2 (by decide)⟩

end DocQuery.Proofs
