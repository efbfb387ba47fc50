import DocQuery.Proofs.StageOrder
import DocQuery.Proofs.Verdicts
import Mathlib.Data.List.Forall2

namespace DocQuery.Proofs

open Sql Check

/-- Two literals that are both texts, or the same number. -/
inductive SameKind : Sql.Literal → Sql.Literal → Prop where
  | number : SameKind (.number n) (.number n)
  | text : SameKind (.text s) (.text s')

inductive OperandTexts : Operand → Operand → Prop where
  | column : OperandTexts (.column c) (.column c)
  | literal (h : SameKind l l') : OperandTexts (.literal l) (.literal l')

mutual
/-- Two conditions that differ only in texts. -/
inductive ConditionTexts : Condition → Condition → Prop where
  | compare (hx : OperandTexts x x') : ConditionTexts (.compare c r x) (.compare c r x')
  | aggregate (hl : SameKind l l') : ConditionTexts (.aggregate a r l) (.aggregate a r l')
  | between (hlow : SameKind low low') (hhigh : SameKind high high') :
      ConditionTexts (.between c low high) (.between c low' high')
  | inList (hl : SameKind l l') (hls : List.Forall₂ SameKind ls ls') :
      ConditionTexts (.inList c l ls) (.inList c l' ls')
  | inQuery (hq : StatementTexts q q') : ConditionTexts (.inQuery c q) (.inQuery c q')
  | connect (hl : ConditionTexts l l') (hr : ConditionTexts r r') :
      ConditionTexts (.connect l w r) (.connect l' w r')

inductive ClauseTexts : Option Condition → Option Condition → Prop where
  | none : ClauseTexts none none
  | some (hc : ConditionTexts c c') : ClauseTexts (some c) (some c')

inductive SourceTexts : Source Condition → Source Condition → Prop where
  | table : SourceTexts (.table a) (.table a)
  | tables : SourceTexts (.tables a b more) (.tables a b more)
  | join (hc : ConditionTexts on on') : SourceTexts (.join a b on) (.join a b on')

/-- Two statements that differ only in texts. -/
inductive StatementTexts : Query → Query → Prop where
  | mk {q q' : Query} (items : q.items = q'.items) (source : SourceTexts q.source q'.source)
      (condition : ClauseTexts q.condition? q'.condition?) (groupBy : q.groupBy = q'.groupBy)
      (having : ClauseTexts q.having? q'.having?) (orderBy : q.orderBy = q'.orderBy)
      (limit : q.limit? = q'.limit?) : StatementTexts q q'
end

/-- A text can be compared with a column: one without a dot if the column holds texts, and one with
a dot if it names a column that the other can be joined with. -/
def TextFits (schema : Value) (tables : List Value) (c : ColumnRef) (s : String) : Prop :=
  if Value.hasDot s then
    ∃ right, Value.dotted s = .ok right ∧
      checkJoin schema (optionalText c.table?, .text c.name) right = .ok ()
  else
    ∃ type, testedType schema tables (optionalText c.table?) (.text c.name) = .ok type ∧
      isType type "string" = true

section

variable (P : List Value → ColumnRef → String → Prop) (Q : SelectOf Value → Prop)

mutual
/-- All comparisons of a column with a text in a condition have a property, and all subqueries
another one. -/
def ConditionTests (tables : List Value) : Condition → Prop
  | .compare c _ (.literal (.text s)) => P tables c s
  | .inQuery _ q => StatementTests q
  | .connect l _ r => ConditionTests tables l ∧ ConditionTests tables r
  | _ => True

def ClauseTests (tables : List Value) : Option Condition → Prop
  | none => True
  | some c => ConditionTests tables c

def SourceTests : Source Condition → Prop
  | .join a b on => ConditionTests [.text a, .text b] on
  | _ => True

def StatementTests : Statement Condition → Prop
  | ⟨items, source, condition?, groupBy, having?, orderBy, limit?⟩ =>
    SourceTests source ∧ ClauseTests (tableValues source) condition? ∧
      ClauseTests (tableValues source) having? ∧
      Q (partsOf ⟨items, source, condition?, groupBy, having?, orderBy, limit?⟩)
end

theorem statement_tests (q : Query) : StatementTests P Q q ↔ SourceTests P Q q.source ∧
    ClauseTests P Q (tableValues q.source) q.condition? ∧
    ClauseTests P Q (tableValues q.source) q.having? ∧ Q (partsOf q) := by
  obtain ⟨items, source, condition?, groupBy, having?, orderBy, limit?⟩ := q
  rfl

end

def Dotless (_ : List Value) (_ : ColumnRef) (s : String) : Prop := Value.hasDot s = false

/-- Where two tables are listed, some comparison joins them: one with a column, or with a text that
is taken for one. -/
def Paired (p : SelectOf Value) : Prop := pairVerdict p = .ok ()

/-- No text that a column is compared with has a dot. -/
def Undotted : Query → Prop := StatementTests Dotless (fun _ => True)

/-- All texts that columns are compared with fit. -/
def TextsFit (schema : Value) : Query → Prop := StatementTests (TextFits schema) Paired

/-- What is accepted of a comparison with a text. -/
theorem compare_text {schema : Value} {tables : List Value} {c : ColumnRef} {r : Relation}
    {s : String} : conditionVerdict schema tables (.compare c r (.literal (.text s))) = .ok () ↔
      TextFits schema tables c s := by
  have hnames : (namesColumn c.toValue && namesColumn (.text s)) = Value.hasDot s := rfl
  simp only [conditionVerdict, checkPlain, TextFits, Operand.toValue, Literal.toValue, hnames]
  by_cases hdot : Value.hasDot s = true
  · have hleft : sideOf c.toValue = .ok (optionalText c.table?, .text c.name) := rfl
    have hright : sideOf (.text s) = Value.dotted s := rfl
    simp only [hdot, ↓reduceIte, hleft, hright, check_lift, ok_bind, bind_ok, check_lift_ok]
  · have hrange : (Relation.toValue r).same (.text "BETWEEN") = false := by cases r <;> rfl
    have hlist : (Relation.toValue r).same (.text "IN") = false := by cases r <;> rfl
    have htype : valueType (.text s) = "string" := rfl
    simp only [hdot, Bool.false_eq_true, ↓reduceIte, checkTest, tested_ref, hrange, hlist, bind_ok,
      checkValue, htype]
    constructor
    · rintro ⟨type, htested, h⟩
      refine ⟨type, htested, ?_⟩
      by_contra hno
      simp [hno, bind_ok] at h
    · rintro ⟨type, htested, hstring⟩
      exact ⟨type, htested, by simp [hstring]⟩

mutual
theorem condition_fits {schema : Value} {tables : List Value} (c : Condition)
    (h : conditionVerdict schema tables c = .ok ()) :
    ConditionTests (TextFits schema) Paired tables c := by
  match c with
  | .compare c r (.column d) => exact True.intro
  | .compare c r (.literal (.number n)) => exact True.intro
  | .compare c r (.literal (.text s)) => exact compare_text.mp h
  | .aggregate a r l => exact True.intro
  | .between c low high => exact True.intro
  | .inList c l ls => exact True.intro
  | .inQuery c q =>
    rw [conditionVerdict] at h
    exact texts_fit q h
  | .connect l w r =>
    rw [conditionVerdict] at h
    obtain ⟨_, hl, hr⟩ := bind_ok.mp h
    exact ⟨condition_fits l hl, condition_fits r hr⟩

theorem clause_fits {schema : Value} {tables : List Value} (c? : Option Condition)
    (h : clauseVerdict schema tables c? = .ok ()) :
    ClauseTests (TextFits schema) Paired tables c? := by
  match c? with
  | none => exact True.intro
  | some c => exact condition_fits c h

theorem source_fits {schema : Value} (s : Source Condition) (h : joinVerdict schema s = .ok ()) :
    SourceTests (TextFits schema) Paired s := by
  match s with
  | .table a => exact True.intro
  | .tables a b more => exact True.intro
  | .join a b on => exact condition_fits on h

/-- In an accepted statement the texts fit. -/
theorem texts_fit {schema : Value} (q : Statement Condition) (h : verdict schema q = .ok ()) :
    TextsFit schema q := by
  match q with
  | ⟨items, source, condition?, groupBy, having?, orderBy, limit?⟩ =>
    have haccepts := verdict_ok.mp h
    exact ⟨source_fits source haccepts.join, clause_fits condition? haccepts.condition,
      clause_fits having? haccepts.having, haccepts.pair⟩
end

/-- A bound is checked for its type, not for its text. -/
theorem check_bound_kind {l l' : Sql.Literal} (h : SameKind l l') (column type : Value) :
    checkBound column type l.toValue = checkBound column type l'.toValue := by
  cases h with
  | number => rfl
  | text => rfl

theorem check_members_kind {ls ls' : List Sql.Literal} (h : List.Forall₂ SameKind ls ls')
    (column type : Value) : checkMembers column type (.list (ls.map Literal.toValue)) =
      checkMembers column type (.list (ls'.map Literal.toValue)) := by
  simp only [checkMembers, List.forM_eq_forM]
  induction h with
  | nil => rfl
  | cons hl _ ih =>
    simp only [List.map_cons, List.forM_cons, check_bound_kind hl, ih]

theorem source_texts_tables {s s' : Source Condition} (h : SourceTexts s s') :
    sourceNames s = sourceNames s' ∧ sourceTable s = sourceTable s' := by
  cases h <;> exact ⟨rfl, rfl⟩

theorem clause_texts_some {c? c?' : Option Condition} (h : ClauseTexts c? c?') :
    c?.isSome = c?'.isSome := by
  cases h <;> rfl

/-- What texts do not matter for. -/
theorem accepts_transfer {schema : Value} {q q' : Query} (h : StatementTexts q q')
    (ha : Accepts schema q) (hjoin : joinVerdict schema q'.source = .ok ())
    (hcondition : clauseVerdict schema (tableValues q'.source) q'.condition? = .ok ())
    (hpair : pairVerdict (partsOf q') = .ok ())
    (hhaving : clauseVerdict schema (tableValues q'.source) q'.having? = .ok ()) :
    Accepts schema q' := by
  obtain ⟨hitems, hsource, hsome, hgroup, hsome', -, -⟩ := h
  obtain ⟨hnames, htable⟩ := source_texts_tables hsource
  have htables : allTables (partsOf q) = allTables (partsOf q') := by
    rw [all_tables_of (parts_tree q), all_tables_of (parts_tree q'), hnames]
  have hcolumns : (partsOf q).columns = (partsOf q').columns := by rw [partsOf, partsOf, hitems]
  have hgroups : (partsOf q).groupBy = (partsOf q').groupBy := by rw [partsOf, partsOf, hgroup]
  have hbase : baseTable (partsOf q) = baseTable (partsOf q') := by
    rw [baseTable, baseTable, htables]
  constructor
  case tables =>
    have h := ha.tables
    rwa [checkTables, htables] at h
  case selected =>
    rw [← (check_selected_alike htables rfl hcolumns schema).1]
    exact ha.selected
  case filtered =>
    have h := ha.filtered
    have hpaired : (partsOf q).table = (partsOf q').table := htable
    rwa [← Option.not_isSome, clause_texts_some hsome, Option.not_isSome, hpaired] at h
  case grouped =>
    have h := ha.grouped
    rwa [clause_texts_some hsome', hgroup] at h
  case groups =>
    have h := ha.groups
    rwa [checkGroups, hgroups, hbase, hcolumns] at h
  case join => exact hjoin
  case condition => exact hcondition
  case pair => exact hpair
  case having => exact hhaving

mutual
theorem condition_transfer {schema : Value} {tables : List Value} (c : Condition) {c' : Condition}
    (h : ConditionTexts c c') (ha : conditionVerdict schema tables c = .ok ())
    (hf : ConditionTests (TextFits schema) Paired tables c') :
    conditionVerdict schema tables c' = .ok () := by
  match c with
  | .compare c r x =>
    cases h with
    | compare hx =>
      cases hx with
      | column => exact ha
      | literal hl =>
        cases hl with
        | number => exact ha
        | text => exact compare_text.mpr hf
  | .aggregate a r l =>
    cases h
    exact aggregate_verdict ..
  | .between c low high =>
    cases h with
    | between hlow hhigh =>
      rw [between_verdict] at ha ⊢
      simpa only [checkRange, check_bound_kind hlow, check_bound_kind hhigh] using ha
  | .inList c l ls =>
    cases h with
    | inList hl hls =>
      rw [in_list_verdict] at ha ⊢
      simpa only [check_members_kind (.cons hl hls)] using ha
  | .inQuery c q =>
    cases h with
    | inQuery hq =>
      rw [conditionVerdict] at ha ⊢
      exact statement_transfer q hq ha hf
  | .connect l w r =>
    cases h with
    | connect hl hr =>
      rw [conditionVerdict] at ha ⊢
      obtain ⟨_, hal, har⟩ := bind_ok.mp ha
      exact bind_ok.mpr ⟨(), condition_transfer l hl hal hf.1, condition_transfer r hr har hf.2⟩
termination_by structural c

theorem clause_transfer {schema : Value} {tables : List Value} (c? : Option Condition)
    {c?' : Option Condition} (h : ClauseTexts c? c?')
    (ha : clauseVerdict schema tables c? = .ok ())
    (hf : ClauseTests (TextFits schema) Paired tables c?') :
    clauseVerdict schema tables c?' = .ok () := by
  match c? with
  | none =>
    cases h
    rfl
  | some c =>
    cases h with
    | some hc => exact condition_transfer c hc ha hf
termination_by structural c?

theorem source_transfer {schema : Value} (s : Source Condition) {s' : Source Condition}
    (h : SourceTexts s s') (ha : joinVerdict schema s = .ok ())
    (hf : SourceTests (TextFits schema) Paired s') :
    joinVerdict schema s' = .ok () := by
  match s with
  | .table a =>
    cases h
    rfl
  | .tables a b more =>
    cases h
    rfl
  | .join a b on =>
    cases h with
    | join hc => exact condition_transfer on hc ha hf
termination_by structural s

/-- If a statement is accepted, so is any with other texts, if these fit. -/
theorem statement_transfer {schema : Value} (q : Statement Condition) {q' : Query}
    (h : StatementTexts q q') (ha : verdict schema q = .ok ()) (hf : TextsFit schema q') :
    verdict schema q' = .ok () := by
  match q with
  | ⟨items, source, condition?, groupBy, having?, orderBy, limit?⟩ =>
    have haccepts := verdict_ok.mp ha
    obtain ⟨hfsource, hfcondition, hfhaving, hfpair⟩ := (statement_tests _ _ q').mp hf
    have htexts := h
    obtain ⟨-, hsource, hcondition, -, hhaving, -, -⟩ := h
    have hvalues : tableValues source = tableValues q'.source := by
      rw [tableValues, tableValues, (source_texts_tables hsource).1]
    apply verdict_ok.mpr
    apply accepts_transfer htexts haccepts
    · exact source_transfer source hsource haccepts.join hfsource
    · exact clause_transfer condition? hcondition (hvalues ▸ haccepts.condition) hfcondition
    · exact hfpair
    · exact clause_transfer having? hhaving (hvalues ▸ haccepts.having) hfhaving
termination_by structural q
end

/-- A comparison with what is no column is no join. -/
theorem join_found_none {i o v : Value} (hv : Check.columnOf v = .ok none) :
    (joinFound (.comparison i o v)).map Option.isSome = (Check.columnOf i).map fun _ => false := by
  rw [joinFound, splitJoin, joinOf]
  cases Check.columnOf i with
  | error f => rfl
  | ok left? =>
    cases left? with
    | none => rfl
    | some left =>
      rw [hv]
      rfl

theorem join_found_either (l o r : Value) : (joinFound (.logical l o r)).map Option.isSome = (do
    let left ← (joinFound l).map Option.isSome
    let right ← (joinFound r).map Option.isSome
    return left || right) := by
  rw [join_found_connected]
  cases joinFound l with
  | error f => rfl
  | ok left =>
    cases joinFound r with
    | error f => rfl
    | ok right => cases left <;> rfl

/-- Texts without dots do not matter for a join. -/
theorem join_found_texts {c c' : Condition} {tables tables' : List Value}
    (h : ConditionTexts c c')
    (hu : ConditionTests Dotless (fun _ => True) tables c)
    (hu' : ConditionTests Dotless (fun _ => True) tables' c') :
    (joinFound c.toValue).map Option.isSome = (joinFound c'.toValue).map Option.isSome := by
  have hplain : ∀ s, Value.hasDot s = false →
      Check.columnOf (Operand.literal (.text s)).toValue = .ok none := by
    intro s hs
    simp [Operand.toValue, Literal.toValue, Check.columnOf, hs]
  have hquery : ∀ q : Query, Check.columnOf (statementValue q) = .ok none := by
    intro q
    rw [show statementValue q = .select (partsOf q) from statement_parts q]
    rfl
  cases h with
  | compare hx =>
    cases hx with
    | column => rfl
    | literal hl =>
      cases hl with
      | number => rfl
      | text =>
        rw [Condition.toValue, Condition.toValue, join_found_none (hplain _ hu),
          join_found_none (hplain _ hu')]
  | @aggregate _ _ a => cases a <;> rfl
  | between =>
    rw [Condition.toValue, Condition.toValue, join_found_none rfl, join_found_none rfl]
  | inList =>
    rw [Condition.toValue, Condition.toValue, join_found_none rfl, join_found_none rfl]
  | @inQuery q q' =>
    rw [Condition.toValue, Condition.toValue, join_found_none (hquery q),
      join_found_none (hquery q')]
  | connect hl hr =>
    rw [Condition.toValue, Condition.toValue, join_found_either, join_found_either,
      join_found_texts hl hu.1 hu'.1, join_found_texts hr hu.2 hu'.2]

theorem pair_texts {q q' : Query} (h : StatementTexts q q') (hu : Undotted q) (hu' : Undotted q')
    (hpair : pairVerdict (partsOf q) = .ok ()) : pairVerdict (partsOf q') = .ok () := by
  obtain ⟨-, hsource, hcondition, -, -, -, -⟩ := h
  have htable : (partsOf q).table = (partsOf q').table := (source_texts_tables hsource).2
  obtain ⟨-, hcu, -, -⟩ := (statement_tests _ _ q).mp hu
  obtain ⟨-, hcu', -, -⟩ := (statement_tests _ _ q').mp hu'
  have hfound : (joinFound (partsOf q).condition).map Option.isSome =
      (joinFound (partsOf q').condition).map Option.isSome := by
    simp only [partsOf]
    generalize q.condition? = c? at hcondition hcu
    generalize q'.condition? = c?' at hcondition hcu'
    cases hcondition with
    | none => rfl
    | some hc => exact join_found_texts hc hcu hcu'
  rw [pair_ok, htable, hfound] at hpair
  exact pair_ok.mpr hpair

mutual
theorem condition_refits {schema : Value} {tables : List Value} (c : Condition) {c' : Condition}
    (h : ConditionTexts c c')
    (hu : ConditionTests Dotless (fun _ => True) tables c)
    (hu' : ConditionTests Dotless (fun _ => True) tables c')
    (ha : conditionVerdict schema tables c = .ok ()) :
    ConditionTests (TextFits schema) Paired tables c' := by
  match c with
  | .compare c r x =>
    cases h with
    | compare hx =>
      cases hx with
      | column => exact True.intro
      | literal hl =>
        cases hl with
        | number => exact True.intro
        | @text s s' =>
          have hfits := compare_text.mp ha
          have hdot : Value.hasDot s = false := hu
          have hdot' : Value.hasDot s' = false := hu'
          rw [TextFits, hdot] at hfits
          rw [ConditionTests, TextFits, hdot']
          exact hfits
  | .aggregate a r l =>
    cases h
    exact True.intro
  | .between c low high =>
    cases h
    exact True.intro
  | .inList c l ls =>
    cases h
    exact True.intro
  | .inQuery c q =>
    cases h with
    | inQuery hq =>
      rw [conditionVerdict] at ha
      exact statement_refits q hq hu hu' ha
  | .connect l w r =>
    cases h with
    | connect hl hr =>
      rw [conditionVerdict] at ha
      obtain ⟨_, hal, har⟩ := bind_ok.mp ha
      exact ⟨condition_refits l hl hu.1 hu'.1 hal, condition_refits r hr hu.2 hu'.2 har⟩
termination_by structural c

theorem clause_refits {schema : Value} {tables : List Value} (c? : Option Condition)
    {c?' : Option Condition} (h : ClauseTexts c? c?')
    (hu : ClauseTests Dotless (fun _ => True) tables c?)
    (hu' : ClauseTests Dotless (fun _ => True) tables c?')
    (ha : clauseVerdict schema tables c? = .ok ()) :
    ClauseTests (TextFits schema) Paired tables c?' := by
  match c? with
  | none =>
    cases h
    exact True.intro
  | some c =>
    cases h with
    | some hc => exact condition_refits c hc hu hu' ha
termination_by structural c?

theorem source_refits {schema : Value} (s : Source Condition) {s' : Source Condition}
    (h : SourceTexts s s')
    (hu : SourceTests Dotless (fun _ => True) s)
    (hu' : SourceTests Dotless (fun _ => True) s')
    (ha : joinVerdict schema s = .ok ()) :
    SourceTests (TextFits schema) Paired s' := by
  match s with
  | .table a =>
    cases h
    exact True.intro
  | .tables a b more =>
    cases h
    exact True.intro
  | .join a b on =>
    cases h with
    | join hc => exact condition_refits on hc hu hu' ha
termination_by structural s

/-- Texts without dots fit where others do. -/
theorem statement_refits {schema : Value} (q : Statement Condition) {q' : Query}
    (h : StatementTexts q q') (hu : Undotted q) (hu' : Undotted q')
    (ha : verdict schema q = .ok ()) : TextsFit schema q' := by
  match q with
  | ⟨items, source, condition?, groupBy, having?, orderBy, limit?⟩ =>
    have haccepts := verdict_ok.mp ha
    have hpair := pair_texts h hu hu' haccepts.pair
    obtain ⟨husource, hucondition, huhaving, -⟩ := hu
    obtain ⟨husource', hucondition', huhaving', -⟩ := (statement_tests _ _ q').mp hu'
    obtain ⟨-, hsource, hcondition, -, hhaving, -, -⟩ := h
    have hvalues : tableValues source = tableValues q'.source := by
      rw [tableValues, tableValues, (source_texts_tables hsource).1]
    rw [hvalues] at hucondition huhaving
    refine (statement_tests _ _ q').mpr ⟨?_, ?_, ?_, hpair⟩
    · exact source_refits source hsource husource husource' haccepts.join
    · exact clause_refits condition? hcondition hucondition hucondition'
        (hvalues ▸ haccepts.condition)
    · exact clause_refits having? hhaving huhaving huhaving' (hvalues ▸ haccepts.having)
termination_by structural q
end

theorem SameKind.symm {l l' : Sql.Literal} (h : SameKind l l') : SameKind l' l := by
  cases h <;> constructor

mutual
theorem condition_texts_symm (c : Condition) {c' : Condition} (h : ConditionTexts c c') :
    ConditionTexts c' c := by
  match c with
  | .compare c r x =>
    cases h with
    | compare hx =>
      cases hx with
      | column => exact .compare .column
      | literal hl => exact .compare (.literal hl.symm)
  | .aggregate a r l =>
    cases h with
    | aggregate hl => exact .aggregate hl.symm
  | .between c low high =>
    cases h with
    | between hlow hhigh => exact .between hlow.symm hhigh.symm
  | .inList c l ls =>
    cases h with
    | inList hl hls => exact .inList hl.symm (hls.flip.imp fun _ _ => SameKind.symm)
  | .inQuery c q =>
    cases h with
    | inQuery hq => exact .inQuery (statement_texts_symm q hq)
  | .connect l w r =>
    cases h with
    | connect hl hr => exact .connect (condition_texts_symm l hl) (condition_texts_symm r hr)
termination_by structural c

theorem clause_texts_symm (c? : Option Condition) {c?' : Option Condition}
    (h : ClauseTexts c? c?') : ClauseTexts c?' c? := by
  match c? with
  | none =>
    cases h
    exact .none
  | some c =>
    cases h with
    | some hc => exact .some (condition_texts_symm c hc)
termination_by structural c?

theorem source_texts_symm (s : Source Condition) {s' : Source Condition} (h : SourceTexts s s') :
    SourceTexts s' s := by
  match s with
  | .table a =>
    cases h
    exact .table
  | .tables a b more =>
    cases h
    exact .tables
  | .join a b on =>
    cases h with
    | join hc => exact .join (condition_texts_symm on hc)
termination_by structural s

theorem statement_texts_symm (q : Statement Condition) {q' : Query} (h : StatementTexts q q') :
    StatementTexts q' q := by
  match q with
  | ⟨items, source, condition?, groupBy, having?, orderBy, limit?⟩ =>
    obtain ⟨hitems, hsource, hcondition, hgroup, hhaving, horder, hlimit⟩ := h
    exact ⟨hitems.symm, source_texts_symm source hsource, clause_texts_symm condition? hcondition,
      hgroup.symm, clause_texts_symm having? hhaving, horder.symm, hlimit.symm⟩
termination_by structural q
end

/-- Of two statements that differ only in texts, one is accepted just if the other is, if no text
that a column is compared with has a dot. In general they are accepted alike just if all their texts
fit as soon as one of them is accepted. -/
theorem texts_acceptance_exact {schema : Value} {q q' : Query} (h : StatementTexts q q') :
    (Undotted q → Undotted q' → (Accepted schema q ↔ Accepted schema q')) ∧
      ((Accepted schema q ↔ Accepted schema q') ↔
        (Accepted schema q ∨ Accepted schema q' → TextsFit schema q ∧ TextsFit schema q')) := by
  have hsymm := statement_texts_symm q h
  rw [accepted_iff, accepted_iff]
  refine ⟨fun hu hu' => ⟨fun ha => ?_, fun ha => ?_⟩, fun hiff hone => ?_, fun hfit => ⟨?_, ?_⟩⟩
  · exact statement_transfer q h ha (statement_refits q h hu hu' ha)
  · exact statement_transfer q' hsymm ha (statement_refits q' hsymm hu' hu ha)
  · have ha : verdict schema q = .ok () := hone.elim id hiff.mpr
    exact ⟨texts_fit q ha, texts_fit q' (hiff.mp ha)⟩
  · intro ha
    exact statement_transfer q h ha (hfit (.inl ha)).2
  · intro ha
    exact statement_transfer q' hsymm ha (hfit (.inr ha)).1

/-- The users of a city. -/
def usersOf (city : String) : Query :=
  ⟨.items (.column ⟨none, "id"⟩) [], .table "users",
    some (.compare ⟨none, "city"⟩ .eq (.literal (.text city))), [], none, [], none⟩

theorem users_texts (city city' : String) : StatementTexts (usersOf city) (usersOf city') :=
  ⟨rfl, .table, .some (.compare (.literal .text)), rfl, .none, rfl, rfl⟩

theorem texts_acceptance_rome : StatementTexts (usersOf "Rome") (usersOf "New York") ∧
    Undotted (usersOf "Rome") ∧ Undotted (usersOf "New York") ∧
    (Accepted shopSchema (usersOf "Rome") ↔ Accepted shopSchema (usersOf "New York")) := by
  have hrome : Undotted (usersOf "Rome") := ⟨trivial, rfl, trivial, trivial⟩
  have hyork : Undotted (usersOf "New York") := ⟨trivial, rfl, trivial, trivial⟩
  exact ⟨users_texts _ _, hrome, hyork,
    (texts_acceptance_exact (users_texts "Rome" "New York")).1 hrome hyork⟩

/-- A city whose name has a dot is not accepted. -/
theorem dotted_city_rejected :
    ¬ ∀ {schema : Value} {text text' t : String} {q q' : Query}, Schema.check schema = .ok () →
      Sql.parse text 1 = .ok q → Sql.parse text' 1 = .ok q' → q.source = .table t →
      StatementTexts q q' → (Accepted schema q ↔ Accepted schema q') := by
  intro hall
  have hrome : Sql.parse "SELECT id FROM users WHERE city = 'Rome';" 1 = .ok (usersOf "Rome") :=
    parse_spelled ⟨rfl, rfl⟩ rfl
  have hlouis : Sql.parse "SELECT id FROM users WHERE city = 'St. Louis';" 1 =
    .ok (usersOf "St. Louis") := parse_spelled ⟨rfl, rfl⟩ rfl
  have haccepted : Accepted shopSchema (usersOf "Rome") := rfl
  have hrejected := (hall rfl hrome hlouis rfl (users_texts _ _)).mp haccepted
  cases hrejected

end DocQuery.Proofs
