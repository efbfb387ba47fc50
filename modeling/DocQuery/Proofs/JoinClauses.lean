import DocQuery.Proofs.CommaJoins
import DocQuery.Proofs.OneTable
import DocQuery.Proofs.SelectLists

namespace DocQuery.Proofs

open Sql Check
open Value (doc)

/-- The columns that are selected by themselves. -/
def plainColumns (xs : List SelectItem) : List ColumnRef :=
  xs.filterMap (fun
    | .column c => some c
    | .aggregate _ => none)

/-- The columns that the pipeline of a join shows; a star counts as a column of the base table. -/
def shownColumns (base : String) : SelectList → List ColumnRef
  | .all => [⟨some base, "*"⟩]
  | .items x xs => plainColumns (x :: xs)

/-- The join that a comparison of two columns is taken for. -/
def joiningOf (base joined : String) (c d : ColumnRef) : Joining :=
  ⟨base, (joinKeys base c d).1, joined, (joinKeys base c d).2⟩

theorem mem_plain_columns {c : ColumnRef} {xs : List SelectItem} :
    c ∈ plainColumns xs ↔ .column c ∈ xs := by
  constructor
  · intro hc
    obtain ⟨x, hx, hxc⟩ := List.mem_filterMap.mp hc
    cases x with
    | column d =>
      cases hxc
      exact hx
    | aggregate a => cases hxc
  · intro hc
    exact List.mem_filterMap.mpr ⟨.column c, hc, rfl⟩

/-- Steps that pass over aggregates see only the columns that are selected by themselves. -/
theorem fold_plain {ε σ : Type} {step : σ → Value → Except ε σ}
    (hskip : ∀ state a, step state (Aggregate.toValue a) = .ok state) (xs : List SelectItem)
    (state : σ) :
    (xs.map SelectItem.toValue).foldlM step state =
      ((plainColumns xs).map ColumnRef.toValue).foldlM step state := by
  induction xs generalizing state with
  | nil => rfl
  | cons x xs ih =>
    cases x with
    | column c =>
      have hplain : plainColumns (.column c :: xs) = c :: plainColumns xs := rfl
      rw [hplain, List.map_cons, List.map_cons, List.foldlM_cons, List.foldlM_cons]
      exact bind_congr ih
    | aggregate a =>
      have hplain : plainColumns (.aggregate a :: xs) = plainColumns xs := rfl
      rw [hplain, List.map_cons, List.foldlM_cons, ← ih state, SelectItem.toValue, hskip, ok_bind]

theorem moved_shown (base joined : String) (items : SelectList) :
    ∃ columns, items.toValue.items = .ok columns ∧
      Command.movedColumns (.text base) (.text joined) columns =
        .ok (putAll [] (movedFields joined (shownColumns base items)),
          putAll [] (shownFields (shownColumns base items))) := by
  cases items with
  | all =>
    have hstar : Command.tableAndField (fun _ => .ok (.text base)) (.text "*") =
      Command.tableAndField (fun _ => .ok (.text base)) (ColumnRef.toValue ⟨some base, "*"⟩) := rfl
    refine ⟨[.text "*"], rfl, ?_⟩
    rw [shownColumns, ← moved_columns_of (.text base), List.map_singleton]
    simp only [Command.movedColumns, List.foldlM_cons, hstar]
  | items x xs =>
    refine ⟨_, rfl, ?_⟩
    rw [Command.movedColumns, fold_plain (by rintro state (_ | _) <;> rfl), ← Command.movedColumns,
      moved_columns_of]
    rfl

/-- The pipeline of a join whose condition compares two columns, by whatever relation. -/
theorem clause_pipeline {q : Query} {base joined : String} {c d : ColumnRef} {r : Relation}
    {where? : Option Value} (hsource : q.source = .join base joined (.compare c r (.column d)))
    (hno : q.condition?.any asksQuery = false)
    (hwhere : ClauseFilter (some (.text base)) q.condition? where?) :
    Command.translate q.toValue = liftM (Command.pipelineCommand (.text base)
      (joinStages (joiningOf base joined c d) (shownColumns base q.items) where?)) := by
  obtain ⟨columns, hcolumns, hmoved⟩ := moved_shown base joined q.items
  rw [translate_of, hno, hsource]
  exact clause_join_of (j := joiningOf base joined c d) hsource rfl (join_fields_keys base c d)
    hcolumns hmoved hwhere

/-- The command of such a join. -/
theorem clause_command {q : Query} {base joined : String} {c d : ColumnRef} {r : Relation}
    (hnamed : Named q) (hsource : q.source = .join base joined (.compare c r (.column d)))
    (hno : q.condition?.any asksQuery = false) :
    ∃ string where?, ClauseFilter (some (.text base)) q.condition? where? ∧
      Command.translate q.toValue = .ok (pipelineDocument string (.text base)
        (joinStages (joiningOf base joined c d) (shownColumns base q.items) where?)) := by
  obtain ⟨where?, hwhere, htexts⟩ := clause_filter (some (.text base)) hnamed.condition
    fun c hc => by rwa [hc] at hno
  obtain ⟨string, hcommand⟩ := pipeline_command_shown base
    (literal_hereditary.join_stages (joiningOf base joined c d) (shownColumns base q.items) htexts)
  refine ⟨string, where?, hwhere, ?_⟩
  rw [clause_pipeline hsource hno hwhere]
  exact command_lift_ok.mpr hcommand

/-- Only documents hold something under a name. -/
theorem entry_of_document {v x : Value} {key : String} (h : v.entry key = .ok x) :
    ∃ es, v = .dict es := by
  cases v with
  | dict es => exact ⟨es, rfl⟩
  | _ => cases h

/-- Only a comparison of two columns gives the two fields of a join. -/
theorem columns_of_fields {base : String} {on : Condition} {l o r : Value} {fields : Value × Value}
    (hon : on.toValue = .comparison l o r)
    (h : Command.joinFields (.text base) l r = .ok fields) :
    ∃ c s d, on = .compare c s (.column d) := by
  simp only [Command.joinFields, bind_ok] at h
  obtain ⟨t, ht, h⟩ := h
  obtain ⟨x, hx⟩ : Succeeds (r.entry "column") := by
    split at h
    · simp only [bind_ok] at h
      obtain ⟨_, _, x, hx, _⟩ := h
      exact ⟨x, hx⟩
    · simp only [bind_ok] at h
      obtain ⟨x, hx, _⟩ := h
      exact ⟨x, hx⟩
  obtain ⟨left, rfl⟩ := entry_of_document ht
  obtain ⟨right, rfl⟩ := entry_of_document hx
  cases on with
  | compare c s x =>
    cases x with
    | column d => exact ⟨c, s, d, rfl⟩
    | literal v => cases v <;> simp [Condition.toValue, Operand.toValue, Literal.toValue] at hon
  | aggregate a s v => cases a <;> simp [Condition.toValue, Aggregate.toValue] at hon
  | between c low high => simp [Condition.toValue] at hon
  | inList c v vs => simp [Condition.toValue] at hon
  | inQuery c q =>
    obtain ⟨p, hp, -⟩ := statement_tree q
    simp [Condition.toValue, hp] at hon
  | connect x w y => simp [Condition.toValue] at hon

/-- A join with a command compares two columns. -/
theorem clause_columns {q : Query} {base joined : String} {on : Condition} {command : Value}
    (hsource : q.source = .join base joined on)
    (hno : q.condition?.any asksQuery = false)
    (h : Command.translate q.toValue = .ok command) :
    ∃ c r d, on = .compare c r (.column d) := by
  rw [translate_of, hno, hsource] at h
  obtain ⟨_, _, _, _, _, _, _, hon, hfields, -⟩ := clause_join_parts hsource h
  exact columns_of_fields hon hfields

/-- The only look-up of a pipeline is its first stage, by the fields of a join. -/
def LooksUpBy (j : Joining) (command : Value) : Prop :=
  ∃ rest, command.entry "pipeline" = .ok (.list
      (Command.lookupStage (.text j.joined) (.text j.key) (.text j.foreign) :: rest)) ∧
    ∀ s ∈ rest, ∀ body, s ≠ doc [("$lookup", body)]

theorem stages_look_up (string : String) (collection : Value) (j : Joining)
    (columns : List ColumnRef) (where? : Option Value) :
    LooksUpBy j (pipelineDocument string collection (joinStages j columns where?)) := by
  refine ⟨_, rfl, ?_⟩
  intro s hs body hbody
  have hmem : s ∈ [doc [("$unwind", .text ("$" ++ j.joined))]] ++
      (where?.map Command.matchStage).toList ++
      addStages (putAll [] (movedFields j.joined columns)) ++
      [Command.projectStage (putAll [] (shownFields columns))] := by
    simpa using hs
  simp only [List.mem_append, List.mem_singleton, addStages] at hmem
  rcases hmem with ((rfl | hs) | hs) | rfl
  · simp [doc] at hbody
  · obtain ⟨f, -, rfl⟩ : ∃ f, where? = some f ∧ Command.matchStage f = s := by simpa using hs
    simp [doc, Command.matchStage] at hbody
  · split at hs
    · cases hs
    · simp [List.mem_singleton.mp hs, doc] at hbody
  · simp [doc, Command.projectStage] at hbody

/-- A join by a column of each table is read as what it is. -/
theorem joined_on_fields {base key joined foreign : String} {on : Condition}
    (h : JoinedOn ⟨base, key, joined, foreign⟩ on) :
    ∃ c d, on = .compare c .eq (.column d) ∧ JoinedOn (joiningOf base joined c d) on := by
  cases h with
  | base =>
    refine ⟨_, _, rfl, ?_⟩
    rw [joiningOf, joinKeys, if_pos rfl]
    exact .base
  | joined =>
    refine ⟨_, _, rfl, ?_⟩
    -- If a table is joined with itself, then the first column counts as that of the base table.
    by_cases hne : joined = base
    · subst hne
      rw [joiningOf, joinKeys, if_pos rfl]
      exact .base
    · rw [joiningOf, joinKeys, if_neg (by simpa using hne)]
      exact .joined

/-- The sides of an accepted comparison of columns are columns of the tables that they name. -/
theorem sides_in_tables {schema : Value} {tables : List Value} {c d : ColumnRef} {r : Relation}
    {t u : String} (hc : c.table? = some t) (hd : d.table? = some u)
    (h : conditionVerdict schema tables (.compare c r (.column d)) = .ok ()) :
    ColumnIn schema t c.name ∧ ColumnIn schema u d.name := by
  have hjoin : checkJoin schema (optionalText c.table?, .text c.name)
      (optionalText d.table?, .text d.name) = .ok () := by
    rw [conditionVerdict] at h
    exact h
  rw [hc, hd] at hjoin
  obtain ⟨hleft, hright⟩ := join_resolved hjoin
  exact ⟨column_required hleft, column_required hright⟩

theorem joined_on_columns {schema : Value} {tables : List Value} {j : Joining} {on : Condition}
    (hj : JoinedOn j on) (h : conditionVerdict schema tables on = .ok ()) :
    ColumnIn schema j.base j.key ∧ ColumnIn schema j.joined j.foreign := by
  cases hj with
  | base => exact sides_in_tables rfl rfl h
  | joined => exact (sides_in_tables rfl rfl h).symm

/-- A command joins two tables by a column of each: the condition is their equality, and the
pipeline looks up by these columns. -/
structure JoinsBy (schema : Value) (j : Joining) (on : Condition) (command : Value) : Prop where
  condition : JoinedOn j on
  base : ColumnIn schema j.base j.key
  joined : ColumnIn schema j.joined j.foreign
  lookup : LooksUpBy j command

/-- An accepted join has a command just if its condition compares two columns. The pipeline then
looks up by these, whatever their tables and the relation are. So the command joins the two tables
just if the condition is an equality of a column of each. -/
theorem join_lookup_exact {schema : Value} {sql : String} {line : Nat} {q : Query}
    {base joined : String} {on : Condition} (hparse : Sql.parse sql line = .ok q)
    (haccepted : Accepted schema q) (hsource : q.source = .join base joined on)
    (hno : q.condition?.any asksQuery = false) :
    (Succeeds (Pipeline.command schema sql line) ↔ ∃ c r d, on = .compare c r (.column d)) ∧
    (∀ c r d, on = .compare c r (.column d) → ∃ command,
      Pipeline.command schema sql line = .ok command ∧
        LooksUpBy (joiningOf base joined c d) command) ∧
    ((∃ command key foreign, Pipeline.command schema sql line = .ok command ∧
        JoinsBy schema ⟨base, key, joined, foreign⟩ on command) ↔
      ∃ key foreign, JoinedOn ⟨base, key, joined, foreign⟩ on) := by
  have hlook : ∀ c r d, on = .compare c r (.column d) → ∃ command,
      Pipeline.command schema sql line = .ok command ∧
        LooksUpBy (joiningOf base joined c d) command := by
    rintro c r d rfl
    obtain ⟨string, where?, -, htranslate⟩ := clause_command (parse_named hparse) hsource hno
    exact ⟨_, command_accepted hparse haccepted htranslate, stages_look_up ..⟩
  refine ⟨⟨?_, ?_⟩, hlook, ⟨?_, ?_⟩⟩
  · rintro ⟨command, hcommand⟩
    obtain ⟨q', hq', -, htranslate⟩ := command_stages hcommand
    obtain rfl : q = q' := Except.ok.inj (hparse.symm.trans hq')
    exact clause_columns hsource hno htranslate
  · rintro ⟨c, r, d, hon⟩
    obtain ⟨command, hcommand, -⟩ := hlook c r d hon
    exact ⟨command, hcommand⟩
  · rintro ⟨command, key, foreign, -, hjoins⟩
    exact ⟨key, foreign, hjoins.condition⟩
  · rintro ⟨key, foreign, hon⟩
    obtain ⟨c, d, hcompare, hfields⟩ := joined_on_fields hon
    obtain ⟨command, hcommand, hlookup⟩ := hlook c .eq d hcompare
    have hverdict : joinVerdict schema q.source = .ok () :=
      (verdict_ok.mp (accepted_iff.mp haccepted)).join
    rw [hsource, joinVerdict] at hverdict
    obtain ⟨hbase, hjoined⟩ := joined_on_columns hfields hverdict
    exact ⟨command, _, _, hcommand, hfields, hbase, hjoined, hlookup⟩

/-- All amounts with the city of their user; the selected columns do not name their tables. -/
def openAmounts : Query :=
  ⟨.items (.column ⟨none, "city"⟩) [.column ⟨none, "amount"⟩],
    .join "users" "orders" (.compare ⟨some "users", "id"⟩ .eq (.column ⟨some "orders", "user_id"⟩)),
    none, [], none, [], none⟩

def openAmountsText : String :=
  "SELECT city, amount FROM users JOIN orders ON users.id = orders.user_id;"

theorem open_amounts_parsed : Sql.parse openAmountsText 1 = .ok openAmounts :=
  parse_spelled ⟨rfl, rfl⟩ rfl

theorem open_amounts_accepted : Accepted shopSchema openAmounts := by rfl

theorem join_lookup_amounts :
    Sql.parse openAmountsText 1 = .ok openAmounts ∧ Accepted shopSchema openAmounts ∧
      ∃ command, Pipeline.command shopSchema openAmountsText 1 = .ok command ∧
        LooksUpBy ⟨"users", "id", "orders", "user_id"⟩ command := by
  obtain ⟨-, hlook, -⟩ := join_lookup_exact open_amounts_parsed open_amounts_accepted rfl rfl
  exact ⟨open_amounts_parsed, open_amounts_accepted, hlook _ _ _ rfl⟩

/-- A join by the number of a user. -/
def fifthAmounts : Query :=
  ⟨.items (.column ⟨some "users", "city"⟩) [.column ⟨some "orders", "amount"⟩],
    .join "users" "orders" (.compare ⟨some "users", "id"⟩ .eq (.literal (.number 5))),
    none, [], none, [], none⟩

def fifthAmountsText : String :=
  "SELECT users.city, orders.amount FROM users JOIN orders ON users.id = 5;"

/-- The comparison of a column with a literal is accepted as the condition of a join. -/
theorem join_lookup_missing :
    ¬ ∀ (schema : Value) (sql : String) (line : Nat) (q : Query) (base joined : String)
        (on : Condition), Sql.parse sql line = .ok q → Accepted schema q →
        q.source = .join base joined on → q.condition?.any asksQuery = false → q.items ≠ .all →
        ∃ command key foreign, Pipeline.command schema sql line = .ok command ∧
          JoinsBy schema ⟨base, key, joined, foreign⟩ on command := by
  intro h
  have hparse : Sql.parse fifthAmountsText 1 = .ok fifthAmounts := parse_spelled ⟨rfl, rfl⟩ rfl
  have haccepted : Accepted shopSchema fifthAmounts := rfl
  obtain ⟨command, key, foreign, -, hjoins⟩ :=
    h _ _ _ _ _ _ _ hparse haccepted rfl rfl (by simp [fifthAmounts])
  obtain ⟨c, d, hcompare, -⟩ := joined_on_fields hjoins.condition
  cases hcompare

end DocQuery.Proofs
