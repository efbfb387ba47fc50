import DocQuery.Proofs.JoinedPlaces

namespace DocQuery.Proofs

open Sql Check
open Value (doc)

/-- A command shows only some fields: as its projection, or in a stage. -/
def Projects (command : Value) (fields : Entries) : Prop :=
  command.entry "projection" = .ok (.dict fields) ∨
    ∃ stages, command.entry "pipeline" = .ok (.list stages) ∧
      Command.projectStage fields ∈ stages

/-- A projection removes nothing at a path. -/
def Retains (fields : Entries) (path : List String) : Prop :=
  ∀ d, valueAt (.dict (project fields d)) path = valueAt (.dict d) path

/-- Where the columns of the tables of a statement are: at the top those of the base table, and
below its name those of any other one. -/
inductive ColumnPlace (schema : Value) (s : Source Condition) : List String → Prop where
  | base {c : String} (h : ColumnIn schema (baseName s) c) : ColumnPlace schema s [c]
  | joined {t c : String} (ht : t ∈ (sourceNames s).tail) (h : ColumnIn schema t c) :
      ColumnPlace schema s [t, c]

/-- No projection of a command removes a column. -/
def ReturnsColumns (schema : Value) (s : Source Condition) (command : Value) : Prop :=
  ∀ fields, Projects command fields → ∀ path, ColumnPlace schema s path → Retains fields path

/-- A place that is shown when only the field called as the star is. -/
def UnderStar (path : List String) : Prop := path.head? = some "_id" ∨ path.head? = some "*"

/-- The statements that select all columns and have a command: on one table, with a join by two
columns, or with a condition that only asks a query for a column of one table or of a join. -/
inductive Translated (q : Query) : Prop where
  | one {t : String} (hsource : q.source = .table t) (hno : q.condition?.any asksQuery = false)
  | join {a b : String} {c d : ColumnRef} {r : Relation}
      (hsource : q.source = .join a b (.compare c r (.column d)))
      (hno : q.condition?.any asksQuery = false)
  | member {x : ColumnRef} {inner : Query} {c : ColumnRef} {cs : List SelectItem}
      (hcondition : q.condition? = some (.inQuery x inner))
      (hfirst : inner.items = .items (.column c) cs)
      (hinner : ∀ a b more, inner.source ≠ .tables a b more)

/-- The projection that a star is taken for. -/
def starFields : Entries := [(.text "*", .int 1)]

/-- Of the fields before a projection only `_id` is kept. -/
theorem get_retained (d : Entries) (name : String) :
    Entries.get? (d.filter (·.1.same (.text "_id"))) (.text name) =
      if name = "_id" then Entries.get? d (.text name) else none := by
  rw [Entries.get?, List.find?_filter]
  split
  · subst name
    simp [Entries.get?]
  · rename_i hname
    rw [Option.map_eq_none_iff, List.find?_eq_none]
    intro e he hboth
    obtain ⟨hid, hsame⟩ : e.1.same (.text "_id") = true ∧ e.1.same (.text name) = true := by
      simpa using hboth
    have hnames := (eq_text_of_same hsame).symm.trans (eq_text_of_same hid)
    exact hname (Value.text.inj hnames)

theorem get_star (d : Entries) (name : String) :
    Entries.get? (project starFields d) (.text name) =
      if name = "_id" ∨ name = "*" then Entries.get? d (.text name) else none := by
  have hdot : NoDot "*" := by decide
  have hproject : project starFields d = putField (d.filter (·.1.same (.text "_id"))) (.text "*")
      (Entries.get? d (.text "*")) := by
    rw [← field_at_name d hdot]
    rfl
  rw [hproject]
  by_cases hstar : name = "*"
  · subst name
    cases h : Entries.get? d (.text "*") with
    | none => simp [putField, get_retained]
    | some v => simp [put_field_name _ hdot, get_put]
  · have hother : Entries.get? (putField (d.filter (·.1.same (.text "_id"))) (.text "*")
        (Entries.get? d (.text "*"))) (.text name) =
          Entries.get? (d.filter (·.1.same (.text "_id"))) (.text name) := by
      cases Entries.get? d (.text "*") with
      | none => rfl
      | some v => rw [put_field_name _ hdot, get_put, if_neg (Ne.symm hstar)]
    rw [hother, get_retained]
    simp [hstar]

/-- What a projection to the star leaves of a document. -/
theorem star_retains {path : List String} (hpath : path ≠ []) :
    Retains starFields path ↔ UnderStar path := by
  obtain ⟨name, rest, rfl⟩ := List.exists_cons_of_ne_nil hpath
  have hunder : UnderStar (name :: rest) ↔ name = "_id" ∨ name = "*" := by simp [UnderStar]
  rw [hunder]
  constructor
  · intro h
    by_contra hno
    -- Nothing is left of a document that has only this path.
    have hshows := put_path_shows [] hpath (.int 1)
    rw [← h (putPath [] (name :: rest) (.int 1)), valueAt, get_star, if_neg hno] at hshows
    cases hshows
  · intro hname d
    rw [valueAt, valueAt, get_star, if_pos hname]

/-- A pipeline that takes the star for a column returns only what is under it. -/
theorem star_pipeline {schema : Value} {s : Source Condition} {string : String}
    {collection : Value} {stages : List Value} {moved : List (String × Value)}
    (hshape : stages.filter isShaping = shapeStages moved ["*"]) :
    ReturnsColumns schema s (pipelineDocument string collection stages) ↔
      ∀ path, ColumnPlace schema s path → UnderStar path := by
  have hprojects : ∀ fields, Projects (pipelineDocument string collection stages) fields ↔
      fields = starFields := by
    intro fields
    have hshaping : Command.projectStage fields ∈ stages ↔ fields = starFields := by
      have hfilter := @shape_projects moved ["*"] fields
      rw [← hshape, List.mem_filter] at hfilter
      exact ⟨fun h => hfilter.mp ⟨h, rfl⟩, fun h => (hfilter.mpr h).1⟩
    rw [← hshaping]
    constructor
    · rintro (h | ⟨_, hstages, h⟩)
      · cases h
      · cases hstages
        exact h
    · intro h
      exact .inr ⟨stages, rfl, h⟩
  have hplace : ∀ {path}, ColumnPlace schema s path → path ≠ [] := by
    rintro path (_ | _) <;> simp
  constructor
  · intro h path hpath
    exact (star_retains (hplace hpath)).mp (h _ ((hprojects _).mpr rfl) path hpath)
  · intro h fields hfields path hpath
    obtain rfl := (hprojects _).mp hfields
    exact (star_retains (hplace hpath)).mpr (h path hpath)

/-- No rows are grouped where all columns are selected. -/
theorem star_ungrouped {schema : Value} {q : Query} (hnamed : Named q) (hstar : q.items = .all)
    (h : checkGroups schema (partsOf q) = .ok ()) : groupsRows q = false := by
  have hgroup : q.groupBy = [] := by
    by_contra hgroup
    obtain ⟨-, vs, hvs, hgrouped⟩ := groups_accepted (parts_tree q) hgroup h
    exact (selected_grouped hnamed.groupBy hvs hgrouped).1 hstar
  simp [groupsRows, hgroup, hstar, selectedItems, selectedAggregates]

/-- The table of a star is looked for, and no schema is known, where tables are listed. -/
theorem comma_star {q : Query} {a b : String} {more : List String} (hstar : q.items = .all)
    (hsource : q.source = .tables a b more) (command : Value) :
    Command.commaJoin (some (textList (a :: b :: more))) none (partsOf q) ≠ .ok command := by
  intro h
  obtain ⟨_, _, _, _, _, columns, shown, -, -, -, hitems, hshown, -⟩ := comma_pipeline hsource h
  rw [hstar] at hitems
  cases hitems
  cases hshown

/-- The documents of one table are found with all their fields. -/
theorem find_star {schema : Value} {s : Source Condition} {base? : Option Value} {q : Query}
    {command : Value} (hstar : q.items = .all)
    (h : Command.findCommand base? (partsOf q) = .ok command) :
    ReturnsColumns schema s command := by
  rintro fields (hfields | ⟨stages, hstages, -⟩)
  · obtain ⟨parts, string, rfl, -, -, -, -, hprojection⟩ := find_command_parts h
    have hnull : Command.projection (partsOf q).columns = .ok .null := by
      simp only [partsOf, hstar]
      rfl
    have hentry : (parts.toValue string).entry "projection" = .ok parts.projection := rfl
    rw [hentry, ← Except.ok.inj (hnull.symm.trans hprojection)] at hfields
    cases hfields
  · exact absurd hstages (find_no_pipeline h _)

/-- The command of a membership that selects all columns. -/
theorem subquery_star {q inner : Query} {x : ColumnRef} (hstar : q.items = .all)
    (hcondition : q.condition? = some (.inQuery x inner)) :
    Command.subqueryCommand (partsOf q) = (do
      let first ← inner.items.toValue.index (.int 0)
      let column ← first.entry "column"
      let found ← Value.entryOf (sourceTable inner.source) (doc [("$ne", .list [])])
      Command.pipelineCommand (sourceTable q.source)
        [Command.lookupStage (sourceTable inner.source) (.text x.name) column,
          Command.matchStage found, Command.projectStage starFields]) := by
  have hcolumns : (partsOf q).columns = .list [.text "*"] := by
    simp only [partsOf, hstar]
    rfl
  rw [Command.subqueryCommand, asked_condition hcondition, hcolumns]
  rfl

/-- A condition that asks a query has a command only if it asks nothing else. -/
theorem member_star {q : Query} {command : Value} (hstar : q.items = .all)
    (hasks : q.condition?.any asksQuery = true)
    (h : Command.translate q.toValue = .ok command) :
    Translated q ∧ ∃ string collection stages, command = pipelineDocument string collection stages ∧
      stages.filter isShaping = shapeStages [] ["*"] := by
  rw [translate_of, hasks, if_pos rfl, command_lift_ok] at h
  obtain ⟨w, hw, hquery⟩ := Option.any_eq_true _ _ |>.mp hasks
  have hpart : (partsOf q).condition = w.toValue := by simp [partsOf, hw, optionalCondition]
  have hcolumns : (partsOf q).columns.items = .ok [.text "*"] := by
    simp only [partsOf, hstar]
    rfl
  obtain ⟨x, inner, t, c, cs, columns, shown, rfl, ht, hitems, hlisted, hshown, h⟩ :=
    subquery_pipeline hpart hquery h
  obtain rfl := Except.ok.inj (hcolumns.symm.trans hlisted)
  cases hshown
  obtain ⟨string, rfl, -, -⟩ := pipeline_command_parts h
  refine ⟨.member hw hitems ?_, _, _, _, rfl, rfl⟩
  intro a b more hsource
  rw [hsource] at ht
  cases ht

theorem source_table_text (s : Source Condition) : Succeeds (sourceTable s).str := by
  cases s with
  | table a => exact .ok _
  | join a b on => exact .ok _
  | tables a b more =>
    refine map_error_succeeds.mpr (literal_list_succeeds.mpr ?_)
    rw [List.forall_mem_map]
    exact fun t _ => .ok _

theorem member_star_succeeds {q inner : Query} {x c : ColumnRef} {cs : List SelectItem}
    (hstar : q.items = .all) (hcondition : q.condition? = some (.inQuery x inner))
    (hfirst : inner.items = .items (.column c) cs)
    (hinner : ∀ a b more, inner.source ≠ .tables a b more) :
    Succeeds (Command.translate q.toValue) := by
  have hasks : q.condition?.any asksQuery = true := by
    rw [hcondition]
    rfl
  obtain ⟨t, ht⟩ : ∃ t, sourceTable inner.source = .text t := by
    cases hs : inner.source with
    | table a => exact ⟨a, rfl⟩
    | join a b on => exact ⟨a, rfl⟩
    | tables a b more => exact absurd hs (hinner a b more)
  have hshown := member_stages_shown ⟨baseName q.source, x.name, t, c.name⟩ [⟨none, "*"⟩]
  have hstages : Succeeds (Value.list _).repr :=
    map_error_succeeds.mpr (literal_list_succeeds.mpr hshown)
  have hindex : (SelectList.items (.column c) cs).toValue.index (.int 0) = .ok c.toValue := rfl
  have hentry : c.toValue.entry "column" = .ok (.text c.name) := rfl
  rw [translate_of, hasks, if_pos rfl, subquery_star hstar hcondition, hfirst, ht, hindex, ok_bind,
    hentry, ok_bind, entry_of_text, ok_bind]
  apply command_lift_succeeds
  exact .bind (source_table_text q.source) fun _ => .bind hstages fun _ => .ok _

/-- The selected columns of a join that selects all. -/
theorem clause_star {q : Query} {a b : String} {c d : ColumnRef} {r : Relation} (hnamed : Named q)
    (hstar : q.items = .all) (hsource : q.source = .join a b (.compare c r (.column d)))
    (hno : q.condition?.any asksQuery = false) :
    ∃ string stages moved, Command.translate q.toValue =
        .ok (pipelineDocument string (.text a) stages) ∧
      stages.filter isShaping = shapeStages moved ["*"] := by
  obtain ⟨string, where?, -, htranslate⟩ := clause_command hnamed hsource hno
  rw [hstar, join_stages_behind] at htranslate
  exact ⟨string, _, _, htranslate, shape_behind (comma_front a b c d where?) _ _⟩

theorem condition_filter (base? : Option Value) {q : Query} (hnamed : Named q)
    (hno : q.condition?.any asksQuery = false) :
    ∃ f, Command.filterOf base? (partsOf q).condition = .ok f ∧
      Succeeds (Command.shellText f) := by
  cases hc : q.condition? with
  | none =>
    refine ⟨.dict [], ?_, .ok _⟩
    simp [partsOf, hc, optionalCondition, Command.filterOf, Value.present]
  | some c =>
    have hcondition : (partsOf q).condition = c.toValue := by
      simp [partsOf, hc, optionalCondition]
    obtain ⟨f, hf, -, htext⟩ := comb_filter base? (hnamed.condition c hc)
      (by simpa [hc] using hno)
    exact ⟨f, by rw [hcondition, filter_of_present, hf], htext⟩

theorem star_succeeds {q : Query} (hnamed : Named q) (hstar : q.items = .all)
    (hgroups : groupsRows q = false) (h : Translated q) :
    Succeeds (Command.translate q.toValue) := by
  cases h with
  | @one t hsource hno =>
    obtain ⟨f, hf, htext⟩ := condition_filter (some (.text t)) hnamed hno
    rw [translate_of, hno, hsource, hgroups]
    exact find_succeeds hsource hgroups hf htext
  | join hsource hno =>
    obtain ⟨string, stages, moved, htranslate, -⟩ := clause_star hnamed hstar hsource hno
    exact ⟨_, htranslate⟩
  | member hcondition hfirst hinner => exact member_star_succeeds hstar hcondition hfirst hinner

/-- What the command of a statement that selects all columns returns. -/
theorem star_returns {schema command : Value} {q : Query} (hnamed : Named q)
    (hstar : q.items = .all) (hgroups : groupsRows q = false)
    (h : Command.translate q.toValue = .ok command) :
    Translated q ∧ (ReturnsColumns schema q.source command ↔
      ((∃ t, q.source = .table t) ∧ q.condition?.any asksQuery = false) ∨
        ∀ path, ColumnPlace schema q.source path → UnderStar path) := by
  cases hno : q.condition?.any asksQuery with
  | true =>
    obtain ⟨htranslated, string, collection, stages, rfl, hshape⟩ := member_star hstar hno h
    exact ⟨htranslated, by simp [star_pipeline hshape]⟩
  | false =>
    cases hs : q.source with
    | table t =>
      rw [translate_of, hno, hs, hgroups] at h
      exact ⟨.one hs hno, iff_of_true (find_star hstar h) (.inl ⟨⟨t, rfl⟩, rfl⟩)⟩
    | join a b on =>
      obtain ⟨c, r, d, rfl⟩ := clause_columns hs hno h
      obtain ⟨string, stages, moved, hjoin, hshape⟩ := clause_star hnamed hstar hs hno
      obtain rfl := Except.ok.inj (hjoin.symm.trans h)
      exact ⟨.join hs hno, by simp [star_pipeline hshape]⟩
    | tables a b more =>
      rw [translate_of, hno, hs] at h
      exact absurd h (comma_star hstar hs command)

/-- A statement that selects all columns has a command on one table, with a join by two columns, and
with a condition that only asks a query. The command returns all columns on one table if no query is
asked. All others show what is called as the star, and `_id`. -/
theorem star_columns_exact {schema : Value} {sql : String} {line : Nat} {q : Query}
    (hparse : Sql.parse sql line = .ok q) (haccepted : Accepted schema q)
    (hstar : q.items = .all) :
    (Succeeds (Pipeline.command schema sql line) ↔ Translated q) ∧
    ∀ command, Pipeline.command schema sql line = .ok command →
      (ReturnsColumns schema q.source command ↔
        ((∃ t, q.source = .table t) ∧ q.condition?.any asksQuery = false) ∨
          ∀ path, ColumnPlace schema q.source path → UnderStar path) := by
  have hnamed := parse_named hparse
  have hgroups := star_ungrouped hnamed hstar (verdict_ok.mp (accepted_iff.mp haccepted)).groups
  have htranslate : ∀ command, Pipeline.command schema sql line = .ok command →
      Command.translate q.toValue = .ok command := by
    intro command hcommand
    obtain ⟨q', hq', -, htranslate⟩ := command_stages hcommand
    obtain rfl : q = q' := Except.ok.inj (hparse.symm.trans hq')
    exact htranslate
  refine ⟨⟨?_, ?_⟩, fun command h => (star_returns hnamed hstar hgroups (htranslate command h)).2⟩
  · rintro ⟨command, h⟩
    exact (@star_returns schema _ _ hnamed hstar hgroups (htranslate command h)).1
  · intro h
    obtain ⟨command, hcommand⟩ := star_succeeds hnamed hstar hgroups h
    exact ⟨command, command_accepted hparse haccepted hcommand⟩

/-- All columns of the users above an age. -/
def adultUsers : Query :=
  ⟨.all, .table "users", some (.compare ⟨none, "age"⟩ .gt (.literal (.number 18))), [], none, [],
    none⟩

def adultUsersText : String := "SELECT * FROM users WHERE age > 18;"

theorem star_columns_adults :
    Sql.parse adultUsersText 1 = .ok adultUsers ∧ Accepted shopSchema adultUsers ∧
      ∃ command, Pipeline.command shopSchema adultUsersText 1 = .ok command ∧
        ReturnsColumns shopSchema adultUsers.source command := by
  have hparse : Sql.parse adultUsersText 1 = .ok adultUsers := parse_spelled ⟨rfl, rfl⟩ rfl
  have haccepted : Accepted shopSchema adultUsers := by rfl
  obtain ⟨hsucceeds, hreturns⟩ := star_columns_exact hparse haccepted rfl
  obtain ⟨command, hcommand⟩ := hsucceeds.mpr (.one rfl rfl)
  exact ⟨hparse, haccepted, command, hcommand,
    (hreturns command hcommand).mpr (.inl ⟨⟨"users", rfl⟩, rfl⟩)⟩

/-- All columns of the users and their orders. -/
def allOrders : Query :=
  ⟨.all,
    .join "users" "orders" (.compare ⟨some "users", "id"⟩ .eq (.column ⟨some "orders", "user_id"⟩)),
    none, [], none, [], none⟩

def allOrdersText : String := "SELECT * FROM users JOIN orders ON users.id = orders.user_id;"

/-- The pipeline of a join removes all columns when all are selected. -/
theorem star_columns_removed :
    ¬ ∀ (schema : Value) (sql : String) (line : Nat) (q : Query),
        Schema.check schema = .ok () → Sql.parse sql line = .ok q → Accepted schema q →
        q.items = .all →
        (∀ a b on, q.source = .join a b on → ∃ key foreign, JoinedOn ⟨a, key, b, foreign⟩ on) →
        ∃ command, Pipeline.command schema sql line = .ok command ∧
          ReturnsColumns schema q.source command := by
  intro h
  have hparse : Sql.parse allOrdersText 1 = .ok allOrders := parse_spelled ⟨rfl, rfl⟩ rfl
  have haccepted : Accepted shopSchema allOrders := by rfl
  have hequality : ∀ a b on, allOrders.source = .join a b on →
      ∃ key foreign, JoinedOn ⟨a, key, b, foreign⟩ on := by
    intro a b on hsource
    cases hsource
    exact ⟨"id", "user_id", .base⟩
  obtain ⟨string, stages, moved, htranslate, hshape⟩ := clause_star (parse_named hparse) rfl rfl rfl
  obtain ⟨command, hcommand, hreturns⟩ := h _ _ _ _ rfl hparse haccepted rfl hequality
  have hjoin := command_accepted hparse haccepted htranslate
  obtain rfl := Except.ok.inj (hjoin.symm.trans hcommand)
  have hplace : ColumnPlace shopSchema allOrders.source ["city"] := .base (has_column_iff.mp rfl)
  have hunder := (star_pipeline hshape).mp hreturns _ hplace
  simp [UnderStar] at hunder

end DocQuery.Proofs
