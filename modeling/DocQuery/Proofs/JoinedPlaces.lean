import DocQuery.Proofs.JoinClauses
import DocQuery.Proofs.Projections
import DocQuery.Proofs.Subqueries

namespace DocQuery.Proofs

open Sql Check
open Value (doc)

/-- The path of a column below the name of the joined table. -/
def belowName (joined name : String) : String := joined ++ "." ++ name

/-- The stages that shape the output take a column from a path. They show it under its own name, or
below that of the joined table. -/
def TakesColumn (stages : List Value) (joined name path : String) : Prop :=
  ∃ shown, (shown = name ∨ shown = belowName joined name) ∧
    TakesFrom (stages.filter isShaping) shown path

/-- The pipeline takes a column from where it was found: from the field with its name, if this was
in the base table, and from the one below the joined table's name, if it was in that table. -/
structure AgreesOn (base joined : String) (stages : List Value) (c : ColumnRef) (p : Place) :
    Prop where
  base : p.table = base → TakesColumn stages joined c.name c.name
  joined : p.table = joined → TakesColumn stages joined c.name (belowName joined c.name)

/-- The path from which a pipeline takes a column, by the table that the column names. -/
def namedPath (joined : String) (c : ColumnRef) : String :=
  if c.table? = some joined then belowName joined c.name else c.name

/-- The same for a statement that may ask a query: its pipeline then shows no joined documents. -/
def sourcePath (q : Query) (joined : String) (c : ColumnRef) : String :=
  if q.condition?.any asksQuery then c.name else namedPath joined c

theorem named_path_cases (joined : String) (c : ColumnRef) :
    namedPath joined c = c.name ∨ namedPath joined c = belowName joined c.name := by
  unfold namedPath
  split
  · exact .inr rfl
  · exact .inl rfl

theorem below_dotted (joined name : String) : ¬ NoDot (belowName joined name) := by
  simp [NoDot, belowName]

theorem below_ne {joined name : String} (hn : NoDot name) : name ≠ belowName joined name :=
  fun h => below_dotted joined name (h ▸ hn)

/-- If just one field can stand for a column, and it is taken from one path, then the column is
taken from no other one. -/
theorem takes_column_iff {stages : List Value} {moved : List (String × Value)}
    {shown : List String} {joined name key source path : String} (hj : NoDot joined)
    (hn : NoDot name) (hshape : stages.filter isShaping = shapeStages moved shown)
    (hkey : key = name ∨ key = belowName joined name)
    (hlisted : ∀ k, k = name ∨ k = belowName joined name → k ∈ shown → k = key)
    (hsource : source = name ∨ source = belowName joined name)
    (htakes : TakesFrom (shapeStages moved shown) key source)
    (hpath : path = name ∨ path = belowName joined name) :
    TakesColumn stages joined name path ↔ path = source := by
  rw [TakesColumn, hshape]
  constructor
  · rintro ⟨k, hk, hfrom⟩
    obtain rfl := hlisted k hk (shape_listed.mp hfrom.listed)
    -- A document that holds different values at the two paths tells them apart.
    obtain ⟨d, v, w, hv, hw, hne⟩ := below_differs hj hn
    by_contra hdiffer
    rcases hpath with rfl | rfl
    · rcases hsource with rfl | rfl
      · exact hdiffer rfl
      · exact hne (takes_same hfrom htakes hv hw)
    · rcases hsource with rfl | rfl
      · exact hne (takes_same hfrom htakes hw hv).symm
      · exact hdiffer rfl
  · rintro rfl
    exact ⟨key, hkey, htakes⟩

section

variable {joined : String} {columns : List ColumnRef} (hnames : ∀ c ∈ columns, NoDot c.name)
  (honce : ∀ c ∈ columns, ∀ d ∈ columns, c.name = d.name → c = d)

include hnames

/-- A projection of names shows a column under its name only. -/
theorem names_listed {name k : String} (hk : k = name ∨ k = belowName joined name)
    (h : k ∈ columns.map ColumnRef.name) : k = name := by
  rcases hk with rfl | rfl
  · rfl
  · obtain ⟨d, hd, he⟩ := List.mem_map.mp h
    exact absurd (he ▸ hnames d hd) (below_dotted joined name)

include honce

/-- A projection of paths shows a column under its own path only. -/
theorem paths_listed {c : ColumnRef} (hc : c ∈ columns) {k : String}
    (hk : k = c.name ∨ k = belowName joined c.name)
    (h : k ∈ columns.map (namedPath joined)) : k = namedPath joined c := by
  obtain ⟨d, hd, rfl⟩ := List.mem_map.mp h
  have hsame : d.name = c.name := by
    unfold namedPath at hk
    split at hk
    · rcases hk with hk | hk
      · exact absurd (hk ▸ hnames c hc) (below_dotted joined d.name)
      · simpa [belowName] using hk
    · rcases hk with hk | hk
      · exact hk
      · exact absurd (hk ▸ hnames d hd) (below_dotted joined c.name)
  rw [honce d hd c hc hsame]

/-- What is moved to the top is found under its name, and nothing else is hidden by it. -/
theorem moved_added {c : ColumnRef} (hc : c ∈ columns) {d : Entries} {v : Value}
    (hv : fieldAt? d (namedPath joined c) = some v) :
    fieldAt? (addFields (putAll [] (movedFields joined columns)) d) c.name = some v := by
  have hsame : ∀ x ∈ columns, x.name = c.name → x.table? = some joined → c.table? = some joined :=
    fun x hx he htable => honce x hx c hc he ▸ htable
  rw [field_at_name _ (hnames c hc), get_moved hnames hc hsame]
  unfold namedPath at hv
  split
  · rw [if_pos ‹_›, belowName] at hv
    rw [hv, Option.some_or]
  · rwa [if_neg ‹_›, field_at_name _ (hnames c hc)] at hv

end

/-- Additions and a projection shape the output, whatever comes before them. -/
theorem shape_behind {front : List Value} (hfront : ∀ s ∈ front, isShaping s = false)
    (moved : List (String × Value)) (shown : List String) :
    (front ++ shapeStages moved shown).filter isShaping = shapeStages moved shown := by
  have hshape : ∀ s ∈ shapeStages moved shown, isShaping s = true := by
    intro s hs
    rw [shapeStages, List.mem_append, List.mem_singleton] at hs
    rcases hs with hs | rfl
    · unfold addStages at hs
      split at hs
      · cases hs
      · rw [List.mem_singleton.mp hs]
        rfl
    · rfl
  rw [List.filter_append, List.filter_eq_nil_iff.mpr fun s hs => by simp [hfront s hs],
    List.nil_append, List.filter_eq_self.mpr hshape]

theorem shown_fields (columns : List ColumnRef) :
    shownFields columns = (columns.map ColumnRef.name).map (·, .int 1) := by
  simp [shownFields]

/-- The projection of a list of tables shows a column that names the second one below its name. -/
theorem join_columns_of (bare : String → Except Command.Error Value) (joined : String)
    (xs : List SelectItem) :
    Command.joinColumns bare (.text joined) (xs.map SelectItem.toValue) =
      .ok (putAll [] (((plainColumns xs).map (namedPath joined)).map (·, .int 1))) := by
  rw [Command.joinColumns, fold_plain (by rintro state (_ | _) <;> rfl), List.foldlM_map,
    List.map_map]
  refine insert_all (namedPath joined) (fun _ => .int 1) (plainColumns xs) _ (fun es c => ?_) []
  have hfield : Command.tableAndField bare c.toValue =
    .ok (some (optionalText c.table?, .text c.name)) := rfl
  by_cases hc : c.table? = some joined
  · simp [hfield, Command.showColumn, optionalText, hc, namedPath, belowName, Command.one]
  · simp [hfield, Command.showColumn, qualifier_same, hc, namedPath, Value.insert, Command.one]

theorem comma_front (base joined : String) (c d : ColumnRef) (filter? : Option Value) :
    ∀ s ∈ commaStages base joined c d filter?, isShaping s = false := by
  intro s hs
  rcases List.mem_append.mp hs with hs | hs
  · rcases List.mem_pair.mp hs with rfl | rfl <;> rfl
  · obtain ⟨f, -, rfl⟩ : ∃ f, filter? = some f ∧ Command.matchStage f = s := by simpa using hs
    rfl

theorem join_stages_behind (base joined : String) (c d : ColumnRef) (columns : List ColumnRef)
    (where? : Option Value) : joinStages (joiningOf base joined c d) columns where? =
      commaStages base joined c d where? ++
        shapeStages (movedFields joined columns) (columns.map ColumnRef.name) := by
  rw [joinStages, shown_fields, shapeStages, ← List.append_assoc]
  rfl

/-- A pipeline takes each column that is selected by itself from just one of its paths. -/
def TakesColumns (stages : List Value) (joined : String) (columns : List ColumnRef)
    (source : ColumnRef → String) : Prop :=
  ∀ c ∈ columns, ∀ path, path = c.name ∨ path = belowName joined c.name →
    (TakesColumn stages joined c.name path ↔ path = source c)

/-- The values of a select list with a column in it. -/
theorem selected_values {items : SelectList} {c : ColumnRef} {columns : List Value}
    (hc : c ∈ plainColumns (selectedItems items)) (h : items.toValue.items = .ok columns) :
    columns = (selectedItems items).map SelectItem.toValue := by
  cases items with
  | all => cases hc
  | items x xs => exact (Except.ok.inj h).symm

section

variable {q : Query} {base joined : String} {command : Value} (hj : NoDot joined)
  (hnames : ∀ c ∈ plainColumns (selectedItems q.items), NoDot c.name)
  (honce : ∀ c ∈ plainColumns (selectedItems q.items),
    ∀ d ∈ plainColumns (selectedItems q.items), c.name = d.name → c = d)

include hj hnames

/-- The pipeline of a subquery takes all columns from the fields with their names. -/
theorem member_sources (hasks : q.condition?.any asksQuery = true)
    (h : Command.translate q.toValue = .ok command) :
    ∃ stages, command.entry "pipeline" = .ok (.list stages) ∧
      TakesColumns stages joined (plainColumns (selectedItems q.items)) ColumnRef.name := by
  rw [translate_of, hasks, if_pos rfl, command_lift_ok] at h
  simp only [Command.subqueryCommand, bind_ok] at h
  obtain ⟨⟨identifier, operator, value⟩, -, h⟩ := h
  obtain ⟨field, -, sub, -, first, -, column, -, found, -, columns, hcolumns, shown, hshown, h⟩ := h
  obtain ⟨string, rfl, -, -⟩ := pipeline_command_parts h
  refine ⟨_, rfl, fun c hc path hpath => ?_⟩
  have hskip : ∀ state a, Command.showPlain state (Aggregate.toValue a) = .ok state := by
    rintro state (_ | _) <;> rfl
  rw [selected_values hc hcolumns, fold_plain hskip, show_plain_of, shown_fields] at hshown
  obtain rfl := Except.ok.inj hshown
  have hlisted := @shown_listed ((plainColumns (selectedItems q.items)).map ColumnRef.name) c.name
  have hsome := hlisted.mpr (List.mem_map_of_mem hc)
  have hfull : (putAll [] (((plainColumns (selectedItems q.items)).map ColumnRef.name).map
      (·, .int 1))).isEmpty = false := by
    rw [Bool.eq_false_iff]
    intro hempty
    rw [List.isEmpty_iff.mp hempty] at hsome
    cases hsome
  rw [hfull]
  refine takes_column_iff hj (hnames c hc) (shape_behind ?_ [] _) (.inl rfl)
    (fun k hk hlisted => names_listed hnames hk hlisted) (.inl rfl)
    (shape_takes (List.mem_map_of_mem hc) fun d v hv => hv) hpath
  intro s hs
  rcases List.mem_pair.mp hs with rfl | rfl <;> rfl

include honce

theorem clause_sources {on : Condition} (hnamed : Named q)
    (hsource : q.source = .join base joined on) (hno : q.condition?.any asksQuery = false)
    (h : Command.translate q.toValue = .ok command) :
    ∃ stages, command.entry "pipeline" = .ok (.list stages) ∧
      TakesColumns stages joined (plainColumns (selectedItems q.items)) (namedPath joined) := by
  obtain ⟨c, r, d, rfl⟩ := clause_columns hsource hno h
  obtain ⟨string, where?, -, htranslate⟩ := clause_command hnamed hsource hno
  obtain rfl := Except.ok.inj (htranslate.symm.trans h)
  refine ⟨_, rfl, fun x hx path hpath => ?_⟩
  have hshown : shownColumns base q.items = plainColumns (selectedItems q.items) := by
    cases hi : q.items with
    | all =>
      rw [hi] at hx
      cases hx
    | items y ys => rfl
  rw [hshown, join_stages_behind]
  exact takes_column_iff hj (hnames x hx) (shape_behind (comma_front base joined c d where?) _ _)
    (.inl rfl) (fun k hk hlisted => names_listed hnames hk hlisted) (named_path_cases joined x)
    (shape_takes (List.mem_map_of_mem hx) fun d v hv => moved_added hnames honce hx hv) hpath

theorem comma_sources {w : Condition} (hsource : q.source = .tables base joined [])
    (hcondition : q.condition? = some w) (hno : q.condition?.any asksQuery = false)
    (h : Command.translate q.toValue = .ok command) :
    ∃ stages, command.entry "pipeline" = .ok (.list stages) ∧
      TakesColumns stages joined (plainColumns (selectedItems q.items)) (namedPath joined) := by
  rw [translate_of, hno, hsource] at h
  obtain ⟨c, r, d, filter?, columns, shown, string, -, -, hcolumns, hshown, rfl⟩ :=
    comma_command hsource hcondition h
  refine ⟨_, rfl, fun x hx path hpath => ?_⟩
  rw [selected_values hx hcolumns, join_columns_of] at hshown
  obtain rfl := Except.ok.inj hshown
  exact takes_column_iff hj (hnames x hx) (shape_behind (comma_front base joined c d filter?) [] _)
    (named_path_cases joined x) (fun k hk hlisted => paths_listed hnames honce hx hk hlisted)
    (named_path_cases joined x) (shape_takes (List.mem_map_of_mem hx) fun d v hv => hv) hpath

theorem join_sources (hnamed : Named q)
    (hfiltered : (q.condition?.isNone && isPair (partsOf q).table) = false)
    (hsource : sourceNames q.source = [base, joined])
    (h : Command.translate q.toValue = .ok command) :
    ∃ stages, command.entry "pipeline" = .ok (.list stages) ∧
      TakesColumns stages joined (plainColumns (selectedItems q.items)) (sourcePath q joined) := by
  cases hasks : q.condition?.any asksQuery with
  | true =>
    obtain ⟨stages, hstages, htakes⟩ := member_sources hj hnames hasks h
    exact ⟨stages, hstages, by simpa [TakesColumns, sourcePath, hasks] using htakes⟩
  | false =>
    suffices ∃ stages, command.entry "pipeline" = .ok (.list stages) ∧
        TakesColumns stages joined (plainColumns (selectedItems q.items)) (namedPath joined) by
      simpa [TakesColumns, sourcePath, hasks] using this
    cases hs : q.source with
    | table t => simp [hs, sourceNames] at hsource
    | join a b on =>
      obtain ⟨rfl, rfl⟩ : a = base ∧ b = joined := by simpa [hs, sourceNames] using hsource
      exact clause_sources hj hnames honce hnamed hs hasks h
    | tables a b more =>
      obtain ⟨rfl, rfl, rfl⟩ : a = base ∧ b = joined ∧ more = [] := by
        simpa [hs, sourceNames] using hsource
      cases hc : q.condition? with
      | none =>
        rw [partsOf, hc, hs] at hfiltered
        cases hfiltered
      | some w => exact comma_sources hj hnames honce hs hc hasks h

end

/-- The places of the selected columns stay as they were noted. -/
theorem check_select_places {schema : Value} (subquery : Value → Checked Value)
    {p : SelectOf Value} (htables : checkTables schema p = .ok ()) :
    (checkSelect schema subquery p).tree.resolved? = (checkSelected schema p).tree.resolved? := by
  let Noted (p' : SelectOf Value) : Prop :=
    p'.resolved? = (checkSelected schema p).tree.resolved?
  have hselected : Noted ((⟨p, checkTables schema p⟩ : Checked Select).andThen
      (checkSelected schema)).tree := by
    rw [htables]
    rfl
  have hjoins : ∀ a, Noted a → Noted (checkJoins schema subquery a).tree := by
    intro a ha
    obtain ⟨js, hjs⟩ := check_joins_only schema subquery a
    rwa [hjs]
  have hwhere : ∀ a, Noted a → Noted (checkWhere schema subquery a).tree := by
    intro a ha
    obtain ⟨c, hc⟩ := check_where_only schema subquery a
    rwa [hc]
  have hnote : ∀ a, Noted a → Noted (noteJoin a).tree := by
    intro a ha
    obtain ⟨join?, filter?, hjoin⟩ := note_join_only a
    rwa [hjoin]
  have hhaving : ∀ a, Noted a → Noted (checkHaving schema subquery a).tree := by
    intro a ha
    obtain ⟨c, hc⟩ := check_having_only schema subquery a
    rwa [hc]
  exact and_then_tree (and_then_tree (and_then_tree (and_then_tree (and_then_tree hselected hjoins)
    hwhere) hnote) hhaving) fun a ha => ha

theorem accepted_known {schema : Value} {q : Query} (h : Accepts schema q) :
    KnowsTables schema q.source := by
  have htables := h.tables
  simp only [checkTables, all_tables_of (parts_tree q), check_lift, ok_bind] at htables
  split at htables
  · cases htables
  · intro t ht
    have hrequired := for_each_ok.mp htables (.text t) (List.mem_map_of_mem ht)
    exact required (by simp) hrequired

theorem selected_undotted {q : Query} (hnamed : Named q) :
    ∀ c ∈ plainColumns (selectedItems q.items), NoDot c.name := fun c hc =>
  (hnamed.items (.column c) (mem_plain_columns.mp hc)).1.no_dot

/-- No two columns of a select list that can be resolved have one name. -/
theorem resolvable_once {schema : Value} {q : Query} (h : Resolvable schema q) :
    ∀ c ∈ plainColumns (selectedItems q.items), ∀ d ∈ plainColumns (selectedItems q.items),
      c.name = d.name → c = d := by
  intro c hc d hd hname
  have habout : ∀ {c}, c ∈ plainColumns (selectedItems q.items) →
      SelectItem.column c ∈ (selectedItems q.items).filter aboutColumn :=
    fun hc => List.mem_filter.mpr ⟨mem_plain_columns.mp hc, rfl⟩
  have hsame := List.inj_on_of_nodup_map h.once (habout hc) (habout hd) (by simp [subject, hname])
  cases hsame
  rfl

/-- The notes of a check of the select list: where its columns were found. -/
theorem selected_places {schema : Value} {q : Query} (hnamed : Named q) (hs : Tabular schema)
    (hknown : KnowsTables schema q.source)
    (h : (checkSelected schema (partsOf q)).outcome = .ok ()) :
    ∃ ps, (checkSelected schema (partsOf q)).tree.resolved? = placesNote ps ∧
      List.Forall₂ (Located schema q.source) ((selectedItems q.items).filter aboutColumn) ps ∧
      ∀ c ∈ plainColumns (selectedItems q.items), ∀ d ∈ plainColumns (selectedItems q.items),
        c.name = d.name → c = d := by
  have hcolumns : (partsOf q).columns = q.items.toValue := rfl
  simp only [checkSelected, base_table_of (parts_tree q), hcolumns, ← statement_parts] at h ⊢
  cases hi : q.items with
  | all =>
    obtain ⟨columns, hindex⟩ := known_columns hs (hknown _ (base_mem q.source))
    refine ⟨[], ?_, .nil, fun c hc => by cases hc⟩
    have hstar : SelectList.all.toValue.same (.list [.text "*"]) = true := rfl
    rw [checkColumns, hindex, hstar, statement_parts]
    rfl
  | items x xs =>
    rw [hi] at h
    have hselected : selectedItems q.items = x :: xs := congrArg selectedItems hi
    have hitems := hselected ▸ hnamed.items
    obtain ⟨ps, hps⟩ := (@check_items_ok schema q hs hknown _ hitems).mp h
    refine ⟨ps, ?_, (resolves_iff.mp hps).1, ?_⟩
    · have htree : (checkColumns schema (SelectList.items x xs).toValue (.text (baseName q.source))
          q.toValue).tree = .select (withPlaces q ps) := check_items_places hs hknown hitems hps
      simp only [Checked.map, htree, withPlaces]
    · rw [← hi]
      exact resolvable_once ((resolvable_iff hnamed).mpr ⟨ps, hselected ▸ hps⟩)

/-- An accepted statement has notes of where its selected columns were found, and no two of these
have one name. -/
theorem accepted_places {schema : Value} {q : Query} (hnamed : Named q) (hs : Tabular schema)
    (h : Accepted schema q) :
    ∃ p ps, (Check.check schema q.toValue).tree = .select p ∧ p.resolved? = placesNote ps ∧
      List.Forall₂ (Located schema q.source) ((selectedItems q.items).filter aboutColumn) ps ∧
      ∀ c ∈ plainColumns (selectedItems q.items), ∀ d ∈ plainColumns (selectedItems q.items),
        c.name = d.name → c = d := by
  have haccepts := verdict_ok.mp (accepted_iff.mp h)
  have hknown := accepted_known haccepts
  obtain ⟨ps, hnote, hall⟩ := selected_places hnamed hs hknown haccepts.selected
  rw [statement_parts, Check.check, checkNested]
  exact ⟨_, ps, rfl, (check_select_places _ haccepts.tables).trans hnote, hall⟩

/-- A column of two tables is found in just one of them. -/
theorem located_one {schema : Value} {s : Source Condition} {c : ColumnRef} {p : Place}
    {base joined : String} (hs : sourceNames s = [base, joined])
    (h : Located schema s (.column c) p) :
    base ≠ joined ∧ (p.table = base ∨ p.table = joined) := by
  cases h with
  | @column _ t h =>
    rw [hs, holdersOf] at h
    refine ⟨?_, ?_⟩
    · rintro rfl
      cases hb : hasColumn schema base c.name <;> simp [hb] at h
    · have ht : t ∈ [base, joined] := List.mem_of_mem_filter (h ▸ List.mem_singleton_self t)
      simpa using ht

/-- A pipeline agrees with the place of a column just if it takes the column from below the joined
table's name when it was found in that table, and only then. -/
theorem agrees_iff {stages : List Value} {base joined : String} {columns : List ColumnRef}
    {source : ColumnRef → String} {c : ColumnRef} {p : Place}
    (htakes : TakesColumns stages joined columns source) (hc : c ∈ columns) (hn : NoDot c.name)
    (hsource : source c = c.name ∨ source c = belowName joined c.name)
    (hplace : base ≠ joined ∧ (p.table = base ∨ p.table = joined)) :
    AgreesOn base joined stages c p ↔
      (p.table = joined ↔ source c = belowName joined c.name) := by
  have hbare := htakes c hc c.name (.inl rfl)
  have hbelow := htakes c hc (belowName joined c.name) (.inr rfl)
  obtain ⟨hne, htable | htable⟩ := hplace
  · have hother : p.table ≠ joined := htable ▸ hne
    constructor
    · intro h
      have hname := hbare.mp (h.base htable)
      exact iff_of_false hother fun he => below_ne hn (hname.trans he)
    · intro h
      have hname := hsource.resolve_right fun he => hother (h.mpr he)
      exact ⟨fun _ => hbare.mpr hname.symm, fun he => absurd he hother⟩
  · have hother : p.table ≠ base := htable ▸ hne.symm
    constructor
    · intro h
      exact iff_of_true htable (hbelow.mp (h.joined htable)).symm
    · intro h
      exact ⟨fun he => absurd he hother, fun _ => hbelow.mpr (h.mp htable).symm⟩

theorem source_path_cases (q : Query) (joined : String) (c : ColumnRef) :
    sourcePath q joined c = c.name ∨ sourcePath q joined c = belowName joined c.name := by
  unfold sourcePath
  split
  · exact .inl rfl
  · exact named_path_cases joined c

theorem source_path_below {q : Query} {joined : String} {c : ColumnRef} (hn : NoDot c.name) :
    sourcePath q joined c = belowName joined c.name ↔
      c.table? = some joined ∧ q.condition?.any asksQuery = false := by
  unfold sourcePath namedPath
  cases q.condition?.any asksQuery with
  | true => simp [below_ne hn]
  | false => by_cases h : c.table? = some joined <;> simp [h, below_ne hn]

/-- The pipeline of a join takes a selected column from where checking found it just if this is the
joined table for a column that names it, and the base table for any other one. If a query is asked,
all columns are taken as if they were in the base table. -/
theorem join_places_exact {schema command : Value} {sql : String} {line : Nat} {q : Query}
    {base joined : String} (hs : Tabular schema) (hparse : Sql.parse sql line = .ok q)
    (hcommand : Pipeline.command schema sql line = .ok command)
    (hsource : sourceNames q.source = [base, joined]) :
    ∃ stages p ps, command.entry "pipeline" = .ok (.list stages) ∧
      (Check.check schema q.toValue).tree = .select p ∧ p.resolved? = placesNote ps ∧
      List.Forall₂ (fun x place => ∀ c, x = .column c →
        (AgreesOn base joined stages c place ↔ (place.table = joined ↔
          c.table? = some joined ∧ q.condition?.any asksQuery = false)))
        ((selectedItems q.items).filter aboutColumn) ps := by
  obtain ⟨q', hq', haccepted, htranslate⟩ := command_stages hcommand
  obtain rfl : q = q' := Except.ok.inj (hparse.symm.trans hq')
  have hnamed := parse_named hparse
  obtain ⟨p, ps, htree, hnote, hlocated, honce⟩ := accepted_places hnamed hs haccepted
  have hj : NoDot joined :=
    (source_names_named hnamed.source joined (by simp [hsource])).no_dot
  have hnames := selected_undotted hnamed
  obtain ⟨stages, hstages, htakes⟩ := join_sources hj hnames honce hnamed
    (verdict_ok.mp (accepted_iff.mp haccepted)).filtered hsource htranslate
  refine ⟨stages, p, ps, hstages, htree, hnote, ?_⟩
  refine ((List.forall₂_and_left _ _).mpr ⟨fun x hx => hx, hlocated⟩).imp ?_
  rintro x place ⟨hx, hplace⟩ c rfl
  have hc := mem_plain_columns.mpr (List.mem_of_mem_filter hx)
  rw [agrees_iff htakes hc (hnames c hc) (source_path_cases q joined c)
    (located_one hsource hplace), source_path_below (hnames c hc)]

theorem places_note_inj {ps ps' : List Place} (h : placesNote ps = placesNote ps') : ps = ps' := by
  have hinj : Function.Injective Place.toValue := by
    rintro ⟨t, c⟩ ⟨t', c'⟩ h
    simpa [Place.toValue, doc] using h
  cases ps <;> cases ps'
  · rfl
  · cases h
  · cases h
  · have hlists := Value.list.inj (Option.some.inj h)
    exact hinj.list_map hlists

theorem open_amounts_noted : ∃ p, (Check.check shopSchema openAmounts.toValue).tree = .select p ∧
    p.resolved? = placesNote [⟨"users", "city"⟩, ⟨"orders", "amount"⟩] := ⟨_, rfl, rfl⟩

theorem join_places_amounts :
    Tabular shopSchema ∧ Sql.parse openAmountsText 1 = .ok openAmounts ∧
      ∃ command stages, Pipeline.command shopSchema openAmountsText 1 = .ok command ∧
        command.entry "pipeline" = .ok (.list stages) ∧
        AgreesOn "users" "orders" stages ⟨none, "city"⟩ ⟨"users", "city"⟩ ∧
        ¬ AgreesOn "users" "orders" stages ⟨none, "amount"⟩ ⟨"orders", "amount"⟩ := by
  obtain ⟨string, where?, -, htranslate⟩ :=
    clause_command (parse_named open_amounts_parsed) rfl rfl
  have hcommand := command_accepted open_amounts_parsed open_amounts_accepted htranslate
  obtain ⟨stages, p, ps, hstages, htree, hnote, hall⟩ :=
    join_places_exact shop_tabular open_amounts_parsed hcommand rfl
  obtain ⟨p', htree', hnote'⟩ := open_amounts_noted
  obtain rfl : p = p' := Value.select.inj (htree.symm.trans htree')
  obtain rfl := places_note_inj (hnote.symm.trans hnote')
  obtain ⟨hcity, hall⟩ := List.forall₂_cons.mp hall
  obtain ⟨hamount, -⟩ := List.forall₂_cons.mp hall
  refine ⟨shop_tabular, open_amounts_parsed, _, stages, hcommand, hstages, ?_, ?_⟩
  · exact (hcity _ rfl).mpr (by simp)
  · exact fun h => absurd ((hamount _ rfl).mp h) (by simp)

/-- A column that does not name its table is taken from the base table, even if it was found in the
joined one. -/
theorem join_places_differ :
    ¬ ∀ (schema command : Value) (sql : String) (line : Nat) (q : Query) (base joined : String)
        (stages : List Value) (p : SelectOf Value) (ps : List Place),
        Schema.check schema = .ok () → Sql.parse sql line = .ok q →
        Pipeline.command schema sql line = .ok command →
        sourceNames q.source = [base, joined] → command.entry "pipeline" = .ok (.list stages) →
        (Check.check schema q.toValue).tree = .select p → p.resolved? = placesNote ps →
        List.Forall₂ (fun x place => ∀ c, x = .column c → AgreesOn base joined stages c place)
          ((selectedItems q.items).filter aboutColumn) ps := by
  intro h
  have hnamed := parse_named open_amounts_parsed
  obtain ⟨string, where?, -, htranslate⟩ := clause_command hnamed rfl rfl
  have hcommand := command_accepted open_amounts_parsed open_amounts_accepted htranslate
  obtain ⟨-, -, -, -, -, honce⟩ := accepted_places hnamed shop_tabular open_amounts_accepted
  obtain ⟨stages, hstages, htakes⟩ :=
    clause_sources (by decide) (selected_undotted hnamed) honce hnamed rfl rfl htranslate
  obtain ⟨p, htree, hnote⟩ := open_amounts_noted
  have hall := h _ _ _ _ _ _ _ _ _ _ rfl open_amounts_parsed hcommand rfl hstages htree hnote
  obtain ⟨-, hall⟩ := List.forall₂_cons.mp hall
  have hagrees := (List.forall₂_cons.mp hall).1 _ rfl
  have hc : (⟨none, "amount"⟩ : ColumnRef) ∈ plainColumns (selectedItems openAmounts.items) :=
    mem_plain_columns.mpr (by simp [openAmounts, selectedItems])
  exact absurd ((htakes _ hc _ (.inr rfl)).mp (hagrees.joined rfl)) (by decide)

end DocQuery.Proofs
