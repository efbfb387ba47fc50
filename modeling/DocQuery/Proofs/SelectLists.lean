import DocQuery.Proofs.References
import DocQuery.Proofs.Stages

namespace DocQuery.Proofs

open Sql Check
open Value (doc)

/-- A schema: tables with documents of columns. -/
def Tabular (schema : Value) : Prop :=
  ∃ tables, schema = .dict tables ∧ ∀ e ∈ tables, ∃ columns, e.2 = .dict columns

def KnownTable (schema : Value) (t : String) : Prop := (Value.text t).isIn schema = .ok true

/-- The schema has all tables of a statement. -/
def KnowsTables (schema : Value) (s : Source Condition) : Prop :=
  ∀ t ∈ sourceNames s, KnownTable schema t

/-- Whether a table of a schema has a column. -/
def hasColumn (schema : Value) (t c : String) : Bool :=
  (do (Value.text c).isIn (← schema.index (.text t)) : Except Fault Bool).toOption.getD false

/-- Those of some tables that have a column. -/
def holdersOf (schema : Value) (tables : List String) (c : String) : List String :=
  tables.filter (hasColumn schema · c)

theorem has_column_iff {schema : Value} {t c : String} :
    hasColumn schema t c = true ↔ ColumnIn schema t c := by
  unfold hasColumn ColumnIn
  cases schema.index (.text t) with
  | error f => simp [bind, Except.bind, Except.toOption]
  | ok columns => cases hin : (Value.text c).isIn columns <;> simp [hin, Except.toOption]

theorem mem_holders {schema : Value} {tables : List String} {t c : String} :
    t ∈ holdersOf schema tables c ↔ t ∈ tables ∧ ColumnIn schema t c := by
  rw [holdersOf, List.mem_filter, has_column_iff]

theorem known_columns {schema : Value} {t : String} (hs : Tabular schema)
    (ht : KnownTable schema t) : ∃ columns, schema.index (.text t) = .ok (.dict columns) := by
  obtain ⟨tables, rfl, hcolumns⟩ := hs
  obtain ⟨v, hv⟩ : ∃ v, Entries.get? tables (.text t) = some v := by
    have hhas : Entries.has tables (.text t) = true := by simpa [KnownTable, Value.isIn] using ht
    rw [has_eq_get] at hhas
    exact Option.isSome_iff_exists.mp hhas
  obtain ⟨columns, rfl⟩ := hcolumns _ (get_entry hv)
  exact ⟨columns, by simp [Value.index, hv]⟩

theorem column_looked_up {schema : Value} {t : String} (hs : Tabular schema)
    (ht : KnownTable schema t) (c : String) :
    (do (Value.text c).isIn (← schema.index (.text t))) = .ok (hasColumn schema t c) := by
  obtain ⟨columns, hindex⟩ := known_columns hs ht
  simp [hasColumn, hindex, Value.isIn, Except.toOption]

/-- A filter whose test succeeds everywhere. -/
theorem filter_all_ok {ε α : Type} {p : α → Except ε Bool} {g : α → Bool} {xs : List α}
    (h : ∀ x ∈ xs, p x = .ok (g x)) : xs.filterM p = .ok (xs.filter g) := by
  have haux : ∀ kept, List.filterAuxM p xs kept = .ok ((xs.filter g).reverse ++ kept) := by
    induction xs with
    | nil => exact fun kept => rfl
    | cons x xs ih =>
      obtain ⟨hx, hxs⟩ := List.forall_mem_cons.mp h
      intro kept
      rw [List.filterAuxM, hx, ok_bind, ih hxs]
      cases hg : g x <;> simp [hg]
  simp [List.filterM, haux]

theorem owners_holders {schema : Value} {tables : List String} (hs : Tabular schema)
    (hknown : ∀ t ∈ tables, KnownTable schema t) (c : String) :
    owners schema (tables.map .text) (.text c) = .ok ((holdersOf schema tables c).map .text) := by
  let has (v : Value) : Bool :=
    (do (Value.text c).isIn (← schema.index v) : Except Fault Bool).toOption.getD false
  have hall : ∀ v ∈ tables.map Value.text,
      (do (Value.text c).isIn (← schema.index v)) = .ok (has v) := by
    rw [List.forall_mem_map]
    exact fun t ht => column_looked_up hs (hknown t ht) c
  rw [owners, filter_all_ok hall, List.filter_map]
  rfl

/-- A failure that is about the statement, not about an operation on values. -/
def Semantic (e : Check.Error) : Prop := ∀ f, e ≠ .fault f

/-- Where a selected column is found. -/
structure Place where
  table : String
  column : String
deriving DecidableEq, Repr

def Place.toValue (p : Place) : Value :=
  doc [("table", .text p.table), ("column", .text p.column)]

/-- The places of selected columns, as a check notes them. -/
def placesNote : List Place → Option Value
  | [] => none
  | ps => some (.list (ps.map Place.toValue))

/-- A statement with the places of its selected columns. -/
def withPlaces (q : Query) (ps : List Place) : SelectOf Value :=
  { partsOf q with resolved? := placesNote ps }

/-- An item of a select list is found: a column in just one of the tables, the column of an
aggregate in the base table. -/
inductive Located (schema : Value) (s : Source Condition) : SelectItem → Place → Prop where
  | column {c : ColumnRef} {t : String} (h : holdersOf schema (sourceNames s) c.name = [t]) :
      Located schema s (.column c) ⟨t, c.name⟩
  | call {f : Func} {c : String} (h : ColumnIn schema (baseName s) c) :
      Located schema s (.aggregate (.call f c)) ⟨baseName s, c⟩

/-- The key that must not occur twice in a select list. -/
def placeKey : SelectItem → Place → String
  | .aggregate (.call f _), p =>
    "agg_" ++ f.keyword.spelling ++ "_" ++ (p.table ++ "." ++ p.column)
  | _, p => p.table ++ "." ++ p.column

theorem note_place (q : Query) (ps : List Place) (p : Place) :
    note (.select (withPlaces q ps)) (.text p.table) (.text p.column) =
      .ok (.select (withPlaces q (ps ++ [p]))) := by
  cases ps with
  | nil => rfl
  | cons first ps => simp [note, withPlaces, placesNote, Place.toValue]

theorem places_tables (q : Query) (ps : List Place) :
    allTables (withPlaces q ps) = .ok ((sourceNames q.source).map .text) :=
  all_tables_of ((parts_tree q).noted _ _ _)

theorem base_mem (s : Source Condition) : baseName s ∈ sourceNames s := by
  cases s <;> simp [baseName, sourceNames]

section

variable {schema : Value} {q : Query} (hs : Tabular schema) (hknown : KnowsTables schema q.source)

include hs hknown

theorem owner_located {ps : List Place} {c t : String}
    (h : holdersOf schema (sourceNames q.source) c = [t]) :
    ownerIn schema (.select (withPlaces q ps)) (.text c) = .ok (.text t) := by
  simp only [ownerIn, Value.asSelect, check_lift, ok_bind, places_tables,
    owners_holders hs hknown, h]
  rfl

/-- A column that is in no table, or in more than one, is rejected. -/
theorem owner_missing (ps : List Place) {c : String}
    (h : ∀ t, holdersOf schema (sourceNames q.source) c ≠ [t]) :
    ∃ e, ownerIn schema (.select (withPlaces q ps)) (.text c) = .error e ∧ Semantic e ∧
      ∀ d, e ≠ .duplicate d := by
  simp only [ownerIn, Value.asSelect, check_lift, ok_bind, places_tables,
    owners_holders hs hknown]
  cases hw : holdersOf schema (sourceNames q.source) c with
  | nil => exact ⟨.selectedNowhere c, rfl, by simp [Semantic], by simp⟩
  | cons t ts =>
    cases ts with
    | nil => exact absurd hw (h t)
    | cons u ts => exact ⟨.selectedTwice c, rfl, by simp [Semantic], by simp⟩

theorem column_required_iff {t : String} (ht : t ∈ sourceNames q.source) (c : String) :
    requireColumn schema (.text t) (.text c) =
      if hasColumn schema t c then .ok () else .error (.noColumn c t) := by
  have hlook := column_looked_up hs (hknown t ht) c
  obtain ⟨columns, hindex⟩ := known_columns hs (hknown t ht)
  rw [hindex, ok_bind] at hlook
  simp only [requireColumn, hindex, check_lift, ok_bind, hlook]
  cases hasColumn schema t c <;> rfl

omit hs in
theorem table_required {t : String} (ht : t ∈ sourceNames q.source) :
    requireTable schema (.text t) = .ok () := by
  have hin : (Value.text t).isIn schema = .ok true := hknown t ht
  simp only [requireTable, hin]
  rfl

/-- An item that is found is selected, and passes the checks of its table and its column. -/
theorem located_selected {x : SelectItem} {p : Place} (hx : NamedItem x)
    (h : Located schema q.source x p) (ps : List Place) :
    select schema (.text (baseName q.source)) (.select (withPlaces q ps)) x.toValue =
        .ok (some ⟨.text p.table, .text p.column, placeKey x p⟩) ∧
      requireTable schema (.text p.table) = .ok () ∧
      requireColumn schema (.text p.table) (.text p.column) = .ok () := by
  obtain ⟨hselect, hmem, hcolumn⟩ : select schema (.text (baseName q.source))
        (.select (withPlaces q ps)) x.toValue =
          .ok (some ⟨.text p.table, .text p.column, placeKey x p⟩) ∧
      p.table ∈ sourceNames q.source ∧ ColumnIn schema p.table p.column := by
    cases h with
    | @column c t ht =>
      refine ⟨?_, mem_holders.mp (by rw [ht]; exact List.mem_singleton_self t)⟩
      rw [SelectItem.toValue, select_ref, owner_located hs hknown ht]
      rfl
    | call hc => exact ⟨call_selected _ _ _ _ (hx _ _ rfl), base_mem _, hc⟩
  refine ⟨hselect, table_required hknown hmem, ?_⟩
  rw [column_required_iff hs hknown hmem, if_pos (has_column_iff.mpr hcolumn)]

theorem step_located {x : SelectItem} {p : Place} {seen : List String} (hx : NamedItem x)
    (h : Located schema q.source x p) (hnew : placeKey x p ∉ seen) (ps : List Place)
    (rest : List Value) :
    checkEach schema (.text (baseName q.source)) (x.toValue :: rest) seen
        (.select (withPlaces q ps)) =
      checkEach schema (.text (baseName q.source)) rest (placeKey x p :: seen)
        (.select (withPlaces q (ps ++ [p]))) := by
  obtain ⟨hselect, htable, hcolumn⟩ := located_selected hs hknown hx h ps
  have hseen : ¬ seen.contains (placeKey x p) = true := by simpa using hnew
  rw [checkEach, hselect]
  simp only [if_neg hseen, note_place, htable, hcolumn, ok_bind, Checked.andThen]

theorem step_repeated {x : SelectItem} {p : Place} {seen : List String} (hx : NamedItem x)
    (h : Located schema q.source x p) (hold : placeKey x p ∈ seen) (ps : List Place)
    (rest : List Value) :
    (checkEach schema (.text (baseName q.source)) (x.toValue :: rest) seen
      (.select (withPlaces q ps))).outcome = .error (.duplicate p.column) := by
  obtain ⟨hselect, -, -⟩ := located_selected hs hknown hx h ps
  have hseen : seen.contains (placeKey x p) = true := by simpa using hold
  rw [checkEach, hselect]
  simp only [if_pos hseen, str_text, check_lift, ok_bind]

end

/-- The count of all rows is about no column. -/
theorem step_count_all (schema base tree : Value) (rest : List Value) (seen : List String) :
    checkEach schema base ((SelectItem.aggregate .countAll).toValue :: rest) seen tree =
      checkEach schema base rest seen tree := by
  rw [checkEach]
  rfl

/-- Items are found one after another, each with a key that was not seen before. -/
inductive Resolves (schema : Value) (s : Source Condition) :
    List String → List SelectItem → List Place → Prop where
  | nil : Resolves schema s seen [] []
  | countAll (h : Resolves schema s seen xs ps) :
      Resolves schema s seen (.aggregate .countAll :: xs) ps
  | found (hx : Located schema s x p) (hnew : placeKey x p ∉ seen)
      (h : Resolves schema s (placeKey x p :: seen) xs ps) :
      Resolves schema s seen (x :: xs) (p :: ps)

section

variable {schema : Value} {q : Query} (hs : Tabular schema) (hknown : KnowsTables schema q.source)

include hs hknown

/-- The check goes past items that are found, and notes their places. -/
theorem resolves_run {seen : List String} {xs : List SelectItem} {ps : List Place}
    (hnamed : ∀ x ∈ xs, NamedItem x) (h : Resolves schema q.source seen xs ps) :
    ∃ seen', ∀ before rest,
      checkEach schema (.text (baseName q.source)) (xs.map SelectItem.toValue ++ rest) seen
          (.select (withPlaces q before)) =
        checkEach schema (.text (baseName q.source)) rest seen'
          (.select (withPlaces q (before ++ ps))) := by
  induction h with
  | @nil seen => exact ⟨seen, fun before rest => by simp⟩
  | countAll h ih =>
    obtain ⟨seen', hrun⟩ := ih (List.forall_mem_cons.mp hnamed).2
    refine ⟨seen', fun before rest => ?_⟩
    rw [List.map_cons, List.cons_append, step_count_all, hrun]
  | @found x p seen xs ps hx hnew h ih =>
    obtain ⟨hname, hnames⟩ := List.forall_mem_cons.mp hnamed
    obtain ⟨seen', hrun⟩ := ih hnames
    refine ⟨seen', fun before rest => ?_⟩
    rw [List.map_cons, List.cons_append, step_located hs hknown hname hx hnew, hrun,
      List.append_assoc]
    rfl

/-- An item that is found nowhere is rejected; a column not as a duplicate. -/
theorem unlocated_rejected {x : SelectItem} (hx : NamedItem x) (hcount : x ≠ .aggregate .countAll)
    (h : ∀ p, ¬ Located schema q.source x p) (seen : List String) (ps : List Place)
    (rest : List Value) :
    ∃ e, (checkEach schema (.text (baseName q.source)) (x.toValue :: rest) seen
        (.select (withPlaces q ps))).outcome = .error e ∧ Semantic e ∧
      ∀ c, x = .column c → ∀ d, e ≠ .duplicate d := by
  cases x with
  | column c =>
    have hmissing : ∀ t, holdersOf schema (sourceNames q.source) c.name ≠ [t] :=
      fun t ht => h _ (.column ht)
    obtain ⟨e, he, hsemantic, hduplicate⟩ := owner_missing hs hknown ps hmissing
    refine ⟨e, ?_, hsemantic, fun _ _ => hduplicate⟩
    rw [checkEach, SelectItem.toValue, select_ref, he]
    rfl
  | aggregate a =>
    cases a with
    | countAll => exact absurd rfl hcount
    | call f c =>
      have hno : hasColumn schema (baseName q.source) c = false := by
        rw [Bool.eq_false_iff, ne_eq, has_column_iff]
        exact fun hc => h _ (.call hc)
      have hnote := note_place q ps ⟨baseName q.source, c⟩
      rw [checkEach, call_selected _ _ _ _ (hx _ _ rfl)]
      dsimp only at hnote ⊢
      split
      · exact ⟨.duplicate c, rfl, by simp [Semantic], by simp⟩
      · refine ⟨.noColumn c (baseName q.source), ?_, by simp [Semantic], by simp⟩
        simp only [hnote, table_required hknown (base_mem _), ok_bind,
          column_required_iff hs hknown (base_mem _), hno, Bool.false_eq_true, ↓reduceIte,
          Checked.andThen, Checked.reject]

/-- Items that are not all found, or not all new, are rejected. -/
theorem unresolved_rejected {seen : List String} {xs : List SelectItem}
    (hnamed : ∀ x ∈ xs, NamedItem x) (h : ∀ ps, ¬ Resolves schema q.source seen xs ps)
    (before : List Place) :
    ∃ e, (checkEach schema (.text (baseName q.source)) (xs.map SelectItem.toValue) seen
      (.select (withPlaces q before))).outcome = .error e ∧ Semantic e := by
  induction xs generalizing seen before with
  | nil => exact absurd .nil (h [])
  | cons x xs ih =>
    obtain ⟨hname, hnames⟩ := List.forall_mem_cons.mp hnamed
    rw [List.map_cons]
    by_cases hcount : x = .aggregate .countAll
    · subst hcount
      rw [step_count_all]
      exact ih hnames (fun ps hps => h ps (.countAll hps)) before
    · by_cases hlocated : ∃ p, Located schema q.source x p
      · obtain ⟨p, hp⟩ := hlocated
        by_cases hseen : placeKey x p ∈ seen
        · exact ⟨.duplicate p.column, step_repeated hs hknown hname hp hseen _ _,
            by simp [Semantic]⟩
        · rw [step_located hs hknown hname hp hseen]
          exact ih hnames (fun ps hps => h _ (.found hp hseen hps)) _
      · obtain ⟨e, he, hsemantic, -⟩ := unlocated_rejected hs hknown hname hcount
          (fun p hp => hlocated ⟨p, hp⟩) seen before (xs.map SelectItem.toValue)
        exact ⟨e, he, hsemantic⟩

end

/-- Whether an item is about a column. -/
def aboutColumn : SelectItem → Bool
  | .aggregate .countAll => false
  | _ => true

/-- What an item is about: a column, and the function that is applied to it, if there is one. -/
def subject : SelectItem → Option Func × String
  | .column c => (none, c.name)
  | .aggregate (.call f c) => (some f, c)
  | .aggregate .countAll => (some .count, "*")

theorem resolves_iff {schema : Value} {s : Source Condition} {seen : List String}
    {xs : List SelectItem} {ps : List Place} :
    Resolves schema s seen xs ps ↔ List.Forall₂ (Located schema s) (xs.filter aboutColumn) ps ∧
      (List.zipWith placeKey (xs.filter aboutColumn) ps).Nodup ∧
      ∀ k ∈ List.zipWith placeKey (xs.filter aboutColumn) ps, k ∉ seen := by
  constructor
  · intro h
    induction h with
    | nil => simp
    | countAll h ih => exact ih
    | @found x p seen xs ps hx hnew h ih =>
      have habout : aboutColumn x = true := by cases hx <;> rfl
      obtain ⟨hall, hnodup, hseen⟩ := ih
      rw [List.filter_cons_of_pos habout, List.zipWith_cons_cons]
      refine ⟨.cons hx hall, List.nodup_cons.mpr ⟨fun hk => ?_, hnodup⟩, ?_⟩
      · exact hseen _ hk List.mem_cons_self
      · exact List.forall_mem_cons.mpr
          ⟨hnew, fun k hk hold => hseen k hk (List.mem_cons_of_mem _ hold)⟩
  · rintro ⟨hall, hnodup, hseen⟩
    induction xs generalizing seen ps with
    | nil =>
      cases hall
      exact .nil
    | cons x xs ih =>
      by_cases habout : aboutColumn x = true
      · rw [List.filter_cons_of_pos habout] at hall hnodup hseen
        cases hall with
        | @cons _ p _ ps hx hall =>
          rw [List.zipWith_cons_cons] at hnodup hseen
          obtain ⟨hkey, hnodup⟩ := List.nodup_cons.mp hnodup
          obtain ⟨hnew, hseen⟩ := List.forall_mem_cons.mp hseen
          refine .found hx hnew (ih hall hnodup fun k hk hold => ?_)
          rcases List.mem_cons.mp hold with rfl | hold
          · exact hkey hk
          · exact hseen k hk hold
      · rw [List.filter_cons_of_neg habout] at hall hnodup hseen
        obtain rfl : x = .aggregate .countAll := by
          rcases x with c | (_ | _)
          · exact absurd rfl habout
          · rfl
          · exact absurd rfl habout
        exact .countAll (ih hall hnodup hseen)

theorem source_names_named {s : Source Condition} (h : NamedSource s) :
    ∀ t ∈ sourceNames s, IsName t := by
  cases s with
  | table a => exact List.forall_mem_singleton.mpr h
  | join a b on => exact List.forall_mem_cons.mpr ⟨h.1, List.forall_mem_singleton.mpr h.2.1⟩
  | tables a b more => exact h

theorem dotted_injective {s t s' t' : String} (hs : NoDot s) (ht : NoDot t) (hs' : NoDot s')
    (ht' : NoDot t') (h : s ++ "." ++ t = s' ++ "." ++ t') : s = s' ∧ t = t' := by
  have hpath := congrArg pathNames h
  rw [path_names_dotted hs ht, path_names_dotted hs' ht'] at hpath
  simpa using hpath

/-- The part of a key before the dot. -/
def keyTable : SelectItem → String → String
  | .aggregate (.call f _), t => "agg_" ++ f.keyword.spelling ++ "_" ++ t
  | _, t => t

theorem place_key (x : SelectItem) (p : Place) :
    placeKey x p = keyTable x p.table ++ "." ++ p.column := by
  rcases x with c | (_ | ⟨f, c⟩)
  · rfl
  · rfl
  · simp [placeKey, keyTable, String.append_assoc]

theorem key_table_no_dot (x : SelectItem) {t : String} (h : NoDot t) : NoDot (keyTable x t) := by
  rcases x with c | (_ | ⟨f, c⟩)
  · exact h
  · exact h
  · cases f <;> simpa [keyTable, NoDot, Func.keyword, Keyword.spelling] using h

/-- The prefix of a function is no other's, and makes a table's name longer. -/
theorem function_key_iff {f g : Func} {t : String} (c d : String) :
    keyTable (.aggregate (.call f c)) t = keyTable (.aggregate (.call g d)) t ↔ f = g := by
  constructor
  · intro h
    have hchars := congrArg String.toList h
    cases f <;> cases g <;> first | rfl | simp [keyTable, Func.keyword, Keyword.spelling] at hchars
  · rintro rfl
    rfl

theorem function_key_ne (f : Func) (t c : String) :
    keyTable (.aggregate (.call f c)) t ≠ t := by
  intro h
  have hlength := congrArg String.length h
  simp [keyTable] at hlength

theorem located_no_dot {schema : Value} {s : Source Condition} {x : SelectItem} {p : Place}
    (hnames : ∀ t ∈ sourceNames s, IsName t) (hx : NamedItem x) (hp : Located schema s x p) :
    NoDot (keyTable x p.table) ∧ NoDot p.column := by
  cases hp with
  | @column c t ht =>
    have hmem : t ∈ sourceNames s :=
      (mem_holders.mp (by rw [ht]; exact List.mem_singleton_self t)).1
    exact ⟨key_table_no_dot _ (hnames t hmem).no_dot, hx.1.no_dot⟩
  | call hc => exact ⟨key_table_no_dot _ (hnames _ (base_mem s)).no_dot, (hx _ _ rfl).no_dot⟩

/-- The prefix of an aggregate may be part of the name of a table. But if this table has the column
that is aggregated, then the base table has it as well. -/
theorem holder_not_called {schema : Value} {s : Source Condition} {f : Func} {t c d : String}
    (ht : holdersOf schema (sourceNames s) c = [t]) (hd : ColumnIn schema (baseName s) d) :
    ¬ (t = keyTable (.aggregate (.call f d)) (baseName s) ∧ c = d) := by
  rintro ⟨hkey, rfl⟩
  have hbase : baseName s ∈ holdersOf schema (sourceNames s) c :=
    mem_holders.mpr ⟨base_mem s, hd⟩
  rw [ht, List.mem_singleton] at hbase
  exact function_key_ne f (baseName s) c (by rw [← hkey, hbase])

/-- The keys of two items that are found are equal just if the items are about the same. -/
theorem key_iff {schema : Value} {s : Source Condition} {x y : SelectItem} {p r : Place}
    (hnames : ∀ t ∈ sourceNames s, IsName t) (hx : NamedItem x) (hy : NamedItem y)
    (hp : Located schema s x p) (hr : Located schema s y r) :
    placeKey x p = placeKey y r ↔ subject x = subject y := by
  have hsplit : placeKey x p = placeKey y r ↔
      keyTable x p.table = keyTable y r.table ∧ p.column = r.column := by
    obtain ⟨hxtable, hxcolumn⟩ := located_no_dot hnames hx hp
    obtain ⟨hytable, hycolumn⟩ := located_no_dot hnames hy hr
    rw [place_key, place_key]
    constructor
    · exact dotted_injective hxtable hxcolumn hytable hycolumn
    · rintro ⟨htable, hcolumn⟩
      rw [htable, hcolumn]
  rw [hsplit]
  cases hp with
  | @column c t ht =>
    cases hr with
    | @column d u hu =>
      simp only [keyTable, subject, Prod.mk.injEq, true_and]
      refine ⟨And.right, fun hname => ⟨?_, hname⟩⟩
      rw [hname, hu] at ht
      simpa using ht.symm
    | @call f d hd =>
      simp only [subject, Prod.mk.injEq, reduceCtorEq, false_and, iff_false]
      exact holder_not_called ht hd
  | @call f c hc =>
    cases hr with
    | @column d u hu =>
      simp only [subject, Prod.mk.injEq, reduceCtorEq, false_and, iff_false]
      exact fun h => holder_not_called hu hc ⟨h.1.symm, h.2.symm⟩
    | @call g d hd => simp [function_key_iff, subject]

/-- Pairs with the same keys just if their first parts have the same marks. -/
theorem zip_nodup_iff {α β γ δ : Type} {R : α → β → Prop} {f : α → β → γ} {g : α → δ}
    {xs : List α} {ys : List β} (h : List.Forall₂ R xs ys)
    (hfg : ∀ x ∈ xs, ∀ x' ∈ xs, ∀ y y', R x y → R x' y' → (f x y = f x' y' ↔ g x = g x')) :
    (List.zipWith f xs ys).Nodup ↔ (xs.map g).Nodup := by
  have hmem : ∀ {x : α} {y : β} {zs : List α} {ws : List β}, List.Forall₂ R zs ws →
      (∀ z ∈ zs, ∀ w, R z w → (f x y = f z w ↔ g x = g z)) →
      (f x y ∈ List.zipWith f zs ws ↔ g x ∈ zs.map g) := by
    intro x y zs ws hall
    induction hall with
    | nil => simp
    | cons hz hall ih =>
      intro heq
      obtain ⟨hhead, htail⟩ := List.forall_mem_cons.mp heq
      rw [List.zipWith_cons_cons, List.map_cons, List.mem_cons, List.mem_cons, hhead _ hz,
        ih htail]
  induction h with
  | nil => simp
  | @cons x y xs ys hx h ih =>
    obtain ⟨hhead, htail⟩ := List.forall_mem_cons.mp hfg
    have hkey : f x y ∈ List.zipWith f xs ys ↔ g x ∈ xs.map g :=
      hmem h fun z hz w hw => hhead z (List.mem_cons_of_mem _ hz) y w hx hw
    have hrest : (List.zipWith f xs ys).Nodup ↔ (xs.map g).Nodup :=
      ih fun z hz z' hz' => htail z hz z' (List.mem_cons_of_mem _ hz')
    rw [List.zipWith_cons_cons, List.map_cons, List.nodup_cons, List.nodup_cons, hkey, hrest]

/-- A select list that can be resolved: every column is in just one entry of the tables, the column
of every aggregate in the base table, and no two items are about the same. -/
structure Resolvable (schema : Value) (q : Query) : Prop where
  columns : ∀ c, .column c ∈ selectedItems q.items →
    (holdersOf schema (sourceNames q.source) c.name).length = 1
  calls : ∀ f c, .aggregate (.call f c) ∈ selectedItems q.items →
    ColumnIn schema (baseName q.source) c
  once : (((selectedItems q.items).filter aboutColumn).map subject).Nodup

theorem choices_iff {α β : Type} {R : α → β → Prop} {xs : List α} :
    (∃ ys, List.Forall₂ R xs ys) ↔ ∀ x ∈ xs, ∃ y, R x y := by
  induction xs with
  | nil => exact iff_of_true ⟨[], .nil⟩ (by simp)
  | cons x xs ih =>
    rw [List.forall_mem_cons, ← ih]
    constructor
    · rintro ⟨ys, hys⟩
      cases hys with
      | cons hx hxs => exact ⟨⟨_, hx⟩, _, hxs⟩
    · rintro ⟨⟨y, hx⟩, ys, hxs⟩
      exact ⟨y :: ys, .cons hx hxs⟩

theorem located_iff {schema : Value} {s : Source Condition} {xs : List SelectItem} :
    (∀ x ∈ xs.filter aboutColumn, ∃ p, Located schema s x p) ↔
      (∀ c, .column c ∈ xs → (holdersOf schema (sourceNames s) c.name).length = 1) ∧
        ∀ f c, .aggregate (.call f c) ∈ xs → ColumnIn schema (baseName s) c := by
  constructor
  · intro h
    refine ⟨fun c hc => ?_, fun f c hc => ?_⟩
    · obtain ⟨p, hp⟩ := h _ (List.mem_filter.mpr ⟨hc, rfl⟩)
      cases hp with
      | column ht => rw [ht]; rfl
    · obtain ⟨p, hp⟩ := h _ (List.mem_filter.mpr ⟨hc, rfl⟩)
      cases hp with
      | call hc => exact hc
  · rintro ⟨hcolumns, hcalls⟩ x hx
    obtain ⟨hmem, habout⟩ := List.mem_filter.mp hx
    rcases x with c | (_ | ⟨f, c⟩)
    · obtain ⟨t, ht⟩ := List.length_eq_one_iff.mp (hcolumns c hmem)
      exact ⟨_, .column ht⟩
    · cases habout
    · exact ⟨_, .call (hcalls f c hmem)⟩

/-- The items of a statement are found one after another just if its select list can be
resolved. -/
theorem resolvable_iff {schema : Value} {q : Query} (hq : Named q) :
    Resolvable schema q ↔ ∃ ps, Resolves schema q.source [] (selectedItems q.items) ps := by
  have honce : ∀ {ps}, List.Forall₂ (Located schema q.source)
      ((selectedItems q.items).filter aboutColumn) ps →
      ((List.zipWith placeKey ((selectedItems q.items).filter aboutColumn) ps).Nodup ↔
        (((selectedItems q.items).filter aboutColumn).map subject).Nodup) := by
    intro ps hps
    refine zip_nodup_iff hps fun x hx y hy p r hp hr => ?_
    exact key_iff (source_names_named hq.source) (hq.items x (List.mem_filter.mp hx).1)
      (hq.items y (List.mem_filter.mp hy).1) hp hr
  constructor
  · rintro ⟨hcolumns, hcalls, hnodup⟩
    obtain ⟨ps, hps⟩ := choices_iff.mpr (located_iff.mpr ⟨hcolumns, hcalls⟩)
    exact ⟨ps, resolves_iff.mpr ⟨hps, (honce hps).mpr hnodup, by simp⟩⟩
  · rintro ⟨ps, hps⟩
    obtain ⟨hall, hnodup, -⟩ := resolves_iff.mp hps
    obtain ⟨hcolumns, hcalls⟩ := located_iff.mp (choices_iff.mp ⟨ps, hall⟩)
    exact ⟨hcolumns, hcalls, (honce hall).mp hnodup⟩

theorem items_not_star (xs : List SelectItem) :
    (Value.list (xs.map SelectItem.toValue)).same (.list [.text "*"]) = false := by
  cases xs with
  | nil => simp [Value.same, Value.sameItems]
  | cons x xs =>
    rcases x with c | (_ | ⟨f, c⟩)
    · simp [SelectItem.toValue, ColumnRef.toValue, doc, Value.same, Value.sameItems,
        Value.sameNumber, Value.number?]
    all_goals simp [SelectItem.toValue, Aggregate.toValue, Value.same, Value.sameItems,
      Value.sameNumber, Value.number?]

/-- The check of selected items for a statement. -/
def checkItems (schema : Value) (q : Query) (xs : List SelectItem) : Checked Value :=
  checkColumns schema (.list (xs.map SelectItem.toValue)) (.text (baseName q.source)) q.toValue

section

variable {schema : Value} {q : Query} (hs : Tabular schema) (hknown : KnowsTables schema q.source)

include hs hknown

theorem check_items_each (xs : List SelectItem) : checkItems schema q xs =
    checkEach schema (.text (baseName q.source)) (xs.map SelectItem.toValue) []
      (.select (withPlaces q [])) := by
  obtain ⟨columns, hindex⟩ := known_columns hs (hknown _ (base_mem q.source))
  simp only [checkItems, checkColumns, hindex, items_not_star, Value.items, Bool.false_eq_true,
    ↓reduceIte, statement_parts]
  rfl

theorem check_items_ok {xs : List SelectItem} (hnamed : ∀ x ∈ xs, NamedItem x) :
    (checkItems schema q xs).outcome = .ok () ↔ ∃ ps, Resolves schema q.source [] xs ps := by
  rw [check_items_each hs hknown]
  constructor
  · intro h
    by_contra hno
    obtain ⟨e, he, -⟩ :=
      unresolved_rejected hs hknown hnamed (fun ps hps => hno ⟨ps, hps⟩) []
    rw [he] at h
    cases h
  · rintro ⟨ps, hps⟩
    obtain ⟨seen, hrun⟩ := resolves_run hs hknown hnamed hps
    have hall := hrun [] []
    rw [List.append_nil] at hall
    rw [hall]
    rfl

theorem check_items_places {xs : List SelectItem} {ps : List Place}
    (hnamed : ∀ x ∈ xs, NamedItem x) (h : Resolves schema q.source [] xs ps) :
    (checkItems schema q xs).tree = .select (withPlaces q ps) := by
  obtain ⟨seen, hrun⟩ := resolves_run hs hknown hnamed h
  have hall := hrun [] []
  rw [List.append_nil] at hall
  rw [check_items_each hs hknown, hall]
  rfl

end

/-- The select list of a parsed statement whose tables are known is accepted just if it can be
resolved. Then the places of all items but the counts of all rows are noted in their order; and
otherwise the statement is at fault. -/
theorem select_list_resolved {schema : Value} {sql : String} {line : Nat} {q : Query}
    (hparse : Sql.parse sql line = .ok q) (hs : Tabular schema)
    (hknown : KnowsTables schema q.source) (hitems : q.items ≠ .all) :
    let checked := checkColumns schema q.items.toValue (.text (baseName q.source)) q.toValue
    (checked.outcome = .ok () ↔ Resolvable schema q) ∧
      (checked.outcome = .ok () → ∃ ps, checked.tree = .select (withPlaces q ps) ∧
        List.Forall₂ (Located schema q.source) ((selectedItems q.items).filter aboutColumn) ps) ∧
      (checked.outcome ≠ .ok () → ∃ e, checked.outcome = .error e ∧ Semantic e) := by
  have hnamed := parse_named hparse
  have hchecked : checkColumns schema q.items.toValue (.text (baseName q.source)) q.toValue =
      checkItems schema q (selectedItems q.items) := by
    cases hi : q.items with
    | all => exact absurd hi hitems
    | items x xs => rfl
  intro checked
  have hok : checked.outcome = .ok () ↔
      ∃ ps, Resolves schema q.source [] (selectedItems q.items) ps := by
    rw [← check_items_ok hs hknown hnamed.items, ← hchecked]
  refine ⟨hok.trans (resolvable_iff hnamed).symm, fun h => ?_, fun h => ?_⟩
  · obtain ⟨ps, hps⟩ := hok.mp h
    refine ⟨ps, ?_, (resolves_iff.mp hps).1⟩
    exact (congrArg Checked.tree hchecked).trans (check_items_places hs hknown hnamed.items hps)
  · have hno := mt hok.mpr h
    rw [show checked = _ from hchecked, check_items_each hs hknown]
    exact unresolved_rejected hs hknown hnamed.items (fun ps hps => hno ⟨ps, hps⟩) []

/-- Columns of two tables, with aggregates of the first one. -/
def spending : Query :=
  ⟨.items (.column ⟨none, "city"⟩) [.aggregate .countAll, .column ⟨none, "amount"⟩,
      .aggregate (.call .max "age"), .aggregate .countAll], .tables "users" "orders" [],
    none, [], none, [], none⟩

def spendingText : String := "SELECT city, COUNT(*), amount, MAX(age), COUNT(*) FROM users, orders;"

theorem shop_tabular : Tabular shopSchema := by
  refine ⟨_, rfl, ?_⟩
  simp [doc]

theorem shop_known {s : Source Condition} (h : ∀ t ∈ sourceNames s, t ∈ ["users", "orders"]) :
    KnowsTables shopSchema s := by
  intro t ht
  have hmem := h t ht
  simp only [List.mem_cons, List.not_mem_nil, or_false] at hmem
  rcases hmem with rfl | rfl <;> rfl

theorem select_list_resolved_spending :
    Sql.parse spendingText 1 = .ok spending ∧ Resolvable shopSchema spending ∧
      ∃ ps, checkColumns shopSchema spending.items.toValue (.text "users") spending.toValue =
          .accept (.select (withPlaces spending ps)) ∧
        List.Forall₂ (Located shopSchema spending.source)
          [.column ⟨none, "city"⟩, .column ⟨none, "amount"⟩, .aggregate (.call .max "age")] ps := by
  have hparse : Sql.parse spendingText 1 = .ok spending := parse_spelled ⟨rfl, rfl⟩ rfl
  obtain ⟨hok, hplaces, -⟩ := select_list_resolved hparse shop_tabular
    (shop_known (by simp [spending, sourceNames])) (by simp [spending])
  have haccepted : (checkColumns shopSchema spending.items.toValue (.text "users")
      spending.toValue).outcome = .ok () := rfl
  obtain ⟨ps, htree, hall⟩ := hplaces haccepted
  refine ⟨hparse, hok.mp haccepted, ps, ?_, hall⟩
  rw [Checked.accept, ← htree]
  exact congrArg (Checked.mk _) haccepted

/-- The check goes past a column, or stops at it only because it was selected before. -/
def Passes (checked : Checked Value) (c : String) : Prop :=
  checked.outcome = .ok () ∨ checked.outcome = .error (.duplicate c)

/-- The column `t.c`, selected after some other items, is resolved by the table that it names: it is
accepted just if this is a table of the statement and has the column, and it is noted so. -/
structure ResolvedByTable (schema : Value) (q : Query) (before : List SelectItem) (t c : String) :
    Prop where
  accepted : Passes (checkItems schema q (before ++ [.column ⟨some t, c⟩])) c ↔
    t ∈ sourceNames q.source ∧ ColumnIn schema t c
  noted : (checkItems schema q (before ++ [.column ⟨some t, c⟩])).outcome = .ok () → ∃ ps,
    (checkItems schema q before).tree = .select (withPlaces q ps) ∧
      (checkItems schema q (before ++ [.column ⟨some t, c⟩])).tree =
        .select (withPlaces q (ps ++ [⟨t, c⟩]))

section NextColumn

variable {schema : Value} {q : Query} {before : List SelectItem} {ps : List Place} {t c : String}

/-- After the items `before`, which resolve to `ps`, the check is at its step for the next item. -/
theorem check_next (hs : Tabular schema) (hknown : KnowsTables schema q.source)
    (hbefore : ∀ x ∈ before, NamedItem x) (hps : Resolves schema q.source [] before ps)
    (x : SelectItem) : ∃ seen, checkItems schema q (before ++ [x]) =
      checkEach schema (.text (baseName q.source)) [x.toValue] seen
        (.select (withPlaces q ps)) := by
  obtain ⟨seen, hrun⟩ := resolves_run hs hknown hbefore hps
  refine ⟨seen, ?_⟩
  rw [check_items_each hs hknown, List.map_append]
  exact hrun [] _

/-- Where one table has the column, the check goes past it, whichever table the column names. -/
theorem one_holder_passes (hs : Tabular schema) (hknown : KnowsTables schema q.source)
    (hbefore : ∀ x ∈ before, NamedItem x) (hps : Resolves schema q.source [] before ps)
    (hx : NamedItem (.column ⟨some t, c⟩)) {u : String}
    (hu : holdersOf schema (sourceNames q.source) c = [u]) :
    Passes (checkItems schema q (before ++ [.column ⟨some t, c⟩])) c ∧
      ((checkItems schema q (before ++ [.column ⟨some t, c⟩])).outcome = .ok () →
        (checkItems schema q (before ++ [.column ⟨some t, c⟩])).tree =
          .select (withPlaces q (ps ++ [⟨u, c⟩]))) := by
  obtain ⟨seen, hcheck⟩ := check_next hs hknown hbefore hps (.column ⟨some t, c⟩)
  have hlocated : Located schema q.source (.column ⟨some t, c⟩) ⟨u, c⟩ := .column hu
  rw [hcheck]
  by_cases hseen : placeKey (.column ⟨some t, c⟩) ⟨u, c⟩ ∈ seen
  · have hrepeated := step_repeated hs hknown hx hlocated hseen ps []
    refine ⟨.inr hrepeated, fun h => ?_⟩
    rw [hrepeated] at h
    cases h
  · rw [step_located hs hknown hx hlocated hseen]
    exact ⟨.inl rfl, fun _ => rfl⟩

theorem no_single_holder_stops (hs : Tabular schema) (hknown : KnowsTables schema q.source)
    (hbefore : ∀ x ∈ before, NamedItem x) (hps : Resolves schema q.source [] before ps)
    (hx : NamedItem (.column ⟨some t, c⟩))
    (hone : (holdersOf schema (sourceNames q.source) c).length ≠ 1) :
    ¬ Passes (checkItems schema q (before ++ [.column ⟨some t, c⟩])) c := by
  obtain ⟨seen, hcheck⟩ := check_next hs hknown hbefore hps (.column ⟨some t, c⟩)
  have hnone : ∀ p, ¬ Located schema q.source (.column ⟨some t, c⟩) p := by
    intro p hp
    cases hp with
    | column hu => exact hone (by rw [hu]; rfl)
  obtain ⟨e, he, -, hduplicate⟩ := unlocated_rejected hs hknown hx (by simp) hnone seen ps []
  rw [← hcheck] at he
  rintro (hok | hrepeated)
  · rw [he] at hok
    cases hok
  · rw [he] at hrepeated
    exact hduplicate _ rfl c (Except.error.inj hrepeated)

end NextColumn

/-- A selected column `t.c` is resolved by the table that it names just if either this table is one
of the statement's and has the column, and no other does; or it is not or has it not, and not just
one other table does. -/
theorem qualified_column_exact {schema : Value} {sql : String} {line : Nat} {q : Query}
    {before after : List SelectItem} {t c : String} (hparse : Sql.parse sql line = .ok q)
    (hs : Tabular schema) (hknown : KnowsTables schema q.source)
    (hitems : selectedItems q.items = before ++ .column ⟨some t, c⟩ :: after)
    (hbefore : (checkItems schema q before).outcome = .ok ()) :
    ResolvedByTable schema q before t c ↔
      (t ∈ sourceNames q.source ∧ ColumnIn schema t c ↔
        (holdersOf schema (sourceNames q.source) c).length = 1) := by
  have hnamed := (parse_named hparse).items
  rw [hitems] at hnamed
  have hearlier : ∀ x ∈ before, NamedItem x := fun x hx => hnamed x (List.mem_append_left _ hx)
  have hx : NamedItem (.column ⟨some t, c⟩) := hnamed _ (by simp)
  obtain ⟨ps, hps⟩ := (check_items_ok hs hknown hearlier).mp hbefore
  by_cases hone : (holdersOf schema (sourceNames q.source) c).length = 1
  · obtain ⟨u, hu⟩ := List.length_eq_one_iff.mp hone
    obtain ⟨hpasses, hnoted⟩ := one_holder_passes hs hknown hearlier hps hx hu
    rw [iff_true_right hone]
    constructor
    · exact fun h => h.accepted.mp hpasses
    · intro hown
      obtain rfl : t = u := by
        have hmem := mem_holders.mpr hown
        rwa [hu, List.mem_singleton] at hmem
      have htree := check_items_places hs hknown hearlier hps
      exact ⟨iff_of_true hpasses hown, fun h => ⟨ps, htree, hnoted h⟩⟩
  · have hstops := no_single_holder_stops hs hknown hearlier hps hx hone
    rw [iff_false_right hone]
    constructor
    · exact fun h hown => hstops (h.accepted.mpr hown)
    · exact fun hown => ⟨iff_of_false hstops hown, fun h => absurd (.inl h) hstops⟩

/-- The cities of users and the amounts of their orders, each with its table. -/
def amountsByCity : Query :=
  ⟨.items (.column ⟨some "users", "city"⟩) [.column ⟨some "orders", "amount"⟩],
    .tables "users" "orders" [], none, [], none, [], none⟩

def amountsByCityText : String := "SELECT users.city, orders.amount FROM users, orders;"

theorem qualified_column_amounts :
    Sql.parse amountsByCityText 1 = .ok amountsByCity ∧
      (checkItems shopSchema amountsByCity [.column ⟨some "users", "city"⟩]).outcome = .ok () ∧
      ResolvedByTable shopSchema amountsByCity [.column ⟨some "users", "city"⟩]
        "orders" "amount" := by
  have hparse : Sql.parse amountsByCityText 1 = .ok amountsByCity := parse_spelled ⟨rfl, rfl⟩ rfl
  have hbefore : (checkItems shopSchema amountsByCity
      [.column ⟨some "users", "city"⟩]).outcome = .ok () := rfl
  refine ⟨hparse, hbefore, ?_⟩
  rw [qualified_column_exact hparse shop_tabular
    (shop_known (by simp [amountsByCity, sourceNames])) rfl hbefore]
  exact iff_of_true ⟨by simp [amountsByCity, sourceNames], has_column_iff.mp rfl⟩ rfl

/-- Two tables that both have an `id`. -/
def idSchema : Value :=
  doc [("users", doc [("id", .text "int"), ("name", .text "string")]),
    ("orders", doc [("id", .text "int"), ("user_id", .text "int")])]

def buyerIds : Query :=
  ⟨.items (.column ⟨some "users", "id"⟩) [], .join "users" "orders"
      (.compare ⟨some "users", "id"⟩ .eq (.column ⟨some "orders", "user_id"⟩)),
    none, [], none, [], none⟩

/-- A column that two tables have is ambiguous also with the table that it names. -/
theorem qualified_column_ambiguous :
    ¬ ∀ (schema : Value) (sql : String) (line : Nat) (q : Query) (before after : List SelectItem)
      (t c : String), Sql.parse sql line = .ok q → Tabular schema →
      KnowsTables schema q.source → (sourceNames q.source).Nodup →
      selectedItems q.items = before ++ .column ⟨some t, c⟩ :: after →
      (checkItems schema q before).outcome = .ok () → ResolvedByTable schema q before t c := by
  intro hall
  have hparse : Sql.parse
      "SELECT users.id FROM users JOIN orders ON users.id = orders.user_id;" 1 = .ok buyerIds :=
    parse_spelled ⟨rfl, rfl⟩ rfl
  have htabular : Tabular idSchema := by
    refine ⟨_, rfl, ?_⟩
    simp [doc]
  have hknown : KnowsTables idSchema buyerIds.source := by
    intro t ht
    simp only [buyerIds, sourceNames, List.mem_cons, List.not_mem_nil, or_false] at ht
    rcases ht with rfl | rfl <;> rfl
  have hresolved := hall idSchema _ 1 buyerIds [] [] "users" "id" hparse htabular hknown
    (by simp [buyerIds, sourceNames]) rfl rfl
  have hpasses := hresolved.accepted.mpr
    ⟨by simp [buyerIds, sourceNames], has_column_iff.mp rfl⟩
  have hrejected : (checkItems idSchema buyerIds [.column ⟨some "users", "id"⟩]).outcome =
      .error (.selectedTwice "id") := rfl
  rcases hpasses with hok | hrepeated
  · cases hrejected.symm.trans hok
  · cases hrejected.symm.trans hrepeated

end DocQuery.Proofs
