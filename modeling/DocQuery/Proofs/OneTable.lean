import DocQuery.Proofs.Alternatives
import DocQuery.Proofs.Clauses
import DocQuery.Proofs.Conjunctions
import DocQuery.Proofs.Rows
import DocQuery.Proofs.Stages

namespace DocQuery.Proofs

open Sql Check
open Value (doc)

/-- The values that a field is tested against. -/
def FieldTest.scalars : FieldTest → List Scalar
  | compare _ v => [v]
  | between low high => [low, high]
  | among vs => vs

/-- Tests of one field are against values of one type. -/
def AgreeOnTypes (ts : List (String × FieldTest)) : Prop :=
  ∀ p ∈ ts, ∀ q ∈ ts, p.1 = q.1 → ∀ v ∈ p.2.scalars, ∀ w ∈ q.2.scalars, v.isText = w.isText

theorem AgreeOnTypes.members {ts : List (String × FieldTest)} (h : AgreeOnTypes ts) :
    SortableMembers ts := by
  intro p hp vs hvs v hv w hw
  have hscalars : p.2.scalars = vs := by rw [hvs]; rfl
  exact h p hp p hp rfl v (hscalars ▸ hv) w (hscalars ▸ hw)

/-- Where all tests are of one field, all their values are of one type. -/
theorem AgreeOnTypes.one_type {ts : List (String × FieldTest)} {name : String} {vs : List Scalar}
    (h : AgreeOnTypes ts) (hname : ∀ p ∈ ts, p.1 = name)
    (hvs : ∀ v ∈ vs, ∃ p ∈ ts, v ∈ p.2.scalars) : OneType vs := by
  intro v hv w hw
  obtain ⟨p, hp, hvp⟩ := hvs v hv
  obtain ⟨q, hq, hwq⟩ := hvs w hw
  exact h p hp q hq ((hname p hp).trans (hname q hq).symm) v hvp w hwq

/-- The tests of fields that are bounds. -/
theorem bound_test {t : FieldTest} {b : Bound} {name : String}
    (h : doc [(name, t.toValue)] = b.toValue name) :
    ∃ r v, t = .compare r v ∧ b.value = v.toValue := by
  cases t with
  | compare r v =>
    refine ⟨r, v, rfl, ?_⟩
    cases r with
    | eq =>
      cases v <;> cases b <;>
        simp [FieldTest.toValue, Bound.toValue, Scalar.toValue, doc] at h
    | ne | ge | le => cases b <;> simp [FieldTest.toValue, Bound.toValue, doc] at h
    | gt | lt =>
      cases b <;> simp [FieldTest.toValue, Bound.toValue, doc] at h
      exact h.symm
  | between low high => cases b <;> simp [FieldTest.toValue, Bound.toValue, doc] at h
  | among vs => cases b <;> simp [FieldTest.toValue, Bound.toValue, doc] at h

theorem bound_selector {s : Selector} {b : Bound} {name : String}
    (h : s.toValue = b.toValue name) :
    ∃ r v, s = .field name (.compare r v) ∧ b.value = v.toValue := by
  obtain ⟨es, hb⟩ : ∃ es, b.toValue name = doc [(name, .dict es)] := by
    cases b <;> exact ⟨_, rfl⟩
  have hsingle := selector_single s
  rw [h, hb] at hsingle
  obtain ⟨rfl, hbody⟩ : name = s.key ∧ .dict es = s.body := by simpa [doc] using hsingle
  cases s with
  | field f t =>
    obtain ⟨r, v, rfl, hv⟩ := bound_test h
    exact ⟨r, v, rfl, hv⟩
  | both l r => cases hbody
  | either l r => cases hbody

/-- Bounds of one field can be compared if the tests agree on types. -/
theorem bounds_comparable {ss : List Selector} {bs : List Bound} {name : String}
    (hbs : ss.map Selector.toValue = bs.map (Bound.toValue name))
    (h : AgreeOnTypes (ss.flatMap Selector.tests)) : Comparable (bs.map Bound.value) := by
  have htest : ∀ s ∈ ss, ∃ r v, s = .field name (.compare r v) := by
    intro s hs
    have hm : s.toValue ∈ bs.map (Bound.toValue name) := hbs ▸ List.mem_map_of_mem hs
    obtain ⟨b, -, hb⟩ := List.mem_map.mp hm
    obtain ⟨r, v, hv, -⟩ := bound_selector hb.symm
    exact ⟨r, v, hv⟩
  have hname : ∀ p ∈ ss.flatMap Selector.tests, p.1 = name := by
    intro p hp
    obtain ⟨s, hs, hps⟩ := List.mem_flatMap.mp hp
    obtain ⟨r, v, rfl⟩ := htest s hs
    rw [List.mem_singleton.mp hps]
  have hone : OneType ((ss.flatMap Selector.tests).flatMap fun p => p.2.scalars) :=
    h.one_type hname fun v hv => List.mem_flatMap.mp hv
  apply (comparable_scalars _ hone).subset
  intro w hw
  obtain ⟨b, hb, rfl⟩ := List.mem_map.mp hw
  have hm : b.toValue name ∈ ss.map Selector.toValue := hbs ▸ List.mem_map_of_mem hb
  obtain ⟨s, hs, hsb⟩ := List.mem_map.mp hm
  obtain ⟨r, v, rfl, hv⟩ := bound_selector hsb
  rw [hv]
  apply List.mem_map_of_mem
  exact List.mem_flatMap.mpr ⟨(name, .compare r v),
    List.mem_flatMap.mpr ⟨_, hs, List.mem_singleton_self _⟩, List.mem_singleton_self v⟩

/-- A filter is sorted and has a text. -/
def Shows (g : Value) : Prop :=
  ∃ r, Command.sortMembers g = .ok r ∧ Succeeds (Command.shellText r)

theorem Settles.shows {g : Value} {selects : (String → Value) → Bool} (h : Settles g selects) :
    Shows g := by
  obtain ⟨r, hr, htext, -⟩ := h
  exact ⟨r, hr, htext⟩

theorem equalities_show {name : String} {vs : List Scalar} (hne : vs ≠ [])
    (h : AgreeOnTypes ((vs.map (equality name)).flatMap Selector.tests)) :
    ∃ g, Command.alternatives ((vs.map (equality name)).map Selector.toValue) = .ok g ∧
      Shows g := by
  have hname : ∀ p ∈ (vs.map (equality name)).flatMap Selector.tests, p.1 = name := by
    simp +contextual [equality, Selector.tests]
  have hone : OneType vs := by
    apply h.one_type hname
    intro v hv
    refine ⟨(name, .compare .eq v), ?_, List.mem_singleton_self v⟩
    exact List.mem_flatMap.mpr ⟨_, List.mem_map_of_mem hv, List.mem_singleton_self _⟩
  cases vs with
  | nil => exact absurd rfl hne
  | cons v vs =>
    obtain ⟨g, ms, hg, hsort, -⟩ := alternatives_of_equalities name hone
    rw [equalities_of_values]
    exact ⟨g, hg, _, hsort, shell_selector _⟩

theorem bounds_show {ss : List Selector} {b : Bound} {bs : List Bound} {name : String}
    (hbs : ss.map Selector.toValue = (b :: bs).map (Bound.toValue name))
    (h : AgreeOnTypes (ss.flatMap Selector.tests)) :
    ∃ g, Command.alternatives (ss.map Selector.toValue) = .ok g ∧ Shows g := by
  have hcomp := bounds_comparable hbs h
  -- The document is of no interest here, and any value that can be compared will do.
  obtain ⟨c, hc, hg, -⟩ := weakest_bound (fun _ => b.value) name b bs (hcomp.subset (by simp))
  have hm : c.toValue name ∈ ss.map Selector.toValue := hbs ▸ List.mem_map_of_mem hc
  obtain ⟨u, hu, huc⟩ := List.mem_map.mp hm
  refine ⟨u.toValue, by rw [hbs, hg, huc], ?_⟩
  apply (settle_selector u ?_).shows
  exact h.members.subset fun p hp => List.mem_flatMap.mpr ⟨u, hu, hp⟩

/-- Alternatives that agree on types are simplified, whichever form they take. -/
theorem alternatives_show {ss : List Selector} {name : String} {t : FieldTest} (hn : Plain name)
    (hlast : .field name t ∈ ss) (h : AgreeOnTypes (ss.flatMap Selector.tests)) :
    ∃ g, Command.alternatives (ss.map Selector.toValue) = .ok g ∧ Shows g := by
  cases he : Command.equalities? .null (ss.map Selector.toValue) with
  | some r =>
    obtain ⟨vs, rfl⟩ := equalities_plain hn hlast he
    apply equalities_show _ h
    rintro rfl
    cases hlast
  | none =>
    cases hb : Command.bounds? .null (ss.map Selector.toValue) with
    | none =>
      obtain ⟨us, hg, hsort, -⟩ := alternatives_kept he hb h.members
      refine ⟨_, hg, _, hsort, shell_single (shell_list ?_)⟩
      rw [List.forall_mem_map]
      exact fun u _ => shell_selector u
    | some r =>
      have hne : ss ≠ [] := List.ne_nil_of_mem hlast
      obtain ⟨n, bs, hbs⟩ := bounds_of_selectors hne hb
      cases bs with
      | nil => exact absurd (List.map_eq_nil_iff.mp hbs) hne
      | cons b bs => exact bounds_show hbs h

theorem simplify_field {name : String} (hn : Plain name) (t : FieldTest) :
    Command.simplifyFilter (Selector.field name t).toValue =
      .ok (Selector.field name t).toValue := by
  simp [Command.simplifyFilter, Selector.toValue, doc, Value.isIn, Entries.has, plain_not_or hn,
    plain_not_and hn]

/-- Filters that agree on types are simplified. -/
theorem simplify_shows {s : Selector} (hs : Chain s) (h : AgreeOnTypes s.tests) :
    ∃ g, Command.simplifyFilter s.toValue = .ok g ∧ Shows g := by
  cases hs with
  | @field name t hn => exact ⟨_, simplify_field hn t, (settle_selector _ h.members).shows⟩
  | both hl hn =>
    obtain ⟨g, r, hg, hr, htext, -⟩ := merge_settles hn h.members
    exact ⟨g, hg, r, hr, htext⟩
  | @either l name t hl hn =>
    have hlast : .field name t ∈ (Selector.either l (.field name t)).alternatives := by
      simp [Selector.alternatives]
    rw [simplify_chain t hl hn]
    apply alternatives_show hn hlast
    rwa [alternatives_tests]

/-- The table in which a column is looked up, in a statement on one table. -/
def ownerOf (t : String) (c : ColumnRef) : String := c.table?.getD t

theorem column_field_path {t : String} {c : ColumnRef} (hc : NamedColumn c) :
    pathNames (columnField (some (.text t)) c) =
      if ownerOf t c = t then [c.name] else [ownerOf t c, c.name] := by
  obtain ⟨table?, name⟩ := c
  have hname : pathNames name = [name] := path_names_name hc.1.no_dot
  cases table? with
  | none => simpa [columnField, ownerOf] using hname
  | some u =>
    have hu : IsName u := hc.2 u rfl
    have hne : u ≠ "" := hu.ne_empty
    by_cases hut : u = t
    · simpa [columnField, ownerOf, hut] using hname
    · have htu : ¬ t = u := fun h => hut h.symm
      have hpath := path_names_dotted hu.no_dot hc.1.no_dot
      simpa [columnField, ownerOf, hut, htu, hne] using hpath

/-- The field of a column tells its table and its name. -/
theorem column_field_injective {t : String} {c d : ColumnRef} (hc : NamedColumn c)
    (hd : NamedColumn d)
    (h : columnField (some (.text t)) c = columnField (some (.text t)) d) :
    ownerOf t c = ownerOf t d ∧ c.name = d.name := by
  -- Names have no dots, so that a field with one comes from another table.
  have hpath := congrArg pathNames h
  rw [column_field_path hc, column_field_path hd] at hpath
  split at hpath <;> split at hpath <;> simp_all

/-- A test of a field is against values of the type of its column. -/
def TypedTest (schema : Value) (t : String) (p : String × FieldTest) : Prop :=
  ∃ c type, NamedColumn c ∧ p.1 = columnField (some (.text t)) c ∧
    typeOf schema (.text (ownerOf t c)) (.text c.name) = .ok type ∧
    ∀ v ∈ p.2.scalars, v.isText = isType type "string"

theorem typed_agree {schema : Value} {t : String} {ts : List (String × FieldTest)}
    (h : ∀ p ∈ ts, TypedTest schema t p) : AgreeOnTypes ts := by
  intro p hp q hq hpq v hv w hw
  obtain ⟨c, type, hc, hpc, htype, htext⟩ := h p hp
  obtain ⟨d, type', hd, hqd, htype', htext'⟩ := h q hq
  obtain ⟨howner, hname⟩ := column_field_injective hc hd (hpc.symm.trans (hpq.trans hqd))
  rw [howner, hname, htype'] at htype
  cases htype
  rw [htext v hv, htext' w hw]

theorem one_owner {schema column t : Value} {found : List Value}
    (h : owners schema [t] column = .ok found) : ∀ u ∈ found, u = t := by
  simp only [owners, List.filterM, List.filterAuxM, bind_ok, pure_ok] at h
  obtain ⟨_, ⟨b, -, hb⟩, hx⟩ := h
  cases hb
  cases hx
  cases b <;> simp

theorem tested_type_owner {schema type : Value} {t : String} {c : ColumnRef} (hc : NamedColumn c)
    (h : testedType schema [.text t] (optionalText c.table?) (.text c.name) = .ok type) :
    typeOf schema (.text (ownerOf t c)) (.text c.name) = .ok type := by
  obtain ⟨table?, name⟩ := c
  rcases tested_type_cases h with ⟨hpresent, htype⟩ | ⟨habsent, u, howner, htype⟩
  · cases table? with
    | none => cases hpresent
    | some u => exact htype
  · cases table? with
    | none =>
      rw [one_owner howner u (List.mem_singleton_self u)] at htype
      exact htype
    | some u =>
      have hne : u ≠ "" := (hc.2 u rfl).ne_empty
      simp [optionalText, Value.present, hne] at habsent

/-- The literals of a condition. -/
def literalsOf : Condition → List Literal
  | .connect l _ r => literalsOf l ++ literalsOf r
  | .compare _ _ (.literal l) | .aggregate _ _ l => [l]
  | .between _ low high => [low, high]
  | .inList _ l ls => l :: ls
  | .compare _ _ (.column _) | .inQuery .. => []

/-- A literal that is accepted in a comparison has the column's type. -/
theorem check_value_type {column type : Value} {l : Literal}
    (h : checkValue column type l.toValue = .ok ()) :
    (scalarOf l).isText = isType type "string" := by
  have htype : isType type (valueType l.toValue) = true := by
    by_contra hno
    rw [checkValue, if_pos (by simpa using hno)] at h
    simp only [bind_ok] at h
    obtain ⟨_, _, _, _, he⟩ := h
    cases he
  cases l with
  | number n =>
    rw [eq_text_of_same htype]
    rfl
  | text s => exact htype.symm

/-- A comparison with a literal that names no column is checked against the type of its column. -/
theorem check_compared {schema : Value} {t : String} {c : ColumnRef} {r : Relation} {l : Literal}
    (hdots : ∀ s, l = .text s → NoDot s)
    (h : checkPlain schema [.text t] c.toValue r.toValue l.toValue = .ok ()) :
    ∃ type, testedType schema [.text t] (optionalText c.table?) (.text c.name) = .ok type ∧
      checkValue (.text c.name) type l.toValue = .ok () := by
  have hvalue : namesColumn l.toValue = false := by
    cases l with
    | number n => rfl
    | text s =>
      have hno : '.' ∉ s.toList := hdots s rfl
      simpa [namesColumn, Literal.toValue, Value.hasDot] using hno
  have hbetween : r.toValue.same (.text "BETWEEN") = false := by cases r <;> rfl
  have hin : r.toValue.same (.text "IN") = false := by cases r <;> rfl
  simp only [checkPlain, hvalue, Bool.and_false, Bool.false_eq_true, ↓reduceIte, checkTest,
    tested_ref, bind_ok, hbetween, hin] at h
  exact h

/-- The test of a comparison of a column with literals. -/
theorem compared_test (base? : Option Value) {c : Condition} {r : ColumnRef}
    (hr : comparedColumn? c = some r) :
    isLiteral c = true ∧ ∃ test, fieldTests base? c = [(columnField base? r, test)] ∧
      test.scalars = (literalsOf c).map scalarOf := by
  cases c with
  | compare c relation x =>
    cases x with
    | column d => cases hr
    | literal l =>
      cases hr
      exact ⟨rfl, .compare relation (scalarOf l), rfl, rfl⟩
  | aggregate a relation l => cases hr
  | between c low high =>
    cases hr
    exact ⟨rfl, .between (scalarOf low) (scalarOf high), rfl, rfl⟩
  | inList c l ls =>
    cases hr
    exact ⟨rfl, .among ((l :: ls).map scalarOf), rfl, rfl⟩
  | inQuery c q => cases hr
  | connect l w r => cases hr

/-- The literals of an accepted comparison have the type of its column. -/
theorem check_literals {schema i o v : Value} {t : String} {c : Condition} {r : ColumnRef}
    (hs : Schema.check schema = .ok ()) (hr : comparedColumn? c = some r)
    (hdots : ∀ s, .text s ∈ literalsOf c → NoDot s) (hc : c.toValue = .comparison i o v)
    (h : checkPlain schema [.text t] i o v = .ok ()) :
    ∃ type, testedType schema [.text t] (optionalText r.table?) (.text r.name) = .ok type ∧
      ∀ l ∈ literalsOf c, (scalarOf l).isText = isType type "string" := by
  have htyped {type} (htype : testedType schema [.text t] (optionalText r.table?) (.text r.name) =
      .ok type) : isType type "int" = true ∨ isType type "string" = true := by
    obtain ⟨u, hu⟩ := tested_type_found htype
    exact column_types hs hu
  cases c with
  | compare c relation x =>
    cases x with
    | column d => cases hr
    | literal l =>
      cases hr
      rw [Condition.toValue] at hc
      cases hc
      obtain ⟨type, htype, hvalue⟩ :=
        check_compared (fun s hs => hdots s (by simp [literalsOf, hs])) h
      refine ⟨type, htype, fun m hm => ?_⟩
      rw [List.mem_singleton.mp hm]
      exact check_value_type hvalue
  | aggregate a relation l => cases hr
  | between c low high =>
    cases hr
    rw [Condition.toValue] at hc
    cases hc
    simp only [checkPlain, namesColumn, Bool.and_false, Bool.false_eq_true, ↓reduceIte, checkTest,
      testedColumn, bind_ok] at h
    obtain ⟨type, htype, hrange⟩ := h
    have hbounds : checkRange (.text c) type (.tuple [low.toValue, high.toValue]) = .ok () := by
      simpa using hrange
    rw [checkRange, bind_ok] at hbounds
    obtain ⟨_, hlow, hhigh⟩ := hbounds
    refine ⟨type, htype, fun m hm => ?_⟩
    rcases List.mem_cons.mp hm with rfl | hm
    · exact check_bound_type (htyped htype) hlow
    · rw [List.mem_singleton.mp hm]
      exact check_bound_type (htyped htype) hhigh
  | inList c l ls =>
    cases hr
    rw [Condition.toValue] at hc
    cases hc
    simp only [checkPlain, namesColumn, Bool.and_false, Bool.false_eq_true, ↓reduceIte, checkTest,
      tested_ref, bind_ok] at h
    obtain ⟨type, htype, hmembers⟩ := h
    have hall : checkMembers (.text r.name) type (.list ((l :: ls).map Literal.toValue)) =
        .ok () := by
      simpa using hmembers
    rw [checkMembers, for_each_ok, List.forall_mem_map] at hall
    exact ⟨type, htype, fun m hm => check_bound_type (htyped htype) (hall m hm)⟩
  | inQuery c q => cases hr
  | connect l w r => cases hr

theorem term_typed {schema : Value} {subquery : Value → Checked Value} {t : String}
    {c : Condition} {r : ColumnRef} (hs : Schema.check schema = .ok ()) (hc : Term c)
    (hr : comparedColumn? c = some r) (hdots : ∀ s, .text s ∈ literalsOf c → NoDot s)
    (h : (checkCondition schema subquery [.text t] c.toValue).outcome = .ok ()) :
    ∀ p ∈ fieldTests (some (.text t)) c, TypedTest schema t p := by
  have hnamed := compared_named hc hr
  obtain ⟨hl, test, htest, hscalars⟩ := compared_test (some (.text t)) hr
  obtain ⟨i, o, v, hv, hcheck⟩ := check_term schema subquery [.text t] hc hl
  rw [hcheck] at h
  obtain ⟨type, htype, hliterals⟩ := check_literals hs hr hdots hv h
  intro p hp
  rw [htest] at hp
  rw [List.mem_singleton.mp hp]
  refine ⟨r, type, hnamed, rfl, tested_type_owner hnamed htype, fun w hw => ?_⟩
  rw [hscalars] at hw
  obtain ⟨l, hl, rfl⟩ := List.mem_map.mp hw
  exact hliterals l hl

/-- The tests of an accepted condition on one table are against values of the columns' types. -/
theorem comb_typed {schema : Value} {subquery : Value → Checked Value} {t : String}
    {c : Condition} (hs : Schema.check schema = .ok ()) (hc : Comb c)
    (hw : ∀ d ∈ comparisons c, ∃ r, comparedColumn? d = some r)
    (hdots : ∀ s, .text s ∈ literalsOf c → NoDot s)
    (h : (checkCondition schema subquery [.text t] c.toValue).outcome = .ok ()) :
    ∀ p ∈ fieldTests (some (.text t)) c, TypedTest schema t p := by
  have hself : ∀ {d : Condition}, Term d → d ∈ comparisons d := by
    intro d hd
    rw [term_comparisons hd]
    exact List.mem_singleton_self d
  induction hc with
  | term ht =>
    obtain ⟨r, hr⟩ := hw _ (hself ht)
    exact term_typed hs ht hr hdots h
  | @connect l r w _ _ hr ih =>
    rw [Condition.toValue] at h
    obtain ⟨hleft, hright, -⟩ := check_connected h
    obtain ⟨column, hcolumn⟩ := hw r (List.mem_append_right _ (hself hr))
    intro p hp
    rcases List.mem_append.mp hp with hp | hp
    · exact ih (fun d hd => hw d (List.mem_append_left _ hd))
        (fun s hs => hdots s (List.mem_append_left _ hs)) hleft p hp
    · exact term_typed hs hr hcolumn (fun s hs => hdots s (List.mem_append_right _ hs)) hright p hp

theorem columns_of_no_aggregates {items : List SelectItem} (h : selectedAggregates items = []) :
    ∃ columns : List ColumnRef, items = columns.map .column := by
  induction items with
  | nil => exact ⟨[], rfl⟩
  | cons x items ih =>
    cases x with
    | aggregate a => cases h
    | column c =>
      obtain ⟨columns, rfl⟩ := ih h
      exact ⟨c :: columns, rfl⟩

/-- Fields with plain values, as the shell shows them. -/
theorem shell_fields {fields : List (String × Value)}
    (h : ∀ f ∈ fields, Succeeds (Command.shellText f.2)) :
    Succeeds (Command.shellText (.dict (putAll [] fields))) := by
  apply shell_dict
  intro e he
  rcases put_all_mem he with he | ⟨f, hf, rfl⟩
  · cases he
  · exact ⟨.ok _, h f hf⟩

/-- The projection of selected columns. -/
theorem projection_shown {l : SelectList} (h : selectedAggregates (selectedItems l) = []) :
    ∃ v, Command.projection l.toValue = .ok v ∧
      (v.present = true → Succeeds (Command.shellText v)) := by
  cases l with
  | all => exact ⟨.null, rfl, fun hpresent => by cases hpresent⟩
  | items x xs =>
    obtain ⟨columns, hcolumns⟩ := columns_of_no_aggregates h
    have hitems : x :: xs = columns.map .column := hcolumns
    rw [SelectList.toValue, hitems, List.map_map, Command.projection]
    split
    · exact ⟨.null, rfl, fun hpresent => by cases hpresent⟩
    · have hfold := insert_all ColumnRef.name (fun _ => Command.one) columns
        (fun es c => do Value.insert es (← Command.shownColumn c.toValue) Command.one)
        (fun _ _ => rfl) []
      refine ⟨.dict (putAll [] (columns.map fun c => (c.name, Command.one))), ?_, fun _ => ?_⟩
      · simp only [Value.items, ok_bind, List.foldlM_map]
        rw [bind_ok]
        exact ⟨_, hfold, rfl⟩
      · apply shell_fields
        intro f hf
        obtain ⟨c, -, rfl⟩ := List.mem_map.mp hf
        exact .ok _

theorem order_shown (os : List OrderItem) :
    ∃ sort?, Command.sortOf (.list (os.map OrderItem.toValue)) = .ok sort? ∧
      ∀ s, sort? = some s → Succeeds (Command.shellText s) := by
  rw [Command.sortOf, order_present]
  cases os with
  | nil => exact ⟨none, rfl, by simp⟩
  | cons o os =>
    refine ⟨some (.dict (orderEntries [] (o :: os))), ?_, ?_⟩
    · simp only [sort_of, ok_bind, List.isEmpty_cons, Bool.not_false, ↓reduceIte, pure_ok]
    · intro s hs
      cases hs
      apply shell_fields
      intro f hf
      obtain ⟨o, -, rfl⟩ := List.mem_map.mp hf
      cases o.direction <;> exact .ok _

theorem tail_text_succeeds {sort? limit? : Option Value}
    (hs : ∀ s, sort? = some s → Succeeds (Command.shellText s))
    (hl : ∀ n, limit? = some n → Succeeds n.str) : Succeeds (Command.tailText sort? limit?) := by
  cases sort? with
  | none =>
    cases limit? with
    | none => exact .ok _
    | some n => exact .bind (.ok _) fun _ => .bind (hl n rfl) fun _ => .ok _
  | some s =>
    refine .bind (hs s rfl) fun _ => .bind (.ok _) fun _ => ?_
    cases limit? with
    | none => exact .ok _
    | some n => exact .bind (hl n rfl) fun _ => .ok _

theorem command_lift_succeeds {α : Type} {x : Except Fault α} (h : Succeeds x) :
    Succeeds (liftM x : Except Command.Error α) := by
  obtain ⟨a, rfl⟩ := h
  exact .ok a

/-- A statement without groups has a command if its condition has a filter. -/
theorem find_succeeds {base? : Option Value} {q : Query} {t : String} {f : Value}
    (ht : q.source = .table t) (hgroups : groupsRows q = false)
    (hf : Command.filterOf base? (partsOf q).condition = .ok f)
    (htext : Succeeds (Command.shellText f)) :
    Succeeds (Command.findCommand base? (partsOf q)) := by
  obtain ⟨hno, -⟩ : selectedAggregates (selectedItems q.items) = [] ∧ q.groupBy = [] := by
    simpa [groupsRows] using hgroups
  obtain ⟨v, hv, hshown⟩ := projection_shown hno
  obtain ⟨sort?, hsort, hsorted⟩ := order_shown q.orderBy
  have htable : (partsOf q).table = .text t := by simp [partsOf, ht, sourceTable]
  have hlimit : ∀ n, Command.limitOf (partsOf q).limit = some n → Succeeds n.str := by
    intro n hn
    cases hq : q.limit? with
    | none => simp [partsOf, hq, optionalNumber, Command.limitOf] at hn
    | some m =>
      obtain rfl : .int m = n := by simpa [partsOf, hq, optionalNumber, Command.limitOf] using hn
      exact .ok _
  have hcolumns : (partsOf q).columns = q.items.toValue := rfl
  have horder : (partsOf q).orderBy = .list (q.orderBy.map OrderItem.toValue) := rfl
  simp only [Command.findCommand, hf, hcolumns, hv, horder, hsort, htable, command_lift, ok_bind,
    str_text]
  have htail := command_lift_succeeds (tail_text_succeeds hsorted hlimit)
  refine .bind (command_lift_succeeds htext) fun _ => .ite (fun hpresent => ?_) ?_
  · refine .bind (command_lift_succeeds (hshown hpresent)) fun _ => .bind (.ok _) fun _ => ?_
    exact .bind htail fun _ => .ok _
  · exact .bind (.ok _) fun _ => .bind htail fun _ => .ok _

/-- The filter of an accepted condition on one table has a text and is simplified. -/
theorem condition_simplified {schema : Value} {subquery : Value → Checked Value} {t : String}
    {c : Condition} (hs : Schema.check schema = .ok ()) (hc : Comb c)
    (hw : ∀ d ∈ comparisons c, ∃ r, comparedColumn? d = some r)
    (hdots : ∀ s, .text s ∈ literalsOf c → NoDot s)
    (h : (checkCondition schema subquery [.text t] c.toValue).outcome = .ok ()) :
    ∃ f g, Command.filter (some (.text t)) c.toValue = .ok f ∧ Succeeds (Command.shellText f) ∧
      Command.simplifyFilter f = .ok g ∧ Shows g := by
  obtain ⟨s, hf, hchain, htests⟩ := filter_of_comb (some (.text t)) hc (compared_literal hw)
  have hagree : AgreeOnTypes s.tests := by
    rw [htests]
    exact typed_agree (comb_typed hs hc hw hdots h)
  obtain ⟨g, hg, hshows⟩ := simplify_shows hchain hagree
  exact ⟨s.toValue, g, hf, shell_selector s, hg, hshows⟩

/-- The condition of an accepted statement on one table was accepted for this table. -/
theorem accepted_condition {schema : Value} {q : Query} {t : String} {c : Condition}
    (ht : q.source = .table t) (hw : q.condition? = some c) (hc : Comb c) (hl : isLiteral c = true)
    (h : (Check.check schema q.toValue).outcome = .ok ()) :
    ∃ subquery, (checkCondition schema subquery [.text t] c.toValue).outcome = .ok () := by
  rw [statement_parts] at h
  have hselect : (checkSelect schema (checkNested schema (Value.select (partsOf q)).depth)
      (partsOf q)).outcome = .ok () := h
  have htable : (partsOf q).table = .text t := by simp [partsOf, ht, sourceTable]
  have hjoins : (partsOf q).joins = .list [] := by simp [partsOf, ht, sourceJoins]
  have hcondition : (partsOf q).condition = c.toValue := by simp [partsOf, hw, optionalCondition]
  exact ⟨_, (check_select_keeps htable hjoins hcondition hc hl hselect).2⟩

/-- The filter of an accepted statement on one table has a text and is simplified. -/
theorem accepted_filter {schema : Value} {q : Query} {t : String} (hnamed : Named q)
    (hs : Schema.check schema = .ok ()) (ht : q.source = .table t)
    (hw : ∀ c, q.condition? = some c → ∀ d ∈ comparisons c, ∃ r, comparedColumn? d = some r)
    (hdots : ∀ c, q.condition? = some c → ∀ s, .text s ∈ literalsOf c → NoDot s)
    (h : (Check.check schema q.toValue).outcome = .ok ()) :
    ∃ f g, Command.filterOf (some (.text t)) (partsOf q).condition = .ok f ∧
      Succeeds (Command.shellText f) ∧ Command.simplifyFilter f = .ok g ∧ Shows g := by
  cases hc : q.condition? with
  | none =>
    refine ⟨.dict [], .dict [], ?_, .ok _, rfl, .dict [], rfl, .ok _⟩
    simp [partsOf, hc, optionalCondition, Command.filterOf, Value.present]
  | some c =>
    have hcondition : (partsOf q).condition = c.toValue := by simp [partsOf, hc, optionalCondition]
    have hcomb := hnamed.condition c hc
    obtain ⟨subquery, haccepted⟩ :=
      accepted_condition ht hc hcomb (compared_literal (hw c hc)) h
    rw [hcondition, filter_of_present]
    exact condition_simplified hs hcomb (hw c hc) (hdots c hc) haccepted

theorem reference_literal (d : ColumnRef) : Succeeds d.toValue.literal := by
  apply literal_doc_succeeds
  obtain ⟨table?, name⟩ := d
  cases table? <;> simp [optionalText] <;> exact ⟨.ok _, .ok _⟩

theorem reference_shell (d : ColumnRef) : Succeeds (Command.shellText d.toValue) := by
  refine shell_dict fun e he => ?_
  obtain ⟨table?, name⟩ := d
  cases table? <;> simp [optionalText] at he <;>
    rcases he with rfl | rfl <;> exact ⟨.ok _, .ok _⟩

/-- A comparison has a filter with a text, unless it asks for a subquery. -/
theorem term_filter (base? : Option Value) {c : Condition} (hc : Term c)
    (hq : asksQuery c = false) :
    ∃ f, Command.filter base? c.toValue = .ok f ∧ Succeeds f.literal ∧
      Succeeds (Command.shellText f) := by
  by_cases hl : isLiteral c = true
  · obtain ⟨name, test, hf, -⟩ := filter_of_term base? hc hl
    exact ⟨_, hf, literal_selector_succeeds _, shell_selector _⟩
  · cases hc with
    | @compare c r x hc =>
      cases x with
      | literal l => exact absurd rfl hl
      | column d =>
        have hd := reference_literal d
        have hshell := reference_shell d
        simp only [Condition.toValue, Command.filter, field_of_ref, command_lift, ok_bind]
        cases r with
        | eq => exact ⟨_, rfl, literal_stage_succeeds hd, shell_single hshell⟩
        | ne | gt | lt | ge | le =>
          exact ⟨_, rfl, literal_stage_succeeds (literal_stage_succeeds hd),
            shell_single (shell_single hshell)⟩
    | aggregate => exact absurd rfl hl
    | between => exact absurd rfl hl
    | inList => exact absurd rfl hl
    | inQuery => cases hq

theorem comb_filter (base? : Option Value) {c : Condition} (hc : Comb c)
    (hq : asksQuery c = false) :
    ∃ f, Command.filter base? c.toValue = .ok f ∧ Succeeds f.literal ∧
      Succeeds (Command.shellText f) := by
  induction hc with
  | term ht => exact term_filter base? ht hq
  | @connect l r w _ hw hr ih =>
    simp only [asksQuery, Bool.or_eq_false_iff] at hq
    obtain ⟨f, hf, hftext, hfshell⟩ := ih hq.1
    obtain ⟨g, hg, hgtext, hgshell⟩ := term_filter base? hr hq.2
    obtain ⟨k, hk⟩ := connective_of_keyword hw
    refine ⟨doc [(k.key, .list [f, g])], ?_, ?_, ?_⟩
    · simp [Condition.toValue, Command.filter, hf, hg, hk]
    · apply literal_stage_succeeds
      rw [literal_list_succeeds]
      simpa using ⟨hftext, hgtext⟩
    · apply shell_single
      apply shell_list
      simpa using ⟨hfshell, hgshell⟩

theorem clause_filter (base? : Option Value) {c? : Option Condition}
    (hc : ∀ c, c? = some c → Comb c) (hq : ∀ c, c? = some c → asksQuery c = false) :
    ∃ f?, ClauseFilter base? c? f? ∧
      ∀ s ∈ (f?.map Command.matchStage).toList, Succeeds s.literal := by
  cases c? with
  | none => exact ⟨none, .none, by simp⟩
  | some c =>
    obtain ⟨f, hf, htext, -⟩ := comb_filter base? (hc c rfl) (hq c rfl)
    refine ⟨some f, .some hf, fun s hs => ?_⟩
    rw [List.mem_singleton.mp hs]
    exact literal_stage_succeeds htext

/-- A grouped statement has a command, which is simplified. -/
theorem group_simplified {q : Query} {t : String} (hnamed : Named q) (ht : q.source = .table t)
    (hw : ∀ c, q.condition? = some c → asksQuery c = false)
    (hh : ∀ c, q.having? = some c → asksQuery c = false) :
    ∃ command simple, Command.groupCommand (some (.text t)) (partsOf q) = .ok command ∧
      Command.simplify command = .ok simple := by
  obtain ⟨where?, hwhere, hwtext⟩ := clause_filter (some (.text t)) hnamed.condition hw
  obtain ⟨having?, hhaving, hhtext⟩ := clause_filter (some (.text t)) hnamed.having hh
  obtain ⟨string, hpipeline⟩ := pipeline_command_shown t (group_stages_texts q hwtext hhtext)
  have hcommand : Command.groupCommand (some (.text t)) (partsOf q) =
      .ok (pipelineDocument string (.text t) (groupStages q where? having?)) := by
    rw [group_command_of hwhere hhaving, ht, sourceTable, hpipeline]
    rfl
  obtain ⟨string', collection, stages, hparts, hname, hshown, hstages, -⟩ := group_stages hcommand
  obtain ⟨simple, hsimple⟩ := simplify_pipeline string' hstages hname hshown
  exact ⟨_, _, hcommand, hparts ▸ hsimple⟩

/-- A statement on one table that groups no rows has a command, which is simplified. -/
theorem find_simplified {base? : Option Value} {q : Query} {t : String} {f g : Value}
    (ht : q.source = .table t) (hgroups : groupsRows q = false)
    (hf : Command.filterOf base? (partsOf q).condition = .ok f)
    (htext : Succeeds (Command.shellText f)) (hg : Command.simplifyFilter f = .ok g)
    (hshows : Shows g) :
    ∃ command simple, Command.findCommand base? (partsOf q) = .ok command ∧
      Command.simplify command = .ok simple := by
  obtain ⟨command, hcommand⟩ := find_succeeds ht hgroups hf htext
  obtain ⟨parts, string, rfl, hshown, hfilter, -⟩ := find_command_parts hcommand
  obtain rfl : f = parts.filter := Except.ok.inj (hf.symm.trans hfilter)
  obtain ⟨r, hr, hrtext⟩ := hshows
  obtain ⟨string', hsimple⟩ := simplify_find string hshown hg hr hrtext
  exact ⟨_, _, hcommand, hsimple⟩

/-- An accepted statement on one table never fails: it has a command, and the command has a simpler
form. Its condition compares columns with literals, and no text in it could name a column. -/
theorem one_table_succeeds {schema : Value} {sql : String} {line : Nat} {q : Query} {t : String}
    (hs : Schema.check schema = .ok ()) (hq : Sql.parse sql line = .ok q)
    (ht : q.source = .table t)
    (hw : ∀ c, q.condition? = some c → ∀ d ∈ comparisons c, ∃ r, comparedColumn? d = some r)
    (hdots : ∀ c, q.condition? = some c → ∀ s, .text s ∈ literalsOf c → NoDot s)
    (hh : ∀ c, q.having? = some c → asksQuery c = false)
    (hcheck : (Check.check schema q.toValue).outcome = .ok ()) :
    ∃ command simple, Pipeline.command schema sql line = .ok command ∧
      Pipeline.simplify command = .ok simple := by
  have hnamed := parse_named hq
  have hno : ∀ c, q.condition? = some c → asksQuery c = false := by
    intro c hc
    rw [← has_subquery_condition]
    exact comb_no_subquery (hnamed.condition c hc) (compared_literal (hw c hc))
  obtain ⟨command, simple, htranslate, hsimple⟩ : ∃ command simple,
      Command.translate q.toValue = .ok command ∧ Command.simplify command = .ok simple := by
    have hany : q.condition?.any asksQuery = false := by
      cases hc : q.condition? with
      | none => rfl
      | some c => exact hno c hc
    rw [translate_of, hany, ht]
    cases hgroups : groupsRows q with
    | true => exact group_simplified hnamed ht hno hh
    | false =>
      obtain ⟨f, g, hf, htext, hg, hshows⟩ := accepted_filter hnamed hs ht hw hdots hcheck
      exact find_simplified ht hgroups hf htext hg hshows
  exact ⟨command, simple, command_accepted hq hcheck htranslate, map_error_ok.mpr hsimple⟩

/-- The cities of three users who are young or old. -/
def youngOrOld : Query :=
  ⟨.items (.column ⟨none, "city"⟩) [], .table "users",
    some (.connect (.connect (.compare ⟨none, "age"⟩ .gt (.literal (.number 60))) "OR"
      (.compare ⟨some "users", "age"⟩ .lt (.literal (.number 18)))) "or"
      (.compare ⟨none, "age"⟩ .gt (.literal (.number 40)))),
    [], none, [], some 3⟩

def youngOrOldText : String :=
  "SELECT city FROM users WHERE age > 60 OR users.age < 18 or age > 40 LIMIT 3;"

/-- The weakest bound of the ages is found. -/
theorem one_table_ages :
    Schema.check shopSchema = .ok () ∧ Sql.parse youngOrOldText 1 = .ok youngOrOld ∧
      (Check.check shopSchema youngOrOld.toValue).outcome = .ok () ∧
      ∃ command simple, Pipeline.command shopSchema youngOrOldText 1 = .ok command ∧
        Pipeline.simplify command = .ok simple := by
  have hschema : Schema.check shopSchema = .ok () := rfl
  have hparse : Sql.parse youngOrOldText 1 = .ok youngOrOld := parse_spelled ⟨rfl, rfl⟩ rfl
  have hcheck : (Check.check shopSchema youngOrOld.toValue).outcome = .ok () := rfl
  refine ⟨hschema, hparse, hcheck, one_table_succeeds hschema hparse rfl ?_ ?_ ?_ hcheck⟩
  · intro c hc
    cases hc
    simp [comparisons, comparedColumn?]
  · intro c hc
    cases hc
    simp [literalsOf]
  · intro c hc
    cases hc

end DocQuery.Proofs
