import DocQuery.Proofs.PrintedPipelines
import DocQuery.Proofs.SecondPass
import Mathlib.Data.List.Sort

namespace DocQuery.Proofs

open Sql
open Value (doc)

/-- The second list has exactly the values of the first one, each of them less than the next. -/
structure InAscent (vs ws : List Value) : Prop where
  ascending : ws.Pairwise fun v w => v.less w = .ok true
  values : ∀ v, v ∈ ws ↔ v ∈ vs

mutual
/-- The second value is the first one with every list of members in ascending order. -/
inductive MembersInAscent : Value → Value → Prop where
  | atom {v : Value} (hlist : v.kind ≠ .list) (hdict : v.kind ≠ .dict) : MembersInAscent v v
  | list {xs ys : List Value} (h : List.Forall₂ MembersInAscent xs ys) :
      MembersInAscent (.list xs) (.list ys)
  | dict {es fs : Entries} (h : List.Forall₂ EntryInAscent es fs) :
      MembersInAscent (.dict es) (.dict fs)

/-- Only under the key of a membership test the values may stand in another order. -/
inductive EntryInAscent : Value × Value → Value × Value → Prop where
  | members {vs ws : List Value} (h : InAscent vs ws) :
      EntryInAscent (.text "$in", .list vs) (.text "$in", .list ws)
  | other {k v w : Value} (hk : k ≠ .text "$in") (h : MembersInAscent v w) :
      EntryInAscent (k, v) (k, w)
end

/-- A value without lists of members. -/
inductive Memberless : Value → Prop where
  | atom {v : Value} (hlist : v.kind ≠ .list) (hdict : v.kind ≠ .dict) : Memberless v
  | list {xs : List Value} (h : ∀ x ∈ xs, Memberless x) : Memberless (.list xs)
  | dict {es : Entries} (hkeys : ∀ e ∈ es, ∃ k, e.1 = .text k ∧ k ≠ "$in")
      (h : ∀ e ∈ es, Memberless e.2) : Memberless (.dict es)

/-- Filters as they are generated: members stand alone under their key, below the name of a field,
and are of one type. -/
inductive Sortable : Value → Prop where
  | empty : Sortable (.dict [])
  | members {name : String} {ms : List Scalar} (hname : name ≠ "$in") (ho : OneType ms) :
      Sortable (single (name, (FieldTest.among ms).toValue))
  | test {name : String} {v : Value} (hname : name ≠ "$in") (hv : Memberless v) :
      Sortable (single (name, v))
  | connect {key : String} {fs : List Value} (hkey : key ≠ "$in") (h : ∀ f ∈ fs, Sortable f) :
      Sortable (single (key, .list fs))

/-- What sorting the members of a filter comes to. -/
structure SortsTo (f g : Value) : Prop where
  sorted : Command.sortMembers f = .ok g
  only : MembersInAscent f g
  again : Command.sortMembers g = .ok g

theorem sort_items_of {xs : List Value} (h : ∀ x ∈ xs, ∃ y, SortsTo x y) :
    ∃ ys, Command.sortMemberItems xs = .ok ys ∧ List.Forall₂ MembersInAscent xs ys ∧
      Command.sortMemberItems ys = .ok ys := by
  induction xs with
  | nil => exact ⟨[], rfl, .nil, rfl⟩
  | cons x xs ih =>
    obtain ⟨⟨y, hy⟩, hrest⟩ := List.forall_mem_cons.mp h
    obtain ⟨ys, hsorted, honly, hagain⟩ := ih hrest
    exact ⟨y :: ys, by simp [Command.sortMemberItems, hy.sorted, hsorted], .cons hy.only honly,
      by simp [Command.sortMemberItems, hy.again, hagain]⟩

theorem text_not_in {k : String} (h : k ≠ "$in") : Value.text k ≠ .text "$in" :=
  fun hk => h (Value.text.inj hk)

/-- A document without the key for members holds none itself. -/
theorem no_membership {v : Value} (h : Memberless v) : Command.isMembership v = false := by
  cases h with
  | atom hlist hdict =>
    cases v with
    | dict es => exact absurd rfl hdict
    | _ => rfl
  | list => rfl
  | @dict es hkeys _ =>
    rw [Command.isMembership, Entries.has, List.any_eq_false]
    intro e he hsame
    obtain ⟨k, hk, hne⟩ := hkeys e he
    rw [hk, same_text, beq_iff_eq] at hsame
    exact hne hsame

/-- There is nothing to sort in a value without lists of members. -/
theorem memberless_sorts {v : Value} (h : Memberless v) : SortsTo v v := by
  suffices hkeeps : Command.sortMembers v = .ok v ∧ MembersInAscent v v from
    ⟨hkeeps.1, hkeeps.2, hkeeps.1⟩
  induction h with
  | @atom v hlist hdict =>
    refine ⟨?_, .atom hlist hdict⟩
    cases v with
    | list xs => exact absurd rfl hlist
    | dict es => exact absurd rfl hdict
    | _ => rfl
  | @list xs h ih =>
    have hitems : Command.sortMemberItems xs = .ok xs ∧ List.Forall₂ MembersInAscent xs xs := by
      clear h
      induction xs with
      | nil => exact ⟨rfl, .nil⟩
      | cons x xs ihs =>
        obtain ⟨hx, hrest⟩ := List.forall_mem_cons.mp ih
        obtain ⟨hsorted, honly⟩ := ihs hrest
        exact ⟨by simp [Command.sortMemberItems, hx.1, hsorted], .cons hx.2 honly⟩
    exact ⟨by simp [Command.sortMembers, hitems.1], .list hitems.2⟩
  | @dict es hkeys h ih =>
    have hentries : Command.sortMemberEntries es = .ok es ∧ List.Forall₂ EntryInAscent es es := by
      induction es with
      | nil => exact ⟨rfl, .nil⟩
      | cons e es ihs =>
        obtain ⟨hkey, hkeys⟩ := List.forall_mem_cons.mp hkeys
        obtain ⟨he, hrest⟩ := List.forall_mem_cons.mp h
        obtain ⟨hsort, hih⟩ := List.forall_mem_cons.mp ih
        obtain ⟨hsorted, honly⟩ := ihs hkeys hrest hih
        have hunder : sortUnder e.2 = .ok e.2 := by
          rw [sortUnder, no_membership he]
          exact hsort.1
        obtain ⟨k, hk, hne⟩ := hkey
        have hother : e.1 ≠ .text "$in" := hk ▸ text_not_in hne
        exact ⟨sort_entries_cons hunder hsorted, .cons (.other hother hsort.2) honly⟩
    exact ⟨by simp [Command.sortMembers, hentries.1], .dict hentries.2⟩

theorem single_in_ascent {k : String} {v w : Value} (h : EntryInAscent (.text k, v) (.text k, w)) :
    MembersInAscent (single (k, v)) (single (k, w)) :=
  .dict (.cons h .nil)

/-- Ascending scalars of the same type are ascending values. -/
theorem ascending_values {ms : List Scalar} (ho : OneType ms) (h : Ascending ms) :
    (ms.map Scalar.toValue).Pairwise fun v w => v.less w = .ok true := by
  rw [List.pairwise_map]
  exact h.imp_of_mem fun hv hw hlt => by rw [less_scalar (ho _ hv _ hw), hlt]

/-- Only one list has given members in ascending order. -/
theorem ascending_unique {ms ns : List Scalar} (hm : Ascending ms) (hn : Ascending ns)
    (h : ∀ v, v ∈ ms ↔ v ∈ ns) : ms = ns := by
  have : Std.Irrefl fun v w : Scalar => v.lt w = true := ⟨fun v => by simp [scalar_lt_irrefl]⟩
  have : Std.Antisymm fun v w : Scalar => v.lt w = true :=
    ⟨fun v w hvw hwv => by simpa [scalar_lt_irrefl] using scalar_lt_trans hvw hwv⟩
  exact List.Pairwise.eq_of_mem_iff hm hn h

/-- Members of one type are put in ascending order, and then stay. -/
theorem members_sort {name : String} {ms : List Scalar} (hname : name ≠ "$in")
    (ho : OneType ms) : ∃ g, SortsTo (single (name, (FieldTest.among ms).toValue)) g := by
  obtain ⟨ns, hns, hasc, hmem⟩ := sort_among ho
  have hsame : OneType ns := ho.subset fun w hw => (hmem w).mp hw
  obtain ⟨ns', hns', hasc', hmem'⟩ := sort_among hsame
  obtain rfl := ascending_unique hasc' hasc hmem'
  have hascent : InAscent (ms.map Scalar.toValue) (ns'.map Scalar.toValue) := by
    refine ⟨ascending_values hsame hasc, fun v => ?_⟩
    simp only [List.mem_map, hmem]
  exact ⟨single (name, (FieldTest.among ns').toValue), sort_single hns,
    single_in_ascent (.other (text_not_in hname) (.dict (.cons (.members hascent) .nil))),
    sort_single hns'⟩

/-- The members in a generated filter can be sorted. -/
theorem sortable_sorts {f : Value} (h : Sortable f) : ∃ g, SortsTo f g := by
  induction h with
  | empty => exact ⟨.dict [], rfl, .dict .nil, rfl⟩
  | members hname ho => exact members_sort hname ho
  | test hname hv =>
    refine ⟨_, memberless_sorts (.dict ?_ ?_)⟩
    · simpa using hname
    · simpa using hv
  | connect hkey _ ih =>
    obtain ⟨ys, hsorted, honly, hagain⟩ := sort_items_of ih
    refine ⟨single (_, .list ys), sort_single ?_,
      single_in_ascent (.other (text_not_in hkey) (.list honly)), sort_single ?_⟩
    · simp [sortUnder, Command.isMembership, Command.sortMembers, hsorted]
    · simp [sortUnder, Command.isMembership, Command.sortMembers, hagain]

theorem text_memberless (s : String) : Memberless (.text s) :=
  .atom (by simp [Value.kind]) (by simp [Value.kind])

theorem literal_memberless (l : Literal) : Memberless l.toValue := by
  cases l with
  | number n =>
    exact .atom (by simp [Literal.toValue, Value.kind]) (by simp [Literal.toValue, Value.kind])
  | text s => exact text_memberless s

theorem doc_memberless {fields : List (String × Value)} (hkeys : ∀ p ∈ fields, p.1 ≠ "$in")
    (h : ∀ p ∈ fields, Memberless p.2) : Memberless (doc fields) := by
  refine .dict ?_ ?_
  · rw [List.forall_mem_map]
    exact fun p hp => ⟨p.1, rfl, hkeys p hp⟩
  · rw [List.forall_mem_map]
    exact h

theorem column_memberless (c : ColumnRef) : Memberless c.toValue := by
  have htable : Memberless (optionalText c.table?) := by
    cases c.table? with
    | none => exact .atom (by decide) (by decide)
    | some t => exact text_memberless t
  refine doc_memberless (by simp) ?_
  simpa using ⟨htable, text_memberless c.name⟩

theorem operand_memberless (x : Operand) : Memberless x.toValue := by
  cases x with
  | column c => exact column_memberless c
  | literal l => exact literal_memberless l

theorem plain_not_in {name : String} (h : Plain name) : name ≠ "$in" := by
  rintro rfl
  exact h rfl

/-- A comparison with one value makes no list of members. -/
theorem compared_sortable {base? : Option Value} {i v f : Value} {r : Relation} {name : String}
    (hi : Command.fieldOf base? i = .ok (.text name)) (hname : Plain name) (hv : Memberless v)
    (h : Command.filter base? (.comparison i r.toValue v) = .ok f) : Sortable f := by
  obtain ⟨t, ht, hf⟩ := comparison_document hi h
  cases t with
  | eq =>
    cases hf
    exact .test (plain_not_in hname) hv
  | member => exact absurd rfl (relation_test ht).1
  | between => exact absurd rfl (relation_test ht).2
  | _ =>
    cases hf
    exact .test (plain_not_in hname) (doc_memberless (by simp) (by simpa using hv))

/-- The filter of a comparison whose members, if it has any, are of one type. -/
theorem term_sortable {base? : Option Value} {c : Condition} {f : Value} (ht : Term c)
    (hlists : ∀ r l ls, c = .inList r l ls → OneType ((l :: ls).map scalarOf))
    (h : Command.filter base? c.toValue = .ok f) : Sortable f := by
  cases ht with
  | @compare c r x hc hx =>
    rw [Condition.toValue] at h
    exact compared_sortable (field_of_ref base? c) (column_field_plain base? hc)
      (operand_memberless x) h
  | @aggregate a r l ha =>
    rw [Condition.toValue] at h
    exact compared_sortable (field_of_aggregate base? a) (aggregate_name_plain a)
      (literal_memberless l) h
  | @between c low high hc =>
    rw [Condition.toValue] at h
    obtain rfl := Except.ok.inj (h.symm.trans rfl)
    refine .test (plain_not_in hc.plain) (doc_memberless (by simp) ?_)
    simpa using ⟨literal_memberless low, literal_memberless high⟩
  | @inList c l ls hc =>
    rw [Condition.toValue] at h
    simp only [Command.filter, field_of_ref, command_lift, ok_bind, literal_values] at h
    obtain rfl := Except.ok.inj (h.symm.trans rfl)
    exact .members (plain_not_in (column_field_plain base? hc)) (hlists c l ls rfl)
  | inQuery hc =>
    rw [Condition.toValue] at h
    simp only [Command.filter, field_of_ref, command_lift, ok_bind] at h
    cases h

/-- Each list in a condition has members of one type. -/
def AgreeingLists (c : Condition) : Prop :=
  ∀ r l ls, .inList r l ls ∈ comparisons c → OneType ((l :: ls).map scalarOf)

theorem term_agreeing {c : Condition} (ht : Term c) (hlists : AgreeingLists c) :
    ∀ r l ls, c = .inList r l ls → OneType ((l :: ls).map scalarOf) := by
  rintro r l ls rfl
  exact hlists r l ls (by simp [comparisons])

theorem comb_sortable {base? : Option Value} {c : Condition} {f : Value} (hc : Comb c)
    (hlists : AgreeingLists c) (h : Command.filter base? c.toValue = .ok f) : Sortable f := by
  induction hc generalizing f with
  | term ht => exact term_sortable ht (term_agreeing ht hlists) h
  | @connect l r w _ hw hr ih =>
    obtain ⟨k, hk⟩ := connective_of_keyword hw
    rw [Condition.toValue, Command.filter] at h
    simp only [hk, ok_bind, bind_ok] at h
    obtain ⟨left, hleft, right, hright, hx⟩ := h
    cases hx
    have hleft := ih (fun r l ls hm => hlists r l ls (List.mem_append_left _ hm)) hleft
    have hright := term_sortable hr
      (term_agreeing hr fun r l ls hm => hlists r l ls (List.mem_append_right _ hm)) hright
    have hkey : k.key ≠ "$in" := by cases k <;> decide
    exact .connect hkey (by simpa using ⟨hleft, hright⟩)

/-- The members of a list that is accepted have the type of the column. -/
theorem members_agree {schema : Value} {tables : List Value} {r : ColumnRef} {l : Literal}
    {ls : List Literal} (hs : Schema.check schema = .ok ())
    (h : conditionVerdict schema tables (.inList r l ls) = .ok ()) :
    OneType ((l :: ls).map scalarOf) := by
  rw [in_list_verdict, bind_ok] at h
  obtain ⟨type, htype, hmembers⟩ := h
  obtain ⟨t, ht⟩ := tested_type_found htype
  have htyped := column_types hs ht
  rw [Check.checkMembers, for_each_ok, List.forall_mem_map] at hmembers
  have hall : ∀ v ∈ (l :: ls).map scalarOf, v.isText = Check.isType type "string" := by
    rw [List.forall_mem_map]
    exact fun m hm => check_bound_type htyped (hmembers m hm)
  exact fun v hv w hw => (hall v hv).trans (hall w hw).symm

theorem accepted_agree {schema : Value} {tables : List Value} (hs : Schema.check schema = .ok ())
    (c : Condition) (h : conditionVerdict schema tables c = .ok ()) : AgreeingLists c := by
  match c with
  | .connect l w r =>
    simp only [conditionVerdict, bind_ok] at h
    obtain ⟨_, hl, hr⟩ := h
    intro column m ms hm
    rcases List.mem_append.mp hm with hm | hm
    · exact accepted_agree hs l hl column m ms hm
    · exact accepted_agree hs r hr column m ms hm
  | .inList r l ls =>
    intro column m ms hm
    obtain ⟨rfl, rfl, rfl⟩ : column = r ∧ m = l ∧ ms = ls := by simpa [comparisons] using hm
    exact members_agree hs h
  | .compare .. | .aggregate .. | .between .. | .inQuery .. =>
    intro column m ms hm
    simp [comparisons] at hm

/-- The filters of a command: the one by which it searches, or those of its stages. -/
def filtersOf (command : Value) : List Value :=
  match command.entry "filter", command.entry "pipeline" with
  | .ok f, _ => [f]
  | _, .ok (.list stages) => stages.filterMap filterIn?
  | _, _ => []

theorem find_filters (parts : FindParts) (string : String) :
    filtersOf (parts.toValue string) = [parts.filter] := rfl

theorem pipeline_filters (string : String) (collection : Value) (stages : List Value) :
    filtersOf (pipelineDocument string collection stages) = stages.filterMap filterIn? := rfl

/-- A clause of a statement, or a comparison in it. -/
def HasCondition (q : Query) (c : Condition) : Prop :=
  ∃ w, (q.condition? = some w ∨ q.having? = some w) ∧ (c = w ∨ c ∈ comparisons w)

/-- The filter of a condition that a statement has. -/
def HasFilter (q : Query) (f : Value) : Prop :=
  ∃ base? c, HasCondition q c ∧ Command.filter base? c.toValue = .ok f

/-- The filters in the commands of a statement. -/
inductive FilterOf (q : Query) : Value → Prop where
  | empty : FilterOf q (.dict [])
  | one {f : Value} (h : HasFilter q f) : FilterOf q f
  | all {fs : List Value} (h : ∀ f ∈ fs, HasFilter q f) : FilterOf q (doc [("$and", .list fs)])
  | found {c : ColumnRef} {inner : Query} {t : String}
      (hw : q.condition? = some (.inQuery c inner)) (ht : sourceTable inner.source = .text t) :
      FilterOf q (doc [(t, doc [("$ne", .list [])])])

theorem match_stage_filters (filter? : Option Value) :
    (filter?.map Command.matchStage).toList.filterMap filterIn? = filter?.toList := by
  cases filter? <;> rfl

theorem other_stage_filters {stages : List Value} (h : ∀ s ∈ stages, OtherStage s) :
    stages.filterMap filterIn? = [] :=
  List.filterMap_eq_nil_iff.mpr fun s hs => (h s hs).no_filter

theorem group_stage_filters (q : Query) (where? having? : Option Value) :
    (groupStages q where? having?).filterMap filterIn? = where?.toList ++ having?.toList := by
  have hclosing : (closingStages q).filterMap filterIn? = [] := by
    refine other_stage_filters fun s hs => ?_
    obtain ⟨op, body, rfl, hop, -⟩ := closing_stage hs
    exact ⟨op, body, rfl, hop⟩
  have hgroup (key : Value) : filterIn? (doc [("$group", key)]) = none :=
    not_filter key (by decide)
  simp [groupStages, List.filterMap_append, match_stage_filters, hclosing, hgroup]

/-- The stages of a look-up have no filter. -/
theorem lookup_stage_filters (source local_ foreign field : Value) :
    [Command.lookupStage source local_ foreign, doc [("$unwind", field)]].filterMap filterIn? =
      [] := rfl

theorem join_stage_filters (j : Joining) (columns : List ColumnRef) (where? : Option Value) :
    (joinStages j columns where?).filterMap filterIn? = where?.toList := by
  have hadd : (addStages (putAll [] (movedFields j.joined columns))).filterMap filterIn? = [] := by
    unfold addStages
    split <;> rfl
  have hproject (fields : Entries) : filterIn? (Command.projectStage fields) = none :=
    (project_other fields).no_filter
  rw [joinStages, List.filterMap_append, List.filterMap_append, List.filterMap_append,
    lookup_stage_filters, match_stage_filters, hadd]
  simp [hproject]

theorem comma_stage_filters (base joined : String) (c d : ColumnRef) (filter? : Option Value)
    (shown : Entries) : (commaStages base joined c d filter? ++
      [Command.projectStage shown]).filterMap filterIn? = filter?.toList := by
  have hproject : filterIn? (Command.projectStage shown) = none := (project_other shown).no_filter
  rw [commaStages, List.filterMap_append, List.filterMap_append, lookup_stage_filters,
    match_stage_filters]
  simp [hproject]

section Translated
variable {q : Query} {command f : Value}

theorem clause_filter_of {base? f? : Option Value} {c? : Option Condition}
    (hc : c? = q.condition? ∨ c? = q.having?) (h : ClauseFilter base? c? f?)
    (hf : f ∈ f?.toList) : FilterOf q f := by
  cases h with
  | none => simp at hf
  | some h =>
    obtain rfl : f = _ := by simpa using hf
    exact .one ⟨base?, _, ⟨_, hc.imp Eq.symm Eq.symm, .inl rfl⟩, h⟩

theorem conjunction_filter_of {base? filter? : Option Value} {cs : List Condition}
    (hcs : ∀ c ∈ cs, HasCondition q c)
    (h : Command.conjunction base? (cs.map Condition.toValue) = .ok filter?)
    (hf : f ∈ filter?.toList) : FilterOf q f := by
  obtain rfl : filter? = some f := by simpa using hf
  cases conjunction_cases h with
  | one hf => exact .one ⟨base?, _, hcs _ List.mem_cons_self, hf⟩
  | all hfs =>
    refine .all fun g hg => ?_
    obtain ⟨c, hc, hg⟩ := related_left hfs hg
    exact ⟨base?, c, hcs c hc, hg⟩

theorem group_filter_of {base? : Option Value}
    (h : Command.groupCommand base? (partsOf q) = .ok command) (hf : f ∈ filtersOf command) :
    FilterOf q f := by
  obtain ⟨where?, having?, hwhere, hhaving, hcommand⟩ := group_command_filters h
  obtain ⟨string, rfl, -⟩ := pipeline_command_parts hcommand
  rw [pipeline_filters, group_stage_filters] at hf
  rcases List.mem_append.mp hf with hf | hf
  · exact clause_filter_of (.inl rfl) hwhere hf
  · exact clause_filter_of (.inr rfl) hhaving hf

theorem clause_join_filter_of {base joined : String} {on : Condition} (hnamed : Named q)
    (hsource : q.source = .join base joined on) (hno : q.condition?.any asksQuery = false)
    (h : Command.translate q.toValue = .ok command) (hf : f ∈ filtersOf command) :
    FilterOf q f := by
  obtain ⟨c, r, d, rfl⟩ := clause_columns hsource hno h
  obtain ⟨where?, hwhere, -⟩ := clause_filter (some (.text base)) hnamed.condition
    fun c hc => by rwa [hc] at hno
  rw [clause_pipeline hsource hno hwhere, command_lift_ok] at h
  obtain ⟨string, rfl, -⟩ := pipeline_command_parts h
  rw [pipeline_filters, join_stage_filters] at hf
  exact clause_filter_of (.inl rfl) hwhere hf

theorem comma_join_filter_of {base joined : String} {more : List String}
    (hsource : q.source = .tables base joined more)
    (h : Command.commaJoin (some (textList (base :: joined :: more))) none (partsOf q) =
      .ok command) (hf : f ∈ filtersOf command) : FilterOf q f := by
  obtain ⟨w, c, r, d, filter?, _, _, hc, -, hfilter, -, -, h⟩ := comma_pipeline hsource h
  obtain ⟨string, rfl, -⟩ := pipeline_command_parts h
  rw [pipeline_filters, comma_stage_filters] at hf
  exact conjunction_filter_of
    (fun d hd => ⟨w, .inl hc, .inr (filter_parts_mem hd)⟩) hfilter hf

theorem subquery_filter_of {w : Condition} (hc : q.condition? = some w)
    (hasks : asksQuery w = true) (h : Command.subqueryCommand (partsOf q) = .ok command)
    (hf : f ∈ filtersOf command) : FilterOf q f := by
  have hcondition : (partsOf q).condition = w.toValue := by simp [partsOf, hc, optionalCondition]
  obtain ⟨x, inner, t, a, more, columns, shown, rfl, ht, -, -, -, h⟩ :=
    subquery_pipeline hcondition hasks h
  obtain ⟨string, rfl, -⟩ := pipeline_command_parts h
  have hshown : (if shown.isEmpty then [] else [Command.projectStage shown]).filterMap
      filterIn? = [] := by
    split <;> rfl
  obtain rfl : f = doc [(t, doc [("$ne", .list [])])] := by
    rw [pipeline_filters, List.filterMap_append, hshown, List.append_nil] at hf
    exact List.mem_singleton.mp hf
  exact .found hc ht

/-- All filters of a command come from the clauses of its statement. -/
theorem translated_filter_of (hnamed : Named q)
    (h : Command.translate q.toValue = .ok command) (hf : f ∈ filtersOf command) :
    FilterOf q f := by
  cases hasks : q.condition?.any asksQuery with
  | true =>
    obtain ⟨w, hc, hw⟩ := Option.any_eq_true _ _ |>.mp hasks
    rw [translate_of, hasks, if_pos rfl, command_lift_ok] at h
    exact subquery_filter_of hc hw h hf
  | false =>
    cases hs : q.source with
    | join a b on => exact clause_join_filter_of hnamed hs hasks h hf
    | tables a b more =>
      rw [translate_of, hasks, hs] at h
      exact comma_join_filter_of hs h hf
    | table a =>
      rw [translate_of, hasks, hs] at h
      cases hgroups : groupsRows q with
      | true =>
        rw [hgroups] at h
        exact group_filter_of h hf
      | false =>
        rw [hgroups] at h
        obtain ⟨parts, string, rfl, -, hfilter, -⟩ := find_command_parts h
        obtain rfl : f = parts.filter := by simpa [find_filters] using hf
        have hcondition : (partsOf q).condition = optionalCondition q.condition? := rfl
        rw [hcondition] at hfilter
        cases hc : q.condition? with
        | none =>
          rw [hc] at hfilter
          rw [← Except.ok.inj hfilter]
          exact .empty
        | some c =>
          rw [hc, optionalCondition, filter_of_present] at hfilter
          exact .one ⟨_, c, ⟨c, .inl hc, .inl rfl⟩, hfilter⟩

end Translated

/-- The conditions of an accepted statement have filters that can be sorted. -/
theorem has_filter_sortable {schema f : Value} {q : Query} (hs : Schema.check schema = .ok ())
    (hnamed : Named q) (haccepts : Accepts schema q) (h : HasFilter q f) : Sortable f := by
  obtain ⟨base?, c, ⟨w, hw, hc⟩, hf⟩ := h
  obtain ⟨hcomb, hagree⟩ : Comb w ∧ AgreeingLists w := by
    rcases hw with hw | hw
    · have hverdict := haccepts.condition
      rw [hw] at hverdict
      exact ⟨hnamed.condition w hw, accepted_agree hs w hverdict⟩
    · have hverdict := haccepts.having
      rw [hw] at hverdict
      exact ⟨hnamed.having w hw, accepted_agree hs w hverdict⟩
  rcases hc with rfl | hc
  · exact comb_sortable hcomb hagree hf
  · refine term_sortable (comb_leaf hcomb c hc) ?_ hf
    rintro r l ls rfl
    exact hagree r l ls hc

/-- For every statement that is accepted by a schema with the types of columns, sorting the members
in a filter of its command succeeds. It puts the values of each list of members in ascending order,
keeps all else, and a second time changes nothing. -/
theorem member_lists_sorted {schema command f : Value} {sql : String} {line : Nat}
    (hs : Schema.check schema = .ok ()) (h : Pipeline.command schema sql line = .ok command)
    (hf : f ∈ filtersOf command) :
    ∃ g, Command.sortMembers f = .ok g ∧ MembersInAscent f g ∧ Command.sortMembers g = .ok g := by
  obtain ⟨q, hparse, hcheck, htranslate⟩ := command_stages h
  have hnamed := parse_named hparse
  have haccepts := verdict_ok.mp (accepted_iff.mp hcheck)
  have hsortable : Sortable f := by
    cases translated_filter_of hnamed htranslate hf with
    | empty => exact .empty
    | one hf => exact has_filter_sortable hs hnamed haccepts hf
    | all hfs =>
      exact .connect (by decide) fun f hf => has_filter_sortable hs hnamed haccepts (hfs f hf)
    | found hw ht =>
      have hname := named_table (inner_named hparse hw).source ht
      refine .test (plain_not_in hname.plain) (doc_memberless (by simp) ?_)
      simpa using .list (by simp)
  obtain ⟨g, hg⟩ := sortable_sorts hsortable
  exact ⟨g, hg.sorted, hg.only, hg.again⟩

/-- `city IN ('Rome', 'Oslo', 'Rome') OR age = 7 AND id IN (30, 4)`. -/
def placesCondition : Condition :=
  .connect (.connect (.inList ⟨none, "city"⟩ (.text "Rome") [.text "Oslo", .text "Rome"]) "OR"
    (.compare ⟨none, "age"⟩ .eq (.literal (.number 7)))) "AND"
    (.inList ⟨none, "id"⟩ (.number 30) [.number 4])

def placesText : String :=
  "SELECT * FROM users WHERE city IN ('Rome', 'Oslo', 'Rome') OR age = 7 AND id IN (30, 4);"

/-- The filter with the given cities and numbers. -/
def placesFilter (cities : List String) (ids : List Int) : Value :=
  doc [("$and", .list [
    doc [("$or", .list [citiesFilter cities, doc [("age", .int 7)]])],
    doc [("id", doc [("$in", .list (ids.map .int))])]])]

def placesCommand : Value :=
  usersCommand (placesFilter ["Rome", "Oslo", "Rome"] [30, 4])
    ("db.users.find(\x7b $and: [ \x7b $or: [ \x7b city: \x7b $in: [ \"Rome\", \"Oslo\", " ++
      "\"Rome\" ] \x7d \x7d, \x7b age: 7 \x7d ] \x7d, " ++
      "\x7b id: \x7b $in: [ 30, 4 ] \x7d \x7d ] \x7d)")

theorem member_lists_sorted_places :
    Schema.check shopSchema = .ok () ∧
      Pipeline.command shopSchema placesText 1 = .ok placesCommand ∧
      placesFilter ["Rome", "Oslo", "Rome"] [30, 4] ∈ filtersOf placesCommand ∧
      Command.sortMembers (placesFilter ["Rome", "Oslo", "Rome"] [30, 4]) =
        .ok (placesFilter ["Oslo", "Rome"] [4, 30]) ∧
      MembersInAscent (placesFilter ["Rome", "Oslo", "Rome"] [30, 4])
        (placesFilter ["Oslo", "Rome"] [4, 30]) := by
  have hparse : Sql.parse placesText 1 = .ok (usersWhere placesCondition) :=
    parse_spelled ⟨rfl, rfl⟩ rfl
  have hcommand : Pipeline.command shopSchema placesText 1 = .ok placesCommand :=
    command_accepted hparse rfl rfl
  have hmem : placesFilter ["Rome", "Oslo", "Rome"] [30, 4] ∈ filtersOf placesCommand :=
    List.mem_singleton_self _
  have hsorted : Command.sortMembers (placesFilter ["Rome", "Oslo", "Rome"] [30, 4]) =
      .ok (placesFilter ["Oslo", "Rome"] [4, 30]) := rfl
  obtain ⟨g, hg, honly, -⟩ := member_lists_sorted rfl hcommand hmem
  obtain rfl := Except.ok.inj (hsorted.symm.trans hg)
  exact ⟨rfl, hcommand, hmem, hsorted, honly⟩

end DocQuery.Proofs
