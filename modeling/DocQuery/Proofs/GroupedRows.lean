import DocQuery.Proofs.GroupDocuments
import DocQuery.Proofs.Lexemes

namespace DocQuery.Proofs

open Sql
open Value (doc)

/-- What a row of a table holds in a column. It holds nothing in the columns of other tables. -/
def ownValue (t : String) (d : Entries) (c : ColumnRef) : Value :=
  if c.table?.all (· == t) then Entries.field d c.name else .null

/-- Whether the condition of a statement is true of a row. -/
def rowMatches (t : String) (q : Query) (d : Entries) : Bool :=
  q.condition?.all (truthBy (columnTrue (ownValue t d)))

/-- Whether the condition of a statement would be true of a row if a `null` differed from all that
it is compared with. -/
def rowPasses (t : String) (q : Query) (d : Entries) : Bool :=
  q.condition?.all
    (truthBy fun c => columnTrue (ownValue t d) c || nullDiffers (ownValue t d) c)

/-- Whether a comparison of an aggregate with a literal is true of a group. -/
def aggregateTrue (value : Aggregate → Value) : Condition → Bool
  | .aggregate a r l => comparisonTrue (.compare r (scalarOf l)) (value a)
  | _ => false

/-- Whether a comparison tests an aggregate that is no number and no text for being different. -/
def aggregateDiffers (value : Aggregate → Value) : Condition → Bool
  | .aggregate a .ne _ => !comparable (value a)
  | _ => false

namespace Engine

variable (e : Engine)

def selectedValue (g : Class Entries) : SelectItem → Value
  | .column c => Entries.field g.first c.name
  | .aggregate a => e.aggregateOf g.members a

/-- Whether a statement keeps a group. -/
def groupMatches (q : Query) (g : Class Entries) : Bool :=
  q.having?.all (truthBy (aggregateTrue (e.aggregateOf g.members)))

/-- Whether a statement would keep a group if a `null` differed from all that it is compared
with. -/
def groupPasses (q : Query) (g : Class Entries) : Bool :=
  q.having?.all (truthBy fun c =>
    aggregateTrue (e.aggregateOf g.members) c || aggregateDiffers (e.aggregateOf g.members) c)

/-- The groups of rows that are equal in the grouping columns. -/
def groupsOf (q : Query) (rows : List Entries) : List (Class Entries) :=
  e.arrange (classes (fun a b =>
    q.groupBy.all fun c => equals (Entries.field a c) (Entries.field b c)) rows)

/-- Groups in the order of a statement, up to its limit. -/
def inOrder (q : Query) (groups : List (Class Entries)) : List (Class Entries) :=
  let sorted := e.sortBy (q.orderBy.map fun o => (o.direction, e.orderValue q o.column)) groups
  q.limit?.elim sorted (sorted.take ·)

/-- What a statement selects of groups. -/
def rowsOf (q : Query) (groups : List (Class Entries)) : List (List Value) :=
  (e.inOrder q groups).map fun g => (selectedItems q.items).map (e.selectedValue g)

/-- The rows of a grouped statement. -/
def groupedRows (t : String) (q : Query) (table : List Entries) : List (List Value) :=
  e.rowsOf q ((e.groupsOf q (table.filter (rowMatches t q))).filter (e.groupMatches q))

/-- The rows that a grouped statement would have if a `null` differed from all that it is compared
with. -/
def passedRows (t : String) (q : Query) (table : List Entries) : List (List Value) :=
  e.rowsOf q ((e.groupsOf q (table.filter (rowPasses t q))).filter (e.groupPasses q))

end Engine

/-- Whether a condition compares only given aggregates. -/
def onAggregates (as : List Aggregate) : Condition → Bool
  | .connect l _ r => onAggregates as l && onAggregates as r
  | .aggregate a _ _ => a ∈ as
  | _ => false

/-- Whether a condition compares only columns of a table, with literals. -/
def onColumns (table : String) : Condition → Bool
  | .connect l _ r => onColumns table l && onColumns table r
  | .compare c _ (.literal _) => c.table?.all (· == table)
  | .inList c _ _ => c.table?.all (· == table)
  | .between .. => true
  | _ => false

theorem on_aggregates_literal {as : List Aggregate} {c : Condition}
    (h : onAggregates as c = true) : isLiteral c = true := by
  match c with
  | .connect l _ r =>
    simp only [onAggregates, Bool.and_eq_true] at h
    simp [isLiteral, on_aggregates_literal h.1, on_aggregates_literal h.2]
  | .aggregate .. => rfl
  | .compare .. | .between .. | .inList .. | .inQuery .. => simp [onAggregates] at h

theorem on_aggregates_leaf {as : List Aggregate} {c : Condition} (h : onAggregates as c = true) :
    ∀ d ∈ comparisons c, ∃ a r l, d = .aggregate a r l ∧ a ∈ as := by
  match c with
  | .connect l _ r =>
    simp only [onAggregates, Bool.and_eq_true] at h
    intro d hd
    rcases List.mem_append.mp hd with hd | hd
    · exact on_aggregates_leaf h.1 d hd
    · exact on_aggregates_leaf h.2 d hd
  | .aggregate a r l =>
    intro d hd
    obtain rfl := List.mem_singleton.mp hd
    exact ⟨a, r, l, rfl, by simpa [onAggregates] using h⟩
  | .compare .. | .between .. | .inList .. | .inQuery .. => simp [onAggregates] at h

theorem on_columns_compared {t : String} {c : Condition} (h : onColumns t c = true) :
    ∀ d ∈ comparisons c, ∃ r, comparedColumn? d = some r := by
  match c with
  | .connect l _ r =>
    simp only [onColumns, Bool.and_eq_true] at h
    intro d hd
    rcases List.mem_append.mp hd with hd | hd
    · exact on_columns_compared h.1 d hd
    · exact on_columns_compared h.2 d hd
  | .compare r _ (.literal _) | .inList r _ _ | .between r _ _ =>
    intro d hd
    obtain rfl := List.mem_singleton.mp hd
    exact ⟨_, rfl⟩
  | .compare _ _ (.column _) | .aggregate .. | .inQuery .. => simp [onColumns] at h

section

variable {q : Query} (hq : Named q)

include hq

/-- Groups of documents are those of rows. -/
theorem run_group (e : Engine) (collections : String → List Entries) {rows : List Entries}
    (hrows : ∀ d ∈ rows, HoldsColumns (usedColumns q) d) :
    e.run collections [doc [("$group",
        .dict (groupEntries q.groupBy (selectedItems q.items)))]] rows =
      some ((e.groupsOf q rows).map (e.groupDocument q)) := by
  have hid : Entries.field (groupEntries q.groupBy (selectedItems q.items)) "_id" =
      groupKeyOf q.groupBy := by
    rw [Entries.field, groupEntries, get_put_all_other]
    · rfl
    · intro f hf
      obtain ⟨a, -, rfl⟩ := List.mem_map.mp hf
      exact aggregate_name_not_id a
  have hgrouping : ∀ d, HoldsColumns (usedColumns q) d → HoldsColumns q.groupBy d :=
    fun d hd => hd.mono fun c hc => List.mem_append_left _ hc
  have halike : ∀ a b, HoldsColumns (usedColumns q) a → HoldsColumns (usedColumns q) b →
      q.groupBy.all (fun c => equals (Entries.field a c) (Entries.field b c)) =
        equals ((evaluate a (groupKeyOf q.groupBy)).getD .null)
          ((evaluate b (groupKeyOf q.groupBy)).getD .null) := by
    intro a b ha hb
    rw [evaluate_key (hgrouping a ha) hq.groupBy, evaluate_key (hgrouping b hb) hq.groupBy,
      equal_keys (hgrouping a ha) (hgrouping b hb)]
  obtain ⟨hclasses, hmembers⟩ := classes_congr halike hrows
  have hdocuments : (e.groupsOf q rows).mapM
      (e.groupDocument? (groupEntries q.groupBy (selectedItems q.items))) =
        some ((e.groupsOf q rows).map (e.groupDocument q)) :=
    map_m_total fun g hg => group_document_of hq e (hmembers g ((e.arranged _).mem_iff.mp hg))
  rw [run_single, ← hdocuments]
  change e.groupStage _ rows = _
  simp only [Engine.groupStage, hid, ← hclasses, Engine.groupsOf]

/-- Tests of groups are tests of their documents. -/
theorem run_having (e : Engine) (collections : String → List Entries) {base? : Option Value}
    {s? : Option Selector} (hs : ClauseSelector base? q.having? s?)
    (hd : ∀ d, q.having? = some d →
      onAggregates (selectedAggregates (selectedItems q.items)) d = true)
    (groups : List (Class Entries)) :
    e.run collections ((s?.map Selector.toValue).map Command.matchStage).toList
        (groups.map (e.groupDocument q)) =
      some ((groups.filter (e.groupPasses q)).map (e.groupDocument q)) := by
  have htruth : ∀ g, (s?.map Selector.toValue).all (holds (fieldAt (e.groupDocument q g))) =
      e.groupPasses q g := by
    intro g
    refine hs.truth _ _ fun c hc b hb name t ht => ?_
    obtain ⟨a, r, l, rfl, ha⟩ := on_aggregates_leaf (hd c hc) b hb
    cases ht
    have hnamed := aggregate_named_item hq ha
    rw [fieldAt, field_at_name _ (aggregate_name_no_dot hnamed),
      group_document_aggregate hq e g ha, Option.getD_some, comparison_passes]
    cases r <;> rfl
  rw [run_filter, List.filter_map]
  congr 2
  exact List.filter_congr fun g _ => htruth g

/-- Names of an ordering have different fields. -/
theorem order_name_injective {x y : String}
    (hx : x ∈ q.groupBy ∨ ∃ a ∈ selectedAggregates (selectedItems q.items), x = a.alias)
    (hy : y ∈ q.groupBy ∨ ∃ a ∈ selectedAggregates (selectedItems q.items), y = a.alias)
    (h : orderName q.groupBy x = orderName q.groupBy y) : x = y := by
  have hother : ∀ {x y : String}, x ∈ q.groupBy → y ∉ q.groupBy →
      (∃ a ∈ selectedAggregates (selectedItems q.items), y = a.alias) →
      orderName q.groupBy x ≠ orderName q.groupBy y := by
    rintro x y hx hy ⟨a, ha, rfl⟩ h
    have hnamed := aggregate_named_item hq ha
    rw [orderName, orderName, if_pos hx, if_neg hy, alias_name hnamed] at h
    split at h
    · exact aggregate_name_not_id a h.symm
    · refine aggregate_name_no_dot hnamed ?_
      rw [← h]
      simp
  by_cases hxc : x ∈ q.groupBy
  · by_cases hyc : y ∈ q.groupBy
    · rw [orderName, orderName, if_pos hxc, if_pos hyc] at h
      split at h
      · rename_i hone
        obtain ⟨c, hc⟩ := List.length_eq_one_iff.mp hone
        rw [hc] at hxc hyc
        rw [List.mem_singleton.mp hxc, List.mem_singleton.mp hyc]
      · exact String.append_right_inj _ |>.mp h
    · exact absurd h (hother hxc hyc (hy.resolve_left hyc))
  · by_cases hyc : y ∈ q.groupBy
    · exact absurd h.symm (hother hyc hxc (hx.resolve_left hxc))
    · rwa [orderName, orderName, if_neg hxc, if_neg hyc] at h

end

theorem compare_by_congr (e : Engine) {α β : Type} {os : List OrderItem}
    {key : OrderItem → α → Value} {key' : OrderItem → β → Value} {a b : α} {a' b' : β}
    (ha : ∀ o ∈ os, key o a = key' o a') (hb : ∀ o ∈ os, key o b = key' o b') :
    e.compareBy (os.map fun o => (o.direction, key o)) a b =
      e.compareBy (os.map fun o => (o.direction, key' o)) a' b' := by
  induction os with
  | nil => rfl
  | cons o os ih =>
    obtain ⟨hoa, hosa⟩ := List.forall_mem_cons.mp ha
    obtain ⟨hob, hosb⟩ := List.forall_mem_cons.mp hb
    have hrest := ih hosa hosb
    unfold Engine.compareBy at hrest ⊢
    rw [List.map_cons, List.map_cons, List.foldr_cons, List.foldr_cons, hrest]
    simp only [hoa, hob]

theorem sort_none (e : Engine) {α : Type} (xs : List α) : e.sortBy [] xs = xs := by
  refine List.mergeSort_of_pairwise (List.pairwise_of_forall fun a b => ?_)
  rfl

section

variable {q : Query} (hq : Named q)

include hq

/-- Sorting the documents of groups sorts the groups. -/
theorem run_order (e : Engine) (collections : String → List Entries)
    (hordered : ∀ o ∈ q.orderBy, o.column ∈ q.groupBy ∨
      ∃ a ∈ selectedAggregates (selectedItems q.items), o.column = a.alias)
    (hnodup : (q.orderBy.map (·.column)).Nodup) (groups : List (Class Entries)) :
    e.run collections (orderStages q.groupBy q.orderBy) (groups.map (e.groupDocument q)) =
      some ((e.sortBy (q.orderBy.map fun o => (o.direction, e.orderValue q o.column)) groups).map
        (e.groupDocument q)) := by
  by_cases hnone : q.orderBy = []
  · simp [hnone, orderStages, sort_none, Engine.run]
  · have hnames : (q.orderBy.map fun o => orderName q.groupBy o.column).Nodup := by
      have hinjective : ∀ x ∈ q.orderBy.map (·.column), ∀ y ∈ q.orderBy.map (·.column),
          orderName q.groupBy x = orderName q.groupBy y → x = y := by
        intro x hx y hy
        obtain ⟨o, ho, rfl⟩ := List.mem_map.mp hx
        obtain ⟨u, hu, rfl⟩ := List.mem_map.mp hy
        exact order_name_injective hq (hordered o ho) (hordered u hu)
      have hall := List.Nodup.map_on hinjective hnodup
      rwa [List.map_map] at hall
    have hentries : orderEntries q.groupBy q.orderBy =
        q.orderBy.map fun o => (.text (orderName q.groupBy o.column), directionSign o.direction) := by
      rw [orderEntries, put_all_new (by simp [Entries.has]) (by rwa [List.map_map]), List.map_map]
      rfl
    have hkeys : (orderEntries q.groupBy q.orderBy).mapM sortKey? =
        some (q.orderBy.map fun o => (o.direction, (fieldAt · (orderName q.groupBy o.column)))) := by
      rw [hentries, List.mapM_map]
      refine map_m_total fun o _ => ?_
      obtain ⟨column, direction⟩ := o
      cases direction <;> rfl
    have hsort : e.run collections (orderStages q.groupBy q.orderBy)
        (groups.map (e.groupDocument q)) = some (e.sortBy (q.orderBy.map fun o =>
          (o.direction, (fieldAt · (orderName q.groupBy o.column))))
            (groups.map (e.groupDocument q))) := by
      rw [orderStages, if_neg hnone, run_single]
      change (((orderEntries q.groupBy q.orderBy).mapM sortKey?).bind fun keys =>
        some (e.sortBy keys (groups.map (e.groupDocument q)))) = _
      rw [hkeys]
      rfl
    rw [hsort, Engine.sortBy, Engine.sortBy]
    refine congrArg some (List.map_mergeSort fun a _ b _ => ?_).symm
    have hvalue : ∀ g, ∀ o ∈ q.orderBy, e.orderValue q o.column g =
        fieldAt (e.groupDocument q g) (orderName q.groupBy o.column) :=
      fun g o ho => (group_document_order hq e g (hordered o ho)).symm
    have hcompare := @compare_by_congr e _ _ q.orderBy (fun o => e.orderValue q o.column)
      (fun o d => fieldAt d (orderName q.groupBy o.column)) a b _ _ (hvalue a) (hvalue b)
    rw [hcompare]

end

/-- A limit on what is made of the members of a list limits the list. -/
theorem run_limit (e : Engine) (collections : String → List Entries) {limit? : Option Nat}
    (h : limit? ≠ some 0) {α : Type} (f : α → Entries) (xs : List α) :
    e.run collections (limitStages limit?) (xs.map f) =
      some ((limit?.elim xs (xs.take ·)).map f) := by
  cases limit? with
  | none => rfl
  | some n =>
    have hn : (0 : Int) < n := by
      have : n ≠ 0 := fun hn => h (by rw [hn])
      omega
    simp only [limitStages, Option.map_some, Option.toList_some, run_single]
    change (if (0 : Int) < n then some ((xs.map f).take (n : Int).toNat) else none) = _
    rw [if_pos hn, Int.toNat_natCast, ← List.map_take]
    rfl

section

variable {q : Query} (hq : Named q)

include hq

theorem output_aliases {f : String × Value} (hf : f ∈ (accumulatedFields
    (selectedItems q.items)).map fun f => (f.1, Value.int 1)) :
    ∃ a ∈ selectedAggregates (selectedItems q.items), f = (a.alias, .int 1) := by
  obtain ⟨u, hu, rfl⟩ := List.mem_map.mp hf
  obtain ⟨a, ha, rfl⟩ := List.mem_map.mp hu
  exact ⟨a, ha, by rw [alias_name (aggregate_named_item hq ha)]⟩

theorem alias_no_dot {a : Aggregate} (ha : a ∈ selectedAggregates (selectedItems q.items)) :
    NoDot a.alias := by
  rw [alias_name (aggregate_named_item hq ha)]
  exact aggregate_name_no_dot (aggregate_named_item hq ha)

theorem output_plain : PlainFields (outputEntries q.groupBy (selectedItems q.items)) := by
  refine ((PlainFields.nil.putAll ?_).put (by decide) _).putAll ?_
  · intro f hf
    obtain ⟨c, hc, rfl⟩ := List.mem_map.mp hf
    exact (hq.groupBy c hc).no_dot
  · intro f hf
    obtain ⟨a, ha, rfl⟩ := output_aliases hq hf
    exact alias_no_dot hq ha

/-- The projection shows each selected aggregate under its alias. -/
theorem project_aggregate (e : Engine) (g : Class Entries) {a : Aggregate}
    (ha : a ∈ selectedAggregates (selectedItems q.items)) :
    Entries.get? (project (outputEntries q.groupBy (selectedItems q.items))
      (e.groupDocument q g)) (.text a.alias) = some (e.aggregateOf g.members a) := by
  have hname := alias_name (aggregate_named_item hq ha)
  have hshown : Entries.get? (outputEntries q.groupBy (selectedItems q.items))
      (.text a.alias) = some (.int 1) := by
    refine get_put_all ⟨(a.alias, .int 1), ?_, rfl⟩ ?_
    · rw [accumulatedFields, List.map_map, hname]
      exact List.mem_map.mpr ⟨a, ha, rfl⟩
    · intro f hf _
      obtain ⟨b, -, rfl⟩ := output_aliases hq hf
      rfl
  refine get_project (output_plain hq) hshown ((field_at_name _ (alias_no_dot hq ha)).trans ?_)
  rw [hname, group_document_aggregate hq e g ha]

/-- The projection shows each grouping column under its name, unless this is hidden or an alias. -/
theorem project_column (e : Engine) (g : Class Entries) {c : String} (hc : c ∈ q.groupBy)
    (hid : c ≠ "_id") (halias : ∀ a ∈ selectedAggregates (selectedItems q.items), a.alias ≠ c) :
    Entries.get? (project (outputEntries q.groupBy (selectedItems q.items))
      (e.groupDocument q g)) (.text c) = some (Entries.field g.first c) := by
  have hpath : outputPath q.groupBy c = "$" ++ orderName q.groupBy c := by
    rw [outputPath, orderName, if_pos hc]
    split <;> rfl
  have hshown : Entries.get? (outputEntries q.groupBy (selectedItems q.items))
      (.text c) = some (.text (outputPath q.groupBy c)) := by
    rw [outputEntries, get_put_all_other, get_put, if_neg (Ne.symm hid)]
    · exact @document_get _ (fun c => .text (outputPath q.groupBy c)) _ hc
    · intro f hf
      obtain ⟨a, ha, rfl⟩ := output_aliases hq hf
      exact halias a ha
  refine get_project (output_plain hq) hshown ?_
  change evaluate (e.groupDocument q g) (.text (outputPath q.groupBy c)) = _
  rw [hpath, evaluate_path, group_document_column hq e g hc]

/-- The projection shows each selected item under its name. -/
theorem project_group (e : Engine) (g : Class Entries) (hid : "_id" ∉ q.groupBy)
    (halias : ∀ a ∈ selectedAggregates (selectedItems q.items), a.alias ∉ q.groupBy)
    (hcolumns : ∀ c, SelectItem.column c ∈ selectedItems q.items → c.name ∈ q.groupBy)
    {x : SelectItem} (hx : x ∈ selectedItems q.items) :
    Entries.get? (project (outputEntries q.groupBy (selectedItems q.items))
      (e.groupDocument q g)) (.text (itemName x)) = some (e.selectedValue g x) := by
  cases x with
  | aggregate a => exact project_aggregate hq e g (mem_selected_aggregates.mpr hx)
  | column c =>
    have hc := hcolumns c hx
    refine project_column hq e g hc (fun he => hid (he ▸ hc)) fun a ha he => ?_
    exact halias a ha (he ▸ hc)

end

/-- A row of a table has no fields below the name of another table. -/
theorem own_field_value {t : String} {d : Entries} (hplain : ∀ name, Atom (Entries.field d name))
    {c : ColumnRef} (hc : NamedColumn c) :
    fieldAt d (columnField (some (.text t)) c) = ownValue t d c := by
  unfold ownValue
  split
  · rename_i hown
    rw [base_field hown, field_at_field d hc.1.no_dot]
  · rename_i hother
    obtain ⟨u, hu, hne⟩ : ∃ u, c.table? = some u ∧ u ≠ t := by
      cases hu : c.table? with
      | none => simp [hu] at hother
      | some u => exact ⟨u, rfl, by simpa [hu] using hother⟩
    have hname : IsName u := hc.2 u hu
    have hfield : columnField (some (.text t)) c = u ++ "." ++ c.name := by
      have hsome : u ≠ "" := hname.ne_empty
      simp [columnField, hu, hne, hsome]
    rw [hfield, fieldAt, fieldAt?, path_names_dotted hname.no_dot hc.1.no_dot, valueAt]
    have hatom := hplain u
    cases hget : Entries.get? d (.text u) with
    | none => rfl
    | some v =>
      rw [field_of_get hget] at hatom
      cases hatom <;> rfl

/-- The filter of a condition selects the rows that pass. -/
theorem run_where (e : Engine) (collections : String → List Entries) {t : String} {q : Query}
    {s? : Option Selector} (hnamed : Named q)
    (hcolumns : ∀ c, q.condition? = some c → ∀ d ∈ comparisons c, ∃ r, comparedColumn? d = some r)
    (hs : ClauseSelector (some (.text t)) q.condition? s?) {docs : List Entries}
    (hplain : ∀ d ∈ docs, ∀ name, Atom (Entries.field d name)) :
    e.run collections ((s?.map Selector.toValue).map Command.matchStage).toList docs =
      some (docs.filter (rowPasses t q)) := by
  rw [run_filter]
  refine congrArg some (List.filter_congr fun d hd => hs.passes fun c hc b hb => ?_)
  obtain ⟨r, hr⟩ := hcolumns c hc b hb
  have hn := compared_named (comb_leaf (hnamed.condition c hc) b hb) hr
  refine ⟨r, hr, own_field_value (hplain d hd) hn, ?_⟩
  unfold ownValue
  split
  · exact hplain d hd r.name
  · exact .null

/-- A statement that groups one table: it tests columns in its condition and selected aggregates
in its groups, is ordered by different names of its result, and no name stands for two things. -/
structure GroupsTable (t : String) (q : Query) : Prop where
  source : q.source = .table t
  groupBy : q.groupBy ≠ []
  condition : ∀ c, q.condition? = some c → onColumns t c = true
  having : ∀ c, q.having? = some c →
    onAggregates (selectedAggregates (selectedItems q.items)) c = true
  ordered : ∀ o ∈ q.orderBy, o.column ∈ q.groupBy ∨
    ∃ a ∈ selectedAggregates (selectedItems q.items), o.column = a.alias
  nodup : (q.orderBy.map (·.column)).Nodup
  limit : q.limit? ≠ some 0
  no_id : "_id" ∉ q.groupBy
  no_alias : ∀ a ∈ selectedAggregates (selectedItems q.items), a.alias ∉ q.groupBy

/-- The stages of a grouped statement give the rows that pass. -/
theorem run_grouping (e : Engine) (collections : String → List Entries) {q : Query} {t : String}
    (hnamed : Named q) (hq : GroupsTable t q)
    (hcolumns : ∀ c, SelectItem.column c ∈ selectedItems q.items → c.name ∈ q.groupBy)
    {where? having? : Option Selector}
    (hw : ClauseSelector (some (.text t)) q.condition? where?)
    (hh : ClauseSelector (some (.text t)) q.having? having?) {docs : List Entries}
    (hplain : ∀ d ∈ docs, ∀ name, Atom (Entries.field d name))
    (hused : ∀ d ∈ docs, HoldsColumns (usedColumns q) d) :
    ∃ out, e.run collections (groupStages q (where?.map Selector.toValue)
        (having?.map Selector.toValue)) docs = some out ∧
      ShowsRows q out (e.passedRows t q docs) := by
  have hwhere := run_where e collections hnamed
    (fun c hc => on_columns_compared (hq.condition c hc)) hw hplain
  have hgroup := run_group hnamed e collections
    (fun d hd => hused d (List.mem_of_mem_filter hd) : ∀ d ∈ docs.filter (rowPasses t q),
      HoldsColumns (usedColumns q) d)
  have hhaving := run_having hnamed e collections hh hq.having
  have horder := run_order hnamed e collections hq.ordered hq.nodup
  have hrun : e.run collections (groupStages q (where?.map Selector.toValue)
      (having?.map Selector.toValue)) docs =
        some ((e.inOrder q ((e.groupsOf q (docs.filter (rowPasses t q))).filter
          (e.groupPasses q))).map fun g =>
            project (outputEntries q.groupBy (selectedItems q.items)) (e.groupDocument q g)) := by
    simp only [groupStages, closingStages, run_append, hwhere, hgroup, hhaving, horder,
      run_limit e collections hq.limit, Option.bind_some]
    rw [run_single, Engine.inOrder, ← Function.comp_def, ← List.map_map]
    rfl
  refine ⟨_, hrun, ?_⟩
  rw [ShowsRows, Engine.passedRows, Engine.rowsOf, List.map_map, List.map_map]
  refine List.map_congr_left fun g _ => ?_
  simp only [Function.comp_apply, List.map_map]
  exact List.map_congr_left fun x hx =>
    project_group hnamed e g hq.no_id hq.no_alias hcolumns hx

/-- A grouped statement has a command that runs its stages. -/
theorem grouping_command {q : Query} {t : String} (hnamed : Named q) (hq : GroupsTable t q)
    {where? having? : Option Selector}
    (hw : ClauseSelector (some (.text t)) q.condition? where?)
    (hh : ClauseSelector (some (.text t)) q.having? having?) :
    ∃ string, Command.translate q.toValue = .ok (pipelineDocument string (.text t)
      (groupStages q (where?.map Selector.toValue) (having?.map Selector.toValue))) := by
  have hno := clause_no_subquery hnamed.condition
    (fun c hc => compared_literal (on_columns_compared (hq.condition c hc)))
  have hjoins : (partsOf q).joins.present = false := by
    simp [partsOf, hq.source, sourceJoins, Value.present]
  have htable : (partsOf q).table = .text t := by simp [partsOf, hq.source, sourceTable]
  have hgroup : (partsOf q).groupBy.present = true := by
    cases hg : q.groupBy with
    | nil => exact absurd hg hq.groupBy
    | cons c cs => simp [partsOf, hg, textList, Value.present]
  have htables : Command.hasTables (.text t) = false := rfl
  obtain ⟨aggregates, haggregates⟩ : Succeeds (Command.hasAggregate (partsOf q).columns) := by
    cases hi : q.items <;> simp only [partsOf, hi] <;> exact .ok _
  obtain ⟨string, hcommand⟩ := pipeline_command_shown t (group_stages_shown q where? having?)
  refine ⟨string, ?_⟩
  have hsource : sourceTable q.source = .text t := by rw [hq.source]; rfl
  rw [statement_parts, Command.translate, Command.ofSelect]
  simp only [hno, hjoins, htable, htables, hgroup, haggregates, command_lift, ok_bind,
    Bool.false_eq_true, ↓reduceIte, Bool.or_true]
  rw [group_command_of hw.filter hh.filter, hsource, hcommand]
  rfl

theorem matches_passes {t : String} {q : Query} {d : Entries} (h : rowMatches t q d = true) :
    rowPasses t q d = true :=
  clause_true_or _ h

theorem group_matches_passes (e : Engine) {q : Query} {g : Class Entries}
    (h : e.groupMatches q g = true) : e.groupPasses q g = true :=
  clause_true_or _ h

/-- The rows that pass are those of the statement if what passes is true. -/
theorem passed_rows_eq (e : Engine) {t : String} {q : Query} {table : List Entries}
    (hrows : ∀ d ∈ table, rowPasses t q d = true → rowMatches t q d = true)
    (hgroups : ∀ g ∈ e.groupsOf q (table.filter (rowMatches t q)),
      e.groupPasses q g = true → e.groupMatches q g = true) :
    e.passedRows t q table = e.groupedRows t q table := by
  have hfilter : table.filter (rowPasses t q) = table.filter (rowMatches t q) :=
    List.filter_congr fun d hd => Bool.eq_iff_iff.mpr ⟨hrows d hd, matches_passes⟩
  have hkept : ∀ g ∈ e.groupsOf q (table.filter (rowMatches t q)),
      e.groupPasses q g = e.groupMatches q g :=
    fun g hg => Bool.eq_iff_iff.mpr ⟨hgroups g hg, group_matches_passes e⟩
  rw [Engine.passedRows, Engine.groupedRows, hfilter, List.filter_congr hkept]

theorem place_members {α : Type} (alike : α → α → Bool) (x : α) (gs : List (Class α)) :
    ((place alike x gs).flatMap Class.members).length = (gs.flatMap Class.members).length + 1 := by
  induction gs with
  | nil => rfl
  | cons g gs ih =>
    rw [place]
    split
    · simp [Class.members]
      omega
    · rw [List.flatMap_cons, List.length_append, ih, List.flatMap_cons, List.length_append]
      omega

/-- Each member of a list is in one of its classes. -/
theorem classes_members {α : Type} (alike : α → α → Bool) (xs : List α) :
    ((classes alike xs).flatMap Class.members).length = xs.length := by
  suffices h : ∀ gs, ((xs.foldl (fun gs x => place alike x gs) gs).flatMap Class.members).length =
      (gs.flatMap Class.members).length + xs.length from (h []).trans (Nat.zero_add _)
  induction xs with
  | nil => exact fun gs => rfl
  | cons x xs ih =>
    intro gs
    rw [List.foldl_cons, ih, place_members, List.length_cons]
    omega

/-- Where all rows are counted, and no groups are left out, the rows of a statement tell how many
there are. -/
theorem rows_counted (e : Engine) {q : Query}
    (hcount : .aggregate .countAll ∈ selectedItems q.items) (hlimit : q.limit? = none)
    {rows rows' : List Entries}
    (h : e.rowsOf q (e.groupsOf q rows) = e.rowsOf q (e.groupsOf q rows')) :
    rows.length = rows'.length := by
  obtain ⟨i, hi, hitem⟩ := List.getElem_of_mem hcount
  have hsizes : ∀ gs, (e.rowsOf q gs).map (·[i]?) =
      (e.inOrder q gs).map fun g => some (.int g.members.length) := by
    intro gs
    rw [Engine.rowsOf, List.map_map]
    refine List.map_congr_left fun g _ => ?_
    simp [hi, hitem, Engine.selectedValue, Engine.aggregateOf]
  have hall : ∀ rows, ((e.inOrder q (e.groupsOf q rows)).flatMap Class.members).length =
      rows.length := by
    intro rows
    have horder : (e.inOrder q (e.groupsOf q rows)).Perm (e.groupsOf q rows) := by
      rw [Engine.inOrder, hlimit]
      exact List.mergeSort_perm _ _
    rw [((horder.trans (e.arranged _)).flatMap_right _).length_eq, classes_members]
  have hlengths : (e.inOrder q (e.groupsOf q rows)).map (·.members.length) =
      (e.inOrder q (e.groupsOf q rows')).map (·.members.length) := by
    have hinjective : Function.Injective fun n : Nat => some (Value.int n) :=
      fun m n hmn => Int.ofNat.inj (Value.int.inj (Option.some.inj hmn))
    refine List.map_injective_iff.mpr hinjective ?_
    rw [List.map_map, List.map_map]
    exact (hsizes _).symm.trans ((congrArg (List.map (·[i]?)) h).trans (hsizes _))
  rw [← hall rows, ← hall rows', List.length_flatMap, List.length_flatMap, hlengths]

/-- If all rows of all groups are counted, the rows that pass are those of the statement just if the
condition is true of each row that passes. -/
theorem passed_rows_iff (e : Engine) {t : String} {q : Query} {table : List Entries}
    (hcount : .aggregate .countAll ∈ selectedItems q.items) (hhaving : q.having? = none)
    (hlimit : q.limit? = none) : e.passedRows t q table = e.groupedRows t q table ↔
      ∀ d ∈ table, rowPasses t q d = true → rowMatches t q d = true := by
  have hmatches : e.groupMatches q = fun _ => true := by
    funext g
    rw [Engine.groupMatches, hhaving]
    rfl
  have hpasses : e.groupPasses q = fun _ => true := by
    funext g
    rw [Engine.groupPasses, hhaving]
    rfl
  constructor
  · intro h
    simp only [Engine.passedRows, Engine.groupedRows, hmatches, hpasses, List.filter_true] at h
    have hlength := rows_counted e hcount hlimit h
    rw [← List.countP_eq_length_filter, ← List.countP_eq_length_filter] at hlength
    exact (count_eq_iff (fun d => matches_passes) table).mp hlength.symm
  · exact fun h => passed_rows_eq e h fun g _ _ => by rw [hmatches]

/-- The rows of a table hold the columns that the groups of an accepted statement are made of. -/
theorem row_holds_used {schema : Value} {q : Query} {t : String} (hnamed : Named q)
    (hcheck : (Check.check schema q.toValue).outcome = .ok ()) (hsource : q.source = .table t)
    {d : Entries} (hd : RowOf schema t d) : HoldsColumns (usedColumns q) d := by
  have hbase : baseName q.source = t := by rw [hsource]; rfl
  obtain ⟨subquery, hparts⟩ := accepted_parts hcheck
  intro c hc
  have hcolumn : ColumnIn schema t c := by
    rcases List.mem_append.mp hc with hc | hc
    · obtain ⟨p, hp, hgroups⟩ := hparts.groups
      exact hbase ▸ (groups_accepted hp (List.ne_nil_of_mem hc) hgroups).1 c hc
    · obtain ⟨a, ha, hac⟩ := List.mem_flatMap.mp hc
      cases a with
      | countAll => cases hac
      | call f b =>
        obtain rfl := List.mem_singleton.mp hac
        exact hbase ▸ aggregate_accepted (aggregate_named_item hnamed ha f c rfl)
          (mem_selected_aggregates.mp ha) hparts.selected
  obtain ⟨v, hv⟩ := hd.held c hcolumn
  refine ⟨v, hv, ?_⟩
  rw [← field_of_get hv]
  exact hd.plain c

/-- The pipeline of a grouped statement gives the rows that pass. -/
theorem grouped_pipeline {schema : Value} {sql : String} {line : Nat} {q : Query} {t : String}
    (hparse : Sql.parse sql line = .ok q)
    (hcheck : (Check.check schema q.toValue).outcome = .ok ()) (hq : GroupsTable t q) :
    ∃ command stages, Pipeline.command schema sql line = .ok command ∧
      command.entry "collection" = .ok (.text t) ∧
      command.entry "pipeline" = .ok (.list stages) ∧
      ∀ (e : Engine) (collections : String → List Entries),
        (∀ d ∈ collections t, RowOf schema t d) →
        ∃ out, e.run collections stages (collections t) = some out ∧
          ShowsRows q out (e.passedRows t q (collections t)) := by
  have hnamed := parse_named hparse
  obtain ⟨where?, hw⟩ := clause_selector (some (.text t)) hnamed.condition
    (fun c hc => compared_literal (on_columns_compared (hq.condition c hc)))
  obtain ⟨having?, hh⟩ := clause_selector (some (.text t)) hnamed.having
    (fun c hc => on_aggregates_literal (hq.having c hc))
  obtain ⟨string, htranslate⟩ := grouping_command hnamed hq hw hh
  obtain ⟨subquery, haccepted⟩ := accepted_parts hcheck
  obtain ⟨p, hp, hgroups⟩ := haccepted.groups
  obtain ⟨-, vs, hvs, hgrouped⟩ := groups_accepted hp hq.groupBy hgroups
  obtain ⟨-, hcolumns⟩ := selected_grouped hnamed.groupBy hvs hgrouped
  refine ⟨_, _, command_accepted hparse hcheck htranslate, rfl, rfl, ?_⟩
  intro e collections hrows
  exact run_grouping e collections hnamed hq hcolumns hw hh (fun d hd => (hrows d hd).plain)
    fun d hd => row_holds_used hnamed hcheck hq.source (hrows d hd)

/-- The pipeline of a grouped statement gives the rows that the statement would have if a `null`
differed from all that it is compared with, in the same order and for every engine. These are the
rows of the statement if what passes is true of rows and of groups. Where all rows of all groups are
counted, they are so just if the condition is true of each row that passes. -/
theorem grouped_rows_exact {schema : Value} {sql : String} {line : Nat} {q : Query} {t : String}
    (hparse : Sql.parse sql line = .ok q)
    (hcheck : (Check.check schema q.toValue).outcome = .ok ()) (hq : GroupsTable t q) :
    ∃ command stages, Pipeline.command schema sql line = .ok command ∧
      command.entry "collection" = .ok (.text t) ∧
      command.entry "pipeline" = .ok (.list stages) ∧
      ∀ (e : Engine) (collections : String → List Entries),
        (∀ d ∈ collections t, RowOf schema t d) →
        ∃ out, e.run collections stages (collections t) = some out ∧
          (∀ rows, ShowsRows q out rows ↔ e.passedRows t q (collections t) = rows) ∧
          ((∀ d ∈ collections t, rowPasses t q d = true → rowMatches t q d = true) →
            (∀ g ∈ e.groupsOf q ((collections t).filter (rowMatches t q)),
              e.groupPasses q g = true → e.groupMatches q g = true) →
            ShowsRows q out (e.groupedRows t q (collections t))) ∧
          (.aggregate .countAll ∈ selectedItems q.items → q.having? = none → q.limit? = none →
            (ShowsRows q out (e.groupedRows t q (collections t)) ↔
              ∀ d ∈ collections t, rowPasses t q d = true → rowMatches t q d = true)) := by
  obtain ⟨command, stages, hcommand, hcollection, hstages, hall⟩ :=
    grouped_pipeline hparse hcheck hq
  refine ⟨command, stages, hcommand, hcollection, hstages, fun e collections hrows => ?_⟩
  obtain ⟨out, hrun, hshows⟩ := hall e collections hrows
  have hexact := fun rows => @shows_rows_iff q out _ rows hshows
  refine ⟨out, hrun, hexact, fun hmatches hgroups => ?_, fun hcount hhaving hlimit => ?_⟩
  · exact (hexact _).mpr (passed_rows_eq e hmatches hgroups)
  · exact (hexact _).trans (passed_rows_iff e hcount hhaving hlimit)

def citizensSchema : Value :=
  doc [("users", doc [("age", .text "int"), ("city", .text "string")])]

/-- The two cities with the most users of which none is three years old, if there are several. -/
def largestCities : Query :=
  ⟨.items (.column ⟨none, "city"⟩) [.aggregate .countAll], .table "users",
    some (.compare ⟨none, "age"⟩ .ne (.literal (.number 3))), ["city"],
    some (.aggregate .countAll .gt (.number 1)), [⟨"count", .desc⟩], some 2⟩

theorem largest_cities_groups : GroupsTable "users" largestCities where
  source := rfl
  groupBy := by simp [largestCities]
  condition := by
    intro c hc
    cases hc
    rfl
  having := by
    intro c hc
    cases hc
    rfl
  ordered := by
    intro o ho
    obtain rfl := List.mem_singleton.mp ho
    exact .inr ⟨.countAll, by simp [largestCities, selectedItems, selectedAggregates], rfl⟩
  nodup := by simp [largestCities]
  limit := by simp [largestCities]
  no_id := by simp [largestCities]
  no_alias := by
    intro a ha
    obtain rfl : a = .countAll := by
      simpa [largestCities, selectedItems, selectedAggregates] using ha
    simp [largestCities, Aggregate.alias]

def citizen (age : Int) (city : String) : Entries :=
  [(.text "age", .int age), (.text "city", .text city)]

def largestCitiesText : String :=
  "SELECT city, COUNT(*) FROM users WHERE age != 3 GROUP BY city HAVING COUNT(*) > 1 " ++
    "ORDER BY COUNT(*) DESC LIMIT 2;"

def citizens : List Entries := [citizen 20 "Rome", citizen 30 "Oslo", citizen 40 "Rome"]

theorem citizen_row (age : Int) (city : String) :
    RowOf citizensSchema "users" (citizen age city) :=
  two_column_row rfl .int .text (.inr rfl) (.inr rfl)

theorem grouped_rows_cities :
    ∃ command stages out, Pipeline.command citizensSchema largestCitiesText 1 = .ok command ∧
      command.entry "pipeline" = .ok (.list stages) ∧
      plainEngine.run (fun _ => citizens) stages citizens = some out ∧
      ShowsRows largestCities out [[.text "Rome", .int 2]] := by
  have hparse : Sql.parse largestCitiesText 1 = .ok largestCities :=
    parse_lexemes (lexemes_scanned_append ⟨rfl, rfl⟩) rfl
  have hcheck : (Check.check citizensSchema largestCities.toValue).outcome = .ok () := rfl
  have hrows : plainEngine.groupedRows "users" largestCities citizens =
      [[.text "Rome", .int 2]] := by
    have hgroups : plainEngine.inOrder largestCities
        ((plainEngine.groupsOf largestCities
          (citizens.filter (rowMatches "users" largestCities))).filter
            (plainEngine.groupMatches largestCities)) =
        [⟨citizen 20 "Rome", [citizen 40 "Rome"]⟩] := by
      change (plainEngine.sortBy _ ([⟨citizen 20 "Rome", [citizen 40 "Rome"]⟩] :
        List (Class Entries))).take 2 = _
      rw [Engine.sortBy, List.mergeSort_singleton]
      rfl
    rw [Engine.groupedRows, Engine.rowsOf, hgroups]
    rfl
  obtain ⟨command, stages, hcommand, -, hstages, hall⟩ :=
    grouped_rows_exact hparse hcheck largest_cities_groups
  have hcitizen : ∀ d ∈ citizens, ∃ age city, d = citizen age city := by
    simp [citizens]
  obtain ⟨out, hrun, -, hshows, -⟩ := hall plainEngine (fun _ => citizens) fun d hd => by
    obtain ⟨age, city, rfl⟩ := hcitizen d hd
    exact citizen_row age city
  -- All ages are known, and no number of users is tested for being different.
  have hmatch : ∀ age city, rowPasses "users" largestCities (citizen age city) =
    (rowMatches "users" largestCities (citizen age city) || false) := fun _ _ => rfl
  have hkept : ∀ g, plainEngine.groupPasses largestCities g =
    (plainEngine.groupMatches largestCities g || false) := fun _ => rfl
  refine ⟨command, stages, out, hcommand, hstages, hrun, hrows ▸ hshows ?_ fun g _ hg => ?_⟩
  · intro d hd hpass
    obtain ⟨age, city, rfl⟩ := hcitizen d hd
    rwa [hmatch, Bool.or_false] at hpass
  · rwa [hkept, Bool.or_false] at hg


/-- How many users there are in each city, without those who are three years old. -/
def grownCounts : Query :=
  ⟨.items (.column ⟨none, "city"⟩) [.aggregate .countAll], .table "users",
    some (.compare ⟨none, "age"⟩ .ne (.literal (.number 3))), ["city"], none, [], none⟩

theorem grown_counts_groups : GroupsTable "users" grownCounts where
  source := rfl
  groupBy := by simp [grownCounts]
  condition c hc := by
    cases hc
    rfl
  having c hc := by cases hc
  ordered o ho := by cases ho
  nodup := by simp [grownCounts]
  limit := by simp [grownCounts]
  no_id := by simp [grownCounts]
  no_alias a ha := by
    obtain rfl : a = .countAll := by
      simpa [grownCounts, selectedItems, selectedAggregates] using ha
    simp [grownCounts, Aggregate.alias]

/-- A user whose age is not known. -/
def ageless : Entries := [(.text "age", .null), (.text "city", .text "Rome")]

/-- A user whose age is not known is counted, though the statement leaves such users out. -/
theorem ageless_counted :
    ¬ ∀ {schema command : Value} {sql t : String} {line : Nat} {q : Query} {stages : List Value},
      Schema.check schema = .ok () → Sql.parse sql line = .ok q →
      Pipeline.command schema sql line = .ok command → GroupsTable t q →
      command.entry "pipeline" = .ok (.list stages) →
      ∀ (e : Engine) (collections : String → List Entries),
        (∀ d ∈ collections t, RowOf schema t d) →
        ∃ out, e.run collections stages (collections t) = some out ∧
          ShowsRows q out (e.groupedRows t q (collections t)) := by
  intro hall
  have hparse : Sql.parse "SELECT city, COUNT(*) FROM users WHERE age != 3 GROUP BY city;" 1 =
      .ok grownCounts := parse_spelled ⟨rfl, rfl⟩ rfl
  have hcheck : (Check.check citizensSchema grownCounts.toValue).outcome = .ok () := rfl
  obtain ⟨command, stages, hcommand, -, hstages, hpassed⟩ :=
    grouped_pipeline hparse hcheck grown_counts_groups
  have hrows : ∀ d ∈ [ageless], RowOf citizensSchema "users" d :=
    List.forall_mem_singleton.mpr (two_column_row rfl .null .text (.inl rfl) (.inr rfl))
  obtain ⟨out, hrun, hshows⟩ := hall rfl hparse hcommand grown_counts_groups hstages plainEngine
    (fun _ => [ageless]) hrows
  obtain ⟨out', hrun', hshows'⟩ := hpassed plainEngine (fun _ => [ageless]) hrows
  cases hrun.symm.trans hrun'
  have hsame := (shows_rows_iff hshows').mp hshows
  have hcount : .aggregate .countAll ∈ selectedItems grownCounts.items := by
    simp [grownCounts, selectedItems]
  have hmatches := (passed_rows_iff plainEngine hcount rfl rfl).mp hsame ageless
    (List.mem_singleton_self _) rfl
  cases hmatches

end DocQuery.Proofs
