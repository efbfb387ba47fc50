import DocQuery.Proofs.Groupings
import DocQuery.Proofs.Rows
import DocQuery.Proofs.Stages
import Mathlib.Data.List.Nodup

namespace DocQuery.Proofs

open Sql
open Value (doc)

namespace Engine

variable (e : Engine)

/-- The value of an aggregate over rows. -/
def aggregateOf (rows : List Entries) : Aggregate → Value
  | .countAll => .int rows.length
  | .call .count c => .int (rows.countP (fun d => (Entries.field d c).kind != .null))
  | .call .min c => e.min (rows.map (Entries.field · c))
  | .call .max c => e.max (rows.map (Entries.field · c))
  | .call .avg c => e.average (rows.map (Entries.field · c))
  | .call .sum c => e.sum (rows.map (Entries.field · c))

/-- What a name of an ordering stands for in a group: a grouping column, or the selected aggregate
of this name. -/
def orderValue (q : Query) (name : String) (g : Class Entries) : Value :=
  if name ∈ q.groupBy then Entries.field g.first name
  else
    match (selectedAggregates (selectedItems q.items)).find? (fun a => a.alias == name) with
    | some a => e.aggregateOf g.members a
    | none => .null

end Engine

/-- A row holds plain values in given columns. -/
def HoldsColumns (cs : List String) (d : Entries) : Prop :=
  ∀ c ∈ cs, ∃ v, Entries.get? d (.text c) = some v ∧ Atom v

theorem get_field {cs : List String} {d : Entries} (h : HoldsColumns cs d) {c : String}
    (hc : c ∈ cs) : Entries.get? d (.text c) = some (Entries.field d c) ∧
      Atom (Entries.field d c) := by
  obtain ⟨v, hv, ha⟩ := h c hc
  rw [field_of_get hv]
  exact ⟨hv, ha⟩

theorem evaluate_column {cs : List String} {d : Entries} (h : HoldsColumns cs d) {c : String}
    (hc : c ∈ cs) (hdot : NoDot c) : evaluate d (.text ("$" ++ c)) = some (Entries.field d c) := by
  rw [evaluate_path, field_at_name d hdot]
  exact (get_field h hc).1

/-- The document of a value for each name. -/
def documentOf (cs : List String) (value : String → Value) : Entries :=
  putAll [] (cs.map (fun c => (c, value c)))

theorem document_get {cs : List String} {value : String → Value} {c : String} (hc : c ∈ cs) :
    Entries.get? (documentOf cs value) (.text c) = some (value c) := by
  refine get_put_all ⟨_, List.mem_map_of_mem hc, rfl⟩ ?_
  intro f hf he
  obtain ⟨b, -, rfl⟩ := List.mem_map.mp hf
  exact congrArg value he

theorem document_mem {cs : List String} {value : String → Value} {x : Value × Value} :
    x ∈ documentOf cs value ↔ ∃ c ∈ cs, x = (.text c, value c) := by
  constructor
  · intro hx
    rcases put_all_mem hx with hx | ⟨f, hf, rfl⟩
    · cases hx
    · obtain ⟨c, hc, rfl⟩ := List.mem_map.mp hf
      exact ⟨c, hc, rfl⟩
  · rintro ⟨c, hc, rfl⟩
    exact get_entry (document_get hc)

/-- How many names a document has does not depend on its values. -/
theorem document_length (cs : List String) (value value' : String → Value) :
    (documentOf cs value).length = (documentOf cs value').length := by
  have hnull : ∀ value : String → Value,
      (documentOf cs value).map (fun x => (x.1, Value.null)) = documentOf cs fun _ => .null := by
    intro value
    rw [documentOf, map_put_all (fun _ => .null), List.map_map]
    rfl
  simpa using congrArg List.length ((hnull value).trans (hnull value').symm)

/-- The key of the group of a row. -/
def keyOf (cs : List String) (d : Entries) : Value :=
  match cs with
  | [] => .null
  | [c] => Entries.field d c
  | cs => .dict (documentOf cs (Entries.field d))

theorem evaluate_key {cs : List String} {d : Entries} (h : HoldsColumns cs d)
    (hnames : ∀ c ∈ cs, IsName c) : (evaluate d (groupKeyOf cs)).getD .null = keyOf cs d := by
  match cs with
  | [] => rfl
  | [c] =>
    have hc := List.mem_singleton_self c
    rw [groupKeyOf, evaluate_column h hc (hnames c hc).no_dot]
    rfl
  | c :: c' :: cs =>
    have hentry : ∀ x ∈ putAll [] ((c :: c' :: cs).map fun c => (c, Value.text ("$" ++ c))),
        ∃ b ∈ c :: c' :: cs, x = (.text b, .text ("$" ++ b)) := by
      intro x hx
      rcases put_all_mem hx with hx | ⟨f, hf, rfl⟩
      · cases hx
      · obtain ⟨b, hb, rfl⟩ := List.mem_map.mp hf
        exact ⟨b, hb, rfl⟩
    have hvalue : ∀ b ∈ c :: c' :: cs,
        evaluate d (.text ("$" ++ b)) = some (Entries.field d b) :=
      fun b hb => evaluate_column h hb (hnames b hb).no_dot
    have hplain : ∀ x ∈ putAll [] ((c :: c' :: cs).map fun c => (c, Value.text ("$" ++ c))),
        ∃ s, x.1 = .text s ∧ Plain s := by
      intro x hx
      obtain ⟨b, hb, rfl⟩ := hentry x hx
      exact ⟨b, rfl, (hnames b hb).plain⟩
    have hsome : ∀ x ∈ putAll [] ((c :: c' :: cs).map fun c => (c, Value.text ("$" ++ c))),
        (evaluate d x.2).isSome = true := by
      intro x hx
      obtain ⟨b, hb, rfl⟩ := hentry x hx
      rw [hvalue b hb]
      rfl
    have hmapped : ((c :: c' :: cs).map fun c => (c, Value.text ("$" ++ c))).map
        (fun f => (f.1, (evaluate d f.2).getD .null)) =
          (c :: c' :: cs).map fun c => (c, Entries.field d c) := by
      rw [List.map_map]
      refine List.map_congr_left fun b hb => ?_
      simp [hvalue b hb]
    rw [groupKeyOf, evaluate_document d hplain, evaluate_entries hsome,
      map_put_all (fun x => (evaluate d x.2).getD .null), hmapped]
    · rfl
    · simp
    · simp

theorem same_atom {v w : Value} (hv : Atom v) (hw : Atom w) : v.same w = equals v w := by
  cases hv <;> cases hw <;>
    simp [equals, orderType, Value.kind, Value.same, Value.sameNumber, Value.number?]

theorem same_entries (es fs : Entries) :
    Value.sameEntries es fs = es.all (fun e => fs.any (fun f => e.1.same f.1 && e.2.same f.2)) := by
  induction es with
  | nil => simp [Value.sameEntries]
  | cons e es ih => simp [Value.sameEntries, ih]

theorem same_documents {cs : List String} {a b : Entries} (ha : HoldsColumns cs a)
    (hb : HoldsColumns cs b) :
    (Value.dict (documentOf cs (Entries.field a))).same
        (.dict (documentOf cs (Entries.field b))) =
      cs.all (fun c => equals (Entries.field a c) (Entries.field b c)) := by
  rw [Value.same, document_length cs (Entries.field a) (Entries.field b), same_entries,
    Bool.eq_iff_iff]
  simp only [BEq.rfl, Bool.true_and, List.all_eq_true, List.any_eq_true, Bool.and_eq_true]
  constructor
  · intro h c hc
    obtain ⟨y, hy, hkey, hvalue⟩ := h _ (document_mem.mpr ⟨c, hc, rfl⟩)
    obtain ⟨c', -, rfl⟩ := document_mem.mp hy
    obtain rfl : c = c' := by simpa using hkey
    rwa [same_atom (get_field ha hc).2 (get_field hb hc).2] at hvalue
  · intro h x hx
    obtain ⟨c, hc, rfl⟩ := document_mem.mp hx
    refine ⟨_, document_mem.mpr ⟨c, hc, rfl⟩, by simp, ?_⟩
    rw [same_atom (get_field ha hc).2 (get_field hb hc).2]
    exact h c hc

/-- Rows have equal keys just if they agree in all grouping columns. -/
theorem equal_keys {cs : List String} {a b : Entries} (ha : HoldsColumns cs a)
    (hb : HoldsColumns cs b) :
    equals (keyOf cs a) (keyOf cs b) =
      cs.all (fun c => equals (Entries.field a c) (Entries.field b c)) := by
  match cs with
  | [] => rfl
  | [c] => simp [keyOf]
  | c :: c' :: cs =>
    rw [← same_documents ha hb]
    simp [keyOf, equals, orderType, Value.kind, documentOf]

/-- The columns that an aggregate is about. -/
def aggregateColumns : Aggregate → List String
  | .countAll => []
  | .call _ c => [c]

theorem filter_map_total {α β : Type} {f : α → Option β} {g : α → β} {xs : List α}
    (h : ∀ x ∈ xs, f x = some (g x)) : xs.filterMap f = xs.map g := by
  induction xs with
  | nil => rfl
  | cons x xs ih =>
    obtain ⟨hx, hxs⟩ := List.forall_mem_cons.mp h
    rw [List.filterMap_cons, hx, ih hxs, List.map_cons]

/-- The sum of one for each member that passes, and zero for the others, is their number. -/
theorem sum_passing {α : Type} (p : α → Bool) (xs : List α) :
    (xs.map (fun x => if p x then (1 : Int) else 0)).sum = xs.countP p := by
  induction xs with
  | nil => rfl
  | cons x xs ih =>
    rw [List.map_cons, List.sum_cons, ih, List.countP_cons]
    cases p x <;> simp [Int.add_comm]

theorem evaluate_count {c : String} {d : Entries} (hc : IsName c) (hd : HoldsColumns [c] d) :
    evaluate d (doc [("$cond", .list [doc [("$ne", .list [.text ("$" ++ c), .null])], .int 1,
      .int 0])]) = some (.int (if (Entries.field d c).kind != .null then 1 else 0)) := by
  have hcolumn := evaluate_column hd (List.mem_singleton_self c) hc.no_dot
  have hatom := (get_field hd (List.mem_singleton_self c)).2
  have hnull : evaluate d .null = some .null := by simp [evaluate]
  have hone : evaluate d (.int 1) = some (.int 1) := by simp [evaluate]
  have hzero : evaluate d (.int 0) = some (.int 0) := by simp [evaluate]
  rw [evaluate_cond, evaluate_ne, hcolumn, hnull, hone, hzero]
  generalize Entries.field d c = v at hatom
  cases hatom <;> rfl

/-- An accumulator gives the aggregate of a group. -/
theorem accumulate_aggregate (e : Engine) {rows : List Entries} {a : Aggregate}
    (hname : NamedItem (.aggregate a)) (h : ∀ d ∈ rows, HoldsColumns (aggregateColumns a) d) :
    e.accumulate rows (accumulated a) = some (e.aggregateOf rows a) := by
  cases a with
  | countAll =>
    have hones : rows.filterMap (evaluate · (.int 1)) = (rows.map fun _ => (1 : Int)).map .int := by
      rw [List.map_map]
      exact filter_map_total fun d _ => by simp [evaluate]
    simp only [accumulated, doc, List.map_cons, List.map_nil, Engine.accumulate, hones, e.sum_ints,
      Engine.aggregateOf]
    simp
  | call f c =>
    have hc : IsName c := hname f c rfl
    have hcolumn : ∀ d ∈ rows, evaluate d (.text ("$" ++ c)) = some (Entries.field d c) :=
      fun d hd => evaluate_column (h d hd) (List.mem_singleton_self c) hc.no_dot
    have hvalues := filter_map_total hcolumn
    cases f with
    | count =>
      have hcounts : rows.filterMap (evaluate · (doc [("$cond",
          .list [doc [("$ne", .list [.text ("$" ++ c), .null])], .int 1, .int 0])])) =
          (rows.map fun d => if (Entries.field d c).kind != .null then (1 : Int) else 0).map
            .int := by
        rw [List.map_map]
        exact filter_map_total fun d hd => evaluate_count hc (h d hd)
      have hsum := sum_passing (fun d => (Entries.field d c).kind != .null) rows
      rw [accumulated, if_neg hc.not_star]
      change some (e.sum _) = _
      rw [hcounts, e.sum_ints, hsum]
      rfl
    | _ =>
      simp only [accumulated, doc, List.map_cons, List.map_nil, Engine.accumulate, hvalues,
        Engine.aggregateOf]

theorem HoldsColumns.mono {cs bs : List String} {d : Entries} (h : HoldsColumns cs d)
    (hsub : ∀ c ∈ bs, c ∈ cs) : HoldsColumns bs d :=
  fun c hc => h c (hsub c hc)

/-- The columns that the groups of a statement are made of. -/
def usedColumns (q : Query) : List String :=
  q.groupBy ++ (selectedAggregates (selectedItems q.items)).flatMap aggregateColumns

/-- The document of a group. -/
def Engine.groupDocument (e : Engine) (q : Query) (g : Class Entries) : Entries :=
  putAll [(.text "_id", keyOf q.groupBy g.first)]
    ((selectedAggregates (selectedItems q.items)).map
      (fun a => (aggregateName a, e.aggregateOf g.members a)))

theorem map_m_total {α β : Type} {f : α → Option β} {g : α → β} {xs : List α}
    (h : ∀ x ∈ xs, f x = some (g x)) : xs.mapM f = some (xs.map g) := by
  induction xs with
  | nil => rfl
  | cons x xs ih =>
    obtain ⟨hx, hxs⟩ := List.forall_mem_cons.mp h
    rw [List.mapM_cons, hx, ih hxs]
    rfl

theorem group_document_id (e : Engine) (q : Query) (g : Class Entries) :
    Entries.get? (e.groupDocument q g) (.text "_id") = some (keyOf q.groupBy g.first) := by
  rw [Engine.groupDocument, get_put_all_other]
  · rfl
  · intro f hf
    obtain ⟨a, -, rfl⟩ := List.mem_map.mp hf
    exact aggregate_name_not_id a

section

variable {q : Query} (hq : Named q)

include hq

theorem aggregate_named_item {a : Aggregate}
    (ha : a ∈ selectedAggregates (selectedItems q.items)) : NamedItem (.aggregate a) :=
  hq.items _ (mem_selected_aggregates.mp ha)

/-- The grouping stage gives the document of a group. -/
theorem group_document_of (e : Engine) {g : Class Entries}
    (hg : g.All (HoldsColumns (usedColumns q))) :
    e.groupDocument? (groupEntries q.groupBy (selectedItems q.items)) g =
      some (e.groupDocument q g) := by
  have hfirst : HoldsColumns q.groupBy g.first :=
    (hg g.first List.mem_cons_self).mono fun c hc => List.mem_append_left _ hc
  have hkey := evaluate_key hfirst hq.groupBy
  have haggregate : ∀ a ∈ selectedAggregates (selectedItems q.items),
      e.accumulate g.members (accumulated a) = some (e.aggregateOf g.members a) := by
    intro a ha
    refine accumulate_aggregate e (aggregate_named_item hq ha) fun d hd => ?_
    exact (hg d hd).mono fun c hc =>
      List.mem_append_right _ (List.mem_flatMap.mpr ⟨a, ha, hc⟩)
  let value : Value × Value → Value := fun x =>
    if x.1.same (.text "_id") then keyOf q.groupBy g.first
    else (e.accumulate g.members x.2).getD .null
  have hid : value (.text "_id", groupKeyOf q.groupBy) = keyOf q.groupBy g.first := by
    simp [value]
  have hvalue : ∀ a ∈ selectedAggregates (selectedItems q.items),
      value (.text (aggregateName a), accumulated a) = e.aggregateOf g.members a := by
    intro a ha
    simp [value, aggregate_name_not_id, haggregate a ha]
  have hentries : e.groupDocument? (groupEntries q.groupBy (selectedItems q.items)) g =
      some ((groupEntries q.groupBy (selectedItems q.items)).map fun x => (x.1, value x)) := by
    -- Every entry is the key or what an aggregate accumulates.
    refine map_m_total fun x hx => ?_
    rcases put_all_mem hx with hx | ⟨f, hf, rfl⟩
    · obtain rfl := List.mem_singleton.mp hx
      simp [hid, hkey]
    · obtain ⟨a, ha, rfl⟩ := List.mem_map.mp hf
      simp [hvalue a ha, aggregate_name_not_id, haggregate a ha]
  have hfields : (accumulatedFields (selectedItems q.items)).map
      (fun f => (f.1, value (.text f.1, f.2))) =
        (selectedAggregates (selectedItems q.items)).map
          (fun a => (aggregateName a, e.aggregateOf g.members a)) := by
    rw [accumulatedFields, List.map_map]
    refine List.map_congr_left fun a ha => ?_
    simp [hvalue a ha]
  rw [hentries, groupEntries, map_put_all, hfields, List.map_cons, List.map_nil, hid]
  rfl

theorem group_document_aggregate (e : Engine) (g : Class Entries) {a : Aggregate}
    (ha : a ∈ selectedAggregates (selectedItems q.items)) :
    Entries.get? (e.groupDocument q g) (.text (aggregateName a)) =
      some (e.aggregateOf g.members a) := by
  refine get_put_all ⟨_, List.mem_map_of_mem ha, rfl⟩ ?_
  intro f hf he
  obtain ⟨b, hb, rfl⟩ := List.mem_map.mp hf
  obtain rfl := aggregate_name_injective (aggregate_named_item hq hb) (aggregate_named_item hq ha) he
  rfl

/-- A grouping column is found under the key of a group. -/
theorem group_document_column (e : Engine) (g : Class Entries) {c : String}
    (hc : c ∈ q.groupBy) :
    fieldAt? (e.groupDocument q g) (orderName q.groupBy c) = some (Entries.field g.first c) := by
  have hid := group_document_id e q g
  have hname : IsName c := hq.groupBy c hc
  have hdot : NoDot "_id" := by decide
  rw [orderName, if_pos hc]
  cases hcs : q.groupBy with
  | nil =>
    rw [hcs] at hc
    cases hc
  | cons b bs =>
    rw [hcs] at hc hid
    cases bs with
    | nil =>
      obtain rfl := List.mem_singleton.mp hc
      rw [if_pos (by simp), field_at_name _ hdot, hid]
      rfl
    | cons b' bs =>
      have hpath : "_id." ++ c = "_id" ++ "." ++ c := rfl
      rw [if_neg (by simp), hpath, field_at_dotted hdot hname.no_dot hid, document_get hc]

theorem group_document_order (e : Engine) (g : Class Entries) {name : String}
    (hname : name ∈ q.groupBy ∨
      ∃ a ∈ selectedAggregates (selectedItems q.items), name = a.alias) :
    fieldAt (e.groupDocument q g) (orderName q.groupBy name) = e.orderValue q name g := by
  by_cases hc : name ∈ q.groupBy
  · rw [fieldAt, group_document_column hq e g hc, Engine.orderValue, if_pos hc]
    rfl
  · obtain ⟨a, ha, rfl⟩ := hname.resolve_left hc
    have hnamed := aggregate_named_item hq ha
    have hfound : (selectedAggregates (selectedItems q.items)).find?
        (fun b => b.alias == a.alias) = some a := by
      have hsome : ((selectedAggregates (selectedItems q.items)).find?
          (fun b => b.alias == a.alias)).isSome = true :=
        List.find?_isSome.mpr ⟨a, ha, by simp⟩
      obtain ⟨b, hb⟩ := Option.isSome_iff_exists.mp hsome
      have hnamed' := aggregate_named_item hq (List.mem_of_find?_eq_some hb)
      have halike : b.alias = a.alias := by simpa using List.find?_some hb
      rw [alias_name hnamed, alias_name hnamed'] at halike
      rw [hb, aggregate_name_injective hnamed' hnamed halike]
    rw [orderName, if_neg hc, alias_name hnamed, fieldAt,
      field_at_name _ (aggregate_name_no_dot hnamed), group_document_aggregate hq e g ha,
      Engine.orderValue, ← alias_name hnamed, if_neg hc, hfound]
    rfl

end

end DocQuery.Proofs
