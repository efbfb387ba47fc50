import DocQuery.Menu
import DocQuery.Proofs.MemberLists
import DocQuery.Proofs.Searches
import Mathlib.Data.List.Pairwise

namespace DocQuery.Proofs

open Sql
open Value (doc)

/-- Literals of one type can be compared; a column is compared with nothing. -/
def Compares : Operand → Operand → Prop
  | .literal l, .literal m => (scalarOf l).isText = (scalarOf m).isText
  | _, _ => False

theorem Compares.symm {x y : Operand} (h : Compares x y) : Compares y x := by
  cases x with
  | column c => cases h
  | literal l =>
    cases y with
    | column d => cases h
    | literal m => exact Eq.symm h

theorem Compares.trans {x y z : Operand} (hxy : Compares x y) (hyz : Compares y z) :
    Compares x z := by
  cases x with
  | column c => cases hxy
  | literal l =>
    cases y with
    | column d => cases hxy
    | literal m =>
      cases z with
      | column e => cases hyz
      | literal n => exact Eq.trans hxy hyz

/-- What can be compared with one of two such values can be compared with the other. -/
theorem Compares.swap {x y : Operand} (h : Compares x y) (z : Operand) :
    Compares x z ↔ Compares y z :=
  ⟨h.symm.trans, h.trans⟩

theorem less_compares (x y : Operand) : Succeeds (x.toValue.less y.toValue) ↔ Compares x y := by
  cases x with
  | column c =>
    refine ⟨fun h => ?_, fun h => by cases h⟩
    obtain ⟨b, hb⟩ := h
    cases y with
    | column d => cases hb
    | literal m => cases m <;> cases hb
  | literal l =>
    cases y with
    | column d =>
      refine ⟨fun h => ?_, fun h => by cases h⟩
      obtain ⟨b, hb⟩ := h
      cases l <;> cases hb
    | literal m =>
      simp only [Operand.toValue, literal_value]
      constructor
      · rintro ⟨b, hb⟩
        obtain ⟨s, t, hs, ht, htype, -⟩ := member_less (.scalar _) (.scalar _) hb
        rw [← Scalar.to_value_injective hs, ← Scalar.to_value_injective ht] at htype
        exact htype
      · intro htype
        exact ⟨_, less_scalar htype⟩

/-- Exchanging a value for one with which it can be compared keeps a list comparable. -/
theorem compares_kept {x y z : Operand} {xs : List Operand} (hxy : Compares x y)
    (hz : z = x ∨ z = y) :
    (z :: xs).Pairwise Compares ↔ (x :: y :: xs).Pairwise Compares := by
  have hzs : (∀ w ∈ xs, Compares z w) ↔ ∀ w ∈ xs, Compares y w := by
    rcases hz with rfl | rfl
    · simp only [hxy.swap]
    · rfl
  have hyy : Compares y y := hxy.symm.trans hxy
  simp only [List.pairwise_cons, List.forall_mem_cons, hzs, hxy.swap, hyy, true_and]
  exact ⟨fun h => ⟨h.1, h⟩, And.right⟩

/-- What is kept of two values at each step is found in the end just if any two can be compared. -/
theorem extreme_compares {extreme : Value → List Value → Except Fault Value}
    {test : Value → Value → Except (Kind × Kind) Bool} (h : Extreme extreme test)
    (htest : ∀ x y : Operand, Succeeds (test y.toValue x.toValue) ↔ Compares x y)
    (x : Operand) (xs : List Operand) :
    Succeeds (extreme x.toValue (xs.map Operand.toValue)) ↔ (x :: xs).Pairwise Compares := by
  induction xs generalizing x with
  | nil => simp [h.nil, Succeeds]
  | cons y ys ih =>
    rw [List.map_cons]
    cases hcmp : test y.toValue x.toValue with
    | ok b =>
      have hxy := (htest x y).mp ⟨b, hcmp⟩
      rw [h.ok _ hcmp]
      cases b with
      | true => exact (ih y).trans (compares_kept hxy (.inr rfl))
      | false => exact (ih x).trans (compares_kept hxy (.inl rfl))
    | error e =>
      obtain ⟨f, hf⟩ := h.error (ys.map Operand.toValue) hcmp
      refine iff_of_false (by simp [Succeeds, hf]) fun hall => ?_
      obtain ⟨b, hb⟩ := (htest x y).mpr ((List.pairwise_cons.mp hall).1 y List.mem_cons_self)
      rw [hcmp] at hb
      cases hb

theorem least_compares (x : Operand) (xs : List Operand) :
    Succeeds (Command.least x.toValue (xs.map Operand.toValue)) ↔
      (x :: xs).Pairwise Compares :=
  extreme_compares least_extreme
    (fun x y => (less_compares y x).trans ⟨Compares.symm, Compares.symm⟩) x xs

theorem greatest_compares (x : Operand) (xs : List Operand) :
    Succeeds (Command.greatest x.toValue (xs.map Operand.toValue)) ↔
      (x :: xs).Pairwise Compares := by
  refine extreme_compares greatest_extreme (fun x y => ?_) x xs
  rw [← less_compares]
  unfold Value.greater
  cases x.toValue.less y.toValue <;> simp [Succeeds]

theorem insert_one_type {v w : Scalar} {ws r : List Value}
    (h : Value.insertSorted v.toValue (w.toValue :: ws) = .ok r) : v.isText = w.isText := by
  simp only [Value.insertSorted, bind_ok] at h
  obtain ⟨b, hless, -⟩ := h
  obtain ⟨s, t, hs, ht, htype, -⟩ := member_less (.scalar v) (.scalar w) hless
  rwa [← Scalar.to_value_injective hs, ← Scalar.to_value_injective ht] at htype

/-- Members are sorted only if they are of one type. -/
theorem sorted_one_type {vs : List Scalar} {ws : List Value}
    (h : Value.sorted (vs.map Scalar.toValue) = .ok ws) : OneType vs := by
  -- The values so far are of one type, and the next one is compared with the first of them.
  have hrun : ∀ (vs : List Scalar) (first : Scalar) (done : List Value),
      (∀ d ∈ done, ∃ s : Scalar, d = s.toValue ∧ s.isText = first.isText) → done ≠ [] →
      ∀ ws, (vs.map Scalar.toValue).foldlM (fun done v => Value.insertSorted v done) done =
        .ok ws → ∀ v ∈ vs, v.isText = first.isText := by
    intro vs first
    induction vs with
    | nil => simp
    | cons v vs ih =>
      intro done hdone hne ws h
      rw [List.map_cons, List.foldlM_cons, bind_ok] at h
      obtain ⟨next, hnext, h⟩ := h
      have hv : v.isText = first.isText := by
        cases done with
        | nil => exact absurd rfl hne
        | cons d done =>
          obtain ⟨s, rfl, hs⟩ := hdone d List.mem_cons_self
          exact (insert_one_type hnext).trans hs
      obtain ⟨hsome, hmem⟩ := insert_sorted_mem hnext
      refine List.forall_mem_cons.mpr ⟨hv, ih next (fun d hd => ?_) hsome ws h⟩
      rcases List.mem_cons.mp (hmem d hd) with rfl | hd
      · exact ⟨v, rfl, hv⟩
      · exact hdone d hd
  cases vs with
  | nil => exact fun v hv => absurd hv List.not_mem_nil
  | cons v vs =>
    have hall := hrun vs v [v.toValue] (by simpa using ⟨v, rfl, rfl⟩) (by simp) ws h
    have hall : ∀ w ∈ v :: vs, w.isText = v.isText := List.forall_mem_cons.mpr ⟨rfl, hall⟩
    exact fun w hw u hu => (hall w hw).trans (hall u hu).symm

/-- The alternatives of a condition, each of them with all that AND joins to it. -/
def choicesOf : Condition → List Condition
  | .connect l w r =>
    if Keyword.ofWord? w.toList = some .orWord then choicesOf l ++ [r] else [.connect l w r]
  | c => [c]

/-- What a column or an aggregate is compared with by a relation. -/
def comparedBy? (r : Relation) : Condition → Option Operand
  | .compare _ s x => if s = r then some x else none
  | .aggregate _ s l => if s = r then some (.literal l) else none
  | _ => none

/-- The bounds that count: the lower ones if there are any, else the upper ones. -/
def decidingBounds (cs : List Condition) : List Operand :=
  match cs.filterMap (comparedBy? .gt) with
  | [] => cs.filterMap (comparedBy? .lt)
  | low :: lows => low :: lows

/-- Alternatives on one field that cannot be put into one test: it equals one of some values, or is
bounded by some, of which two cannot be compared. -/
structure Clash (base? : Option Value) (cs : List Condition) : Prop where
  field : ∃ name, ∀ c ∈ cs, testedNames base? c = [name]
  values : ((∀ c ∈ cs, ∃ l, comparedBy? .eq c = some (.literal l)) ∧
      ¬ (cs.filterMap (comparedBy? .eq)).Pairwise Compares) ∨
    ((∀ c ∈ cs, (comparedBy? .gt c).isSome ∨ (comparedBy? .lt c).isSome) ∧
      ¬ (decidingBounds cs).Pairwise Compares)

/-- What the filter of an alternative tells of it. -/
structure EntryOf (base? : Option Value) (c : Condition) (p : String × Value) : Prop where
  filter : Command.filter base? c.toValue = .ok (single p)
  name : ∀ n, Plain n → (testedNames base? c = [n] ↔ p.1 = n)
  equal : Plain p.1 → (p.2.kind ≠ .dict ↔ ∃ l, comparedBy? .eq c = some (.literal l))
  value : ∀ l, comparedBy? .eq c = some (.literal l) → p.2 = l.toValue
  low : lowOf? p.2 = (comparedBy? .gt c).map Operand.toValue
  high : highOf? p.2 = (comparedBy? .lt c).map Operand.toValue

/-- The tests of a field by a relation. -/
def relationBody (v : Value) : Relation → Value
  | .eq => v
  | .ne => doc [("$ne", v)]
  | .gt => doc [("$gt", v)]
  | .lt => doc [("$lt", v)]
  | .ge => doc [("$gte", v)]
  | .le => doc [("$lte", v)]

theorem relation_filter {base? : Option Value} {i : Value} {name : String}
    (hi : Command.fieldOf base? i = .ok (.text name)) (v : Value) (r : Relation) :
    Command.filter base? (.comparison i r.toValue v) = .ok (single (name, relationBody v r)) := by
  simp only [Command.filter, hi, command_lift, ok_bind]
  cases r <;> rfl

theorem relation_kind (x : Operand) (r : Relation) :
    (relationBody x.toValue r).kind ≠ .dict ↔ r = .eq ∧ ∃ l, x = .literal l := by
  cases x with
  | column c => cases r <;> simp [relationBody, Operand.toValue, ColumnRef.toValue, doc, Value.kind]
  | literal l =>
    cases r <;> cases l <;>
      simp [relationBody, Operand.toValue, Literal.toValue, doc, Value.kind]

theorem relation_low (x : Operand) (r : Relation) :
    lowOf? (relationBody x.toValue r) = if r = .gt then some x.toValue else none := by
  cases x with
  | column c => cases r <;> rfl
  | literal l => cases r <;> cases l <;> rfl

theorem relation_high (x : Operand) (r : Relation) :
    highOf? (relationBody x.toValue r) = if r = .lt then some x.toValue else none := by
  cases x with
  | column c => cases r <;> rfl
  | literal l => cases r <;> cases l <;> rfl

/-- The filter of a comparison is one entry for its field. -/
theorem term_entry (base? : Option Value) {c : Condition} (ht : Term c)
    (hno : asksQuery c = false) : ∃ p, EntryOf base? c p ∧ Plain p.1 := by
  have hname (m n : String) : [m] = [n] ↔ m = n := by simp
  have hcompared {i : Value} {d : Condition} {name : String} {r : Relation} {x : Operand}
      (hi : Command.fieldOf base? i = .ok (.text name))
      (hd : d.toValue = .comparison i r.toValue x.toValue) (hn : testedNames base? d = [name])
      (hby : ∀ s, comparedBy? s d = if r = s then some x else none) :
      EntryOf base? d (name, relationBody x.toValue r) := by
    refine ⟨hd ▸ relation_filter hi _ r, fun n _ => hn ▸ hname name n, fun _ => ?_,
      fun l hl => ?_, ?_, ?_⟩
    · rw [relation_kind, hby]
      by_cases hr : r = .eq <;> simp [hr]
    · rw [hby] at hl
      split at hl
      · rename_i hr
        obtain rfl := Option.some.inj hl
        rw [hr]
        rfl
      · cases hl
    · rw [relation_low, hby]
      split <;> rfl
    · rw [relation_high, hby]
      split <;> rfl
  cases ht with
  | @compare c r x hc hx =>
    exact ⟨_, hcompared (field_of_ref base? c) (by rw [Condition.toValue]) rfl fun s => rfl,
      column_field_plain base? hc⟩
  | @aggregate a r l ha =>
    exact ⟨_, @hcompared _ _ _ r (.literal l) (field_of_aggregate base? a)
      (by rw [Condition.toValue]; rfl) rfl fun s => rfl, aggregate_name_plain a⟩
  | @between c low high hc =>
    refine ⟨(c, doc [("$gte", low.toValue), ("$lte", high.toValue)]), ?_, hc.plain⟩
    exact ⟨by rw [Condition.toValue]; rfl, fun n _ => hname c n,
      fun _ => (by simp [doc, Value.kind, comparedBy?]), fun l hl => (by cases hl), rfl, rfl⟩
  | @inList c l ls hc =>
    refine ⟨(columnField base? c, doc [("$in", .list ((l :: ls).map Literal.toValue))]), ?_,
      column_field_plain base? hc⟩
    refine ⟨?_, fun n _ => hname _ n, fun _ => (by simp [doc, Value.kind, comparedBy?]),
      fun l hl => (by cases hl), rfl, rfl⟩
    rw [Condition.toValue]
    simp only [Command.filter, field_of_ref, command_lift, ok_bind]
    rfl
  | inQuery hc => cases hno

theorem tested_names_some (base? : Option Value) {c : Condition} (hc : Comb c)
    (hno : asksQuery c = false) : testedNames base? c ≠ [] := by
  induction hc with
  | term ht =>
    cases ht with
    | inQuery => cases hno
    | _ => simp [testedNames]
  | connect _ _ _ ih =>
    simp only [asksQuery, Bool.or_eq_false_iff] at hno
    simp [testedNames, ih hno.1]

/-- A conjunction tests more than one field. -/
theorem both_entry {base? : Option Value} {l r : Condition} {w : String} {left : Value}
    {p : String × Value} (hl : Comb l) (hr : Term r)
    (hno : asksQuery (.connect l w r) = false)
    (hf : Command.filter base? (Condition.connect l w r).toValue =
      .ok (single (Connective.both.key, .list [left, single p]))) :
    EntryOf base? (.connect l w r) (Connective.both.key, .list [left, single p]) := by
  have hand : ¬ Plain "$and" := by decide
  refine ⟨hf, fun n hn => iff_of_false ?_ ?_, fun hplain => ?_, fun m hm => (by cases hm), rfl, rfl⟩
  · simp only [asksQuery, Bool.or_eq_false_iff] at hno
    have hleft := List.length_pos_iff.mpr (tested_names_some base? hl hno.1)
    have hright := List.length_pos_iff.mpr (tested_names_some base? (.term hr) hno.2)
    intro hone
    have hlength := congrArg List.length hone
    simp only [testedNames, List.length_append, List.length_singleton] at hlength
    omega
  · rintro rfl
    exact hand hn
  · exact absurd hplain hand

/-- The filter of a condition is flattened to the filters of its alternatives. -/
theorem choice_entries (base? : Option Value) {c : Condition} (hc : Comb c)
    (hno : asksQuery c = false) :
    ∃ f ps, Command.filter base? c.toValue = .ok f ∧
      List.Forall₂ (EntryOf base?) (choicesOf c) ps ∧
      ∀ xs rest, Command.flattenItems xs = .ok rest →
        Command.flattenItems (f :: xs) = .ok (ps.map single ++ rest) := by
  have hself : ∀ (p : String × Value) xs rest, p.1 ≠ "$or" → Command.flattenItems xs = .ok rest →
      Command.flattenItems (single p :: xs) = .ok ([p].map single ++ rest) := by
    intro p xs rest hp hrest
    simp [single, Command.flattenItems, Command.nested?, hp, hrest]
  induction hc with
  | @term c ht =>
    obtain ⟨p, hp, hplain⟩ := term_entry base? ht hno
    have hone : choicesOf c = [c] := by cases ht <;> rfl
    exact ⟨single p, [p], hp.filter, hone ▸ .cons hp .nil,
      fun xs rest => hself p xs rest (plain_not_or hplain)⟩
  | @connect l r w hl hw hr ih =>
    have hparts := hno
    simp only [asksQuery, Bool.or_eq_false_iff] at hparts
    obtain ⟨left, ps, hleft, hps, hflat⟩ := ih hparts.1
    obtain ⟨p, hp, hplain⟩ := term_entry base? hr hparts.2
    have hfilter {k : Connective} (hk : Command.connectiveOf (.text w) = .ok k.key) :
        Command.filter base? (Condition.connect l w r).toValue =
          .ok (single (k.key, .list [left, single p])) := by
      rw [Condition.toValue, Command.filter]
      simp only [hleft, hp.filter, hk, ok_bind]
      rfl
    rcases hw with hw | hw
    · have hf := hfilter (connective_of_word ⟨.both, w, keyword_spelled hw⟩)
      have hone : choicesOf (.connect l w r) = [.connect l w r] := by simp [choicesOf, hw]
      exact ⟨_, [_], hf, hone ▸ .cons (both_entry hl hr hno hf) .nil,
        fun xs rest => hself _ xs rest (by simp [Connective.key])⟩
    · have hf := hfilter (connective_of_word ⟨.either, w, keyword_spelled hw⟩)
      have hall : choicesOf (.connect l w r) = choicesOf l ++ [r] := by simp [choicesOf, hw]
      have hlast : Command.flattenItems [single p] = .ok [single p] :=
        hself p [] [] (plain_not_or hplain) rfl
      refine ⟨_, ps ++ [p], hf, hall ▸ List.rel_append hps (.cons hp .nil), fun xs rest hrest => ?_⟩
      have hnested : Command.flattenItems [left, single p] = .ok ((ps ++ [p]).map single) := by
        simpa using hflat [single p] [single p] hlast
      simp only [single, Command.flattenItems, Command.nested?, Connective.key, Command.flatten,
        same_text, BEq.rfl, ↓reduceIte]
      rw [show (Value.dict [(.text p.1, p.2)]) = single p from rfl, hnested, hrest]
      rfl

/-- A filter is simplified, and its members sorted. -/
def Simplifies (f : Value) : Prop :=
  ∃ g r, Command.simplifyFilter f = .ok g ∧ Command.sortMembers g = .ok r

theorem one_type_compares (ls : List Literal) :
    OneType (ls.map scalarOf) ↔ (ls.map Operand.literal).Pairwise Compares := by
  rw [List.pairwise_map]
  constructor
  · intro ho
    exact List.pairwise_of_forall_mem_list fun l hl m hm =>
      ho _ (List.mem_map_of_mem hl) _ (List.mem_map_of_mem hm)
  · intro hpairs v hv w hw
    obtain ⟨l, hl, rfl⟩ := List.mem_map.mp hv
    obtain ⟨m, hm, rfl⟩ := List.mem_map.mp hw
    have : Std.Symm fun l m => Compares (.literal l) (.literal m) := ⟨fun l m => Compares.symm⟩
    exact List.Pairwise.forall_of_forall (fun l _ => (rfl : (scalarOf l).isText = _)) hpairs hl hm

theorem sort_under_among (ms : List Scalar) :
    sortUnder (FieldTest.among ms).toValue =
      (Command.sortedMembers (.list (ms.map Scalar.toValue)) >>=
        fun vs => .ok (doc [("$in", vs)])) := rfl

/-- Members are sorted just if they are of one type. -/
theorem members_sort_iff {name : String} {ms : List Scalar} :
    Succeeds (Command.sortMembers (single (name, (FieldTest.among ms).toValue))) ↔
      OneType ms := by
  constructor
  · rintro ⟨r, hr⟩
    obtain ⟨p, rfl, -, hunder⟩ := sort_single_parts hr
    rw [sort_under_among, bind_ok] at hunder
    obtain ⟨vs, hvs, -⟩ := hunder
    obtain ⟨ws, hws, -, hmem⟩ := distinct_scalars ms
    simp only [Command.sortedMembers, Value.items, ok_bind, hws] at hvs
    cases hsorted : Value.sorted (ws.map Scalar.toValue) with
    | ok us => exact (sorted_one_type hsorted).subset fun w hw => (hmem w).mpr hw
    | error e =>
      rw [hsorted] at hvs
      cases hvs
  · intro ho
    obtain ⟨ns, hns, -⟩ := sort_among ho
    exact ⟨_, sort_single hns⟩

section Choices
variable {base? : Option Value} {cs : List Condition} {ps : List (String × Value)}

/-- The values of equalities are literals. -/
theorem equal_values (h : List.Forall₂ (EntryOf base?) cs ps)
    (hall : ∀ c ∈ cs, ∃ l, comparedBy? .eq c = some (.literal l)) :
    ∃ ls : List Literal, cs.filterMap (comparedBy? .eq) = ls.map .literal ∧
      ps.map (·.2) = (ls.map scalarOf).map Scalar.toValue := by
  induction h with
  | nil => exact ⟨[], rfl, rfl⟩
  | @cons c p cs ps hp _ ih =>
    obtain ⟨⟨l, hl⟩, hrest⟩ := List.forall_mem_cons.mp hall
    obtain ⟨ls, hls, hvalues⟩ := ih hrest
    refine ⟨l :: ls, ?_, ?_⟩
    · rw [List.filterMap_cons_some hl, hls, List.map_cons]
    · rw [List.map_cons, hvalues, hp.value l hl, literal_value]
      rfl

/-- The bounds that are found are those of the comparisons. -/
theorem found_values {value? : Value → Option Value} {r : Relation}
    (hone : ∀ c p, EntryOf base? c p → value? p.2 = (comparedBy? r c).map Operand.toValue)
    (h : List.Forall₂ (EntryOf base?) cs ps) :
    ps.filterMap (value? ·.2) = (cs.filterMap (comparedBy? r)).map Operand.toValue := by
  induction h with
  | nil => rfl
  | @cons c p _ _ hp _ ih =>
    rw [filter_map_cons, filter_map_cons, hone c p hp, ih, List.map_append]
    cases comparedBy? r c <;> rfl

/-- A comparison has one relation. -/
theorem compared_once {r s : Relation} {c : Condition} {x : Operand}
    (h : comparedBy? r c = some x) (hs : r ≠ s) : comparedBy? s c = none := by
  cases c with
  | compare _ t y =>
    simp only [comparedBy?] at h ⊢
    split at h
    · rename_i ht
      rw [if_neg (ht ▸ hs)]
    · cases h
  | aggregate _ t l =>
    simp only [comparedBy?] at h ⊢
    split at h
    · rename_i ht
      rw [if_neg (ht ▸ hs)]
    · cases h
  | _ => cases h

theorem EntryOf.only_high {c : Condition} {p : String × Value} (hp : EntryOf base? c p) :
    onlyHighOf? p.2 = (comparedBy? .lt c).map Operand.toValue := by
  unfold onlyHighOf?
  rw [hp.low, hp.high]
  cases hgt : comparedBy? .gt c with
  | none => rfl
  | some x =>
    rw [compared_once hgt (by decide)]
    rfl

/-- Alternatives test one field just if their entries have one name. -/
theorem one_field_iff (h : List.Forall₂ (EntryOf base?) cs ps) (hplain : ∃ p ∈ ps, Plain p.1) :
    (∃ name, ∀ c ∈ cs, testedNames base? c = [name]) ↔ ∃ n, Plain n ∧ ∀ p ∈ ps, p.1 = n := by
  have hnames {n : String} (hn : Plain n) :=
    all_related h (fun c p hp => hp.name n hn)
  constructor
  · rintro ⟨name, hall⟩
    obtain ⟨p, hp, hplain⟩ := hplain
    obtain ⟨c, hc, hcp⟩ := related_left h hp
    obtain rfl : name = p.1 := by
      have hname := (hcp.name p.1 hplain).mpr rfl
      simpa [hall c hc] using hname
    exact ⟨p.1, hplain, (hnames hplain).mp hall⟩
  · rintro ⟨n, hn, hall⟩
    exact ⟨n, (hnames hn).mpr hall⟩

theorem alternatives_equal {flat vs : List Value} {field : Value}
    (h : Command.equalities? .null flat = some (field, vs)) :
    Command.alternatives flat =
      (Command.distinct vs >>= fun ws => .ok (.dict [(field, doc [("$in", .list ws)])])) := by
  unfold Command.alternatives
  rw [h]
  rfl

theorem alternatives_low {flat lows highs : List Value} {field low : Value}
    (he : Command.equalities? .null flat = none)
    (h : Command.bounds? .null flat = some (field, low :: lows, highs)) :
    Command.alternatives flat =
      (Command.least low lows >>= fun v => .ok (.dict [(field, doc [("$gt", v)])])) := by
  unfold Command.alternatives
  rw [he, h]
  rfl

theorem alternatives_high {flat highs : List Value} {field high : Value}
    (he : Command.equalities? .null flat = none)
    (h : Command.bounds? .null flat = some (field, [], high :: highs)) :
    Command.alternatives flat =
      (Command.greatest high highs >>= fun v => .ok (.dict [(field, doc [("$lt", v)])])) := by
  unfold Command.alternatives
  rw [he, h]
  rfl

/-- The simplified form of alternatives is found, and its members sorted. -/
def AlternativesSimplify (ps : List (String × Value)) : Prop :=
  ∃ g r, Command.alternatives (ps.map single) = .ok g ∧ Command.sortMembers g = .ok r

/-- Equalities become a list of members, which can be sorted if they are of one type. -/
theorem equalities_simplify (h : List.Forall₂ (EntryOf base?) cs ps) {n : String}
    (he : Command.equalities? .null (ps.map single) = some (.text n, ps.map (·.2)))
    (hall : ∀ c ∈ cs, ∃ l, comparedBy? .eq c = some (.literal l)) :
    AlternativesSimplify ps ↔ (cs.filterMap (comparedBy? .eq)).Pairwise Compares := by
  obtain ⟨ls, hls, hvalues⟩ := equal_values h hall
  obtain ⟨ws, hws, -, hmem⟩ := distinct_scalars (ls.map scalarOf)
  have hform : Command.alternatives (ps.map single) =
      .ok (single (n, (FieldTest.among ws).toValue)) := by
    rw [alternatives_equal he, hvalues, hws]
    rfl
  rw [hls, ← one_type_compares]
  constructor
  · rintro ⟨g, r, hg, hr⟩
    obtain rfl := Except.ok.inj (hform.symm.trans hg)
    exact (members_sort_iff.mp ⟨r, hr⟩).subset fun w hw => (hmem w).mpr hw
  · intro ho
    have hsorts : Succeeds (Command.sortMembers (single (n, (FieldTest.among ws).toValue))) :=
      members_sort_iff.mpr (ho.subset fun w hw => (hmem w).mp hw)
    obtain ⟨r, hr⟩ := hsorts
    exact ⟨_, r, hform, hr⟩

/-- A bound that is found among operands is one of them, and there is nothing in it to sort. -/
theorem bound_simplify {found : Except Fault Value} {n op : String} {xs : List Operand}
    (hform : Command.alternatives (ps.map single) =
      (found >>= fun v => .ok (single (n, doc [(op, v)])))) (hn : n ≠ "$in") (hop : op ≠ "$in")
    (hmem : ∀ v, found = .ok v → v ∈ xs.map Operand.toValue) :
    AlternativesSimplify ps ↔ Succeeds found := by
  constructor
  · rintro ⟨g, r, hg, -⟩
    rw [hform, bind_ok] at hg
    obtain ⟨v, hv, -⟩ := hg
    exact ⟨v, hv⟩
  · rintro ⟨v, hv⟩
    obtain ⟨x, -, rfl⟩ := List.mem_map.mp (hmem v hv)
    have hbody : Memberless (doc [(op, x.toValue)]) :=
      doc_memberless (by simpa using hop) (by simpa using operand_memberless x)
    obtain ⟨r, hr⟩ := sortable_sorts (.test hn hbody)
    exact ⟨_, r, by rw [hform, hv]; rfl, hr.sorted⟩

/-- Bounds become the weakest one, if those that count can be compared. -/
theorem bounds_simplify (h : List.Forall₂ (EntryOf base?) cs ps) {n : String} (hn : n ≠ "$in")
    (hne : cs ≠ []) (he : Command.equalities? .null (ps.map single) = none)
    (hb : Command.bounds? .null (ps.map single) =
      some (.text n, ps.filterMap (lowOf? ·.2), ps.filterMap (onlyHighOf? ·.2)))
    (hall : ∀ c ∈ cs, (comparedBy? .gt c).isSome ∨ (comparedBy? .lt c).isSome) :
    AlternativesSimplify ps ↔ (decidingBounds cs).Pairwise Compares := by
  rw [found_values (fun c p hp => hp.low) h, found_values (fun c p hp => hp.only_high) h] at hb
  unfold decidingBounds
  cases hlows : cs.filterMap (comparedBy? .gt) with
  | cons x xs =>
    rw [hlows] at hb
    have hmem : ∀ v, Command.least x.toValue (xs.map Operand.toValue) = .ok v →
        v ∈ (x :: xs).map Operand.toValue := fun v hv => least_extreme.mem hv
    rw [bound_simplify (alternatives_low he hb) hn (by decide) hmem, least_compares]
  | nil =>
    rw [hlows] at hb
    cases hhighs : cs.filterMap (comparedBy? .lt) with
    | cons x xs =>
      rw [hhighs] at hb
      have hmem : ∀ v, Command.greatest x.toValue (xs.map Operand.toValue) = .ok v →
          v ∈ (x :: xs).map Operand.toValue := fun v hv => greatest_extreme.mem hv
      rw [bound_simplify (alternatives_high he hb) hn (by decide) hmem, greatest_compares]
    | nil =>
      obtain ⟨c, hc⟩ := List.exists_mem_of_ne_nil cs hne
      have hbound := hall c hc
      rw [List.filterMap_eq_nil_iff.mp hlows c hc, List.filterMap_eq_nil_iff.mp hhighs c hc]
        at hbound
      simp at hbound

/-- Alternatives that are kept as they are have lists that can be sorted. -/
theorem kept_simplify (he : Command.equalities? .null (ps.map single) = none)
    (hb : Command.bounds? .null (ps.map single) = none)
    (hsort : ∀ p ∈ ps, Sortable (single p)) : AlternativesSimplify ps := by
  have hkept : Sortable (single ("$or", .list (ps.map single))) :=
    .connect (by decide) (List.forall_mem_map.mpr hsort)
  obtain ⟨r, hr⟩ := sortable_sorts hkept
  exact ⟨_, r, alternatives_stay he hb, hr.sorted⟩

theorem related_where {α β : Type} {R : α → β → Prop} {Q : β → Prop} {xs : List α} {ys : List β}
    (h : List.Forall₂ R xs ys) (hQ : ∀ y ∈ ys, Q y) :
    List.Forall₂ (fun x y => R x y ∧ Q y) xs ys := by
  induction h with
  | nil => exact .nil
  | cons hxy _ ih =>
    obtain ⟨hy, hrest⟩ := List.forall_mem_cons.mp hQ
    exact .cons ⟨hxy, hy⟩ (ih hrest)

/-- Alternatives on one field are simplified just if their values do not clash. -/
theorem field_choices_simplify (h : List.Forall₂ (EntryOf base?) cs ps) {n : String}
    (hn : Plain n) (hne : cs ≠ []) (hfield : ∀ p ∈ ps, p.1 = n)
    (hsort : ∀ p ∈ ps, Sortable (single p)) : AlternativesSimplify ps ↔ ¬ Clash base? cs := by
  have hsome : ps ≠ [] := by
    rintro rfl
    cases h
    exact hne rfl
  have hnames : ∃ name, ∀ c ∈ cs, testedNames base? c = [name] :=
    ⟨n, (all_related h fun c p hp => hp.name n hn).mpr hfield⟩
  have hequal : (∀ c ∈ cs, ∃ l, comparedBy? .eq c = some (.literal l)) ↔
      ∀ p ∈ ps, p.2.kind ≠ .dict :=
    all_related (related_where h fun p hp => (hfield p hp).symm ▸ hn) fun c p hp =>
      (hp.1.equal hp.2).symm
  have hbound : (∀ c ∈ cs, (comparedBy? .gt c).isSome ∨ (comparedBy? .lt c).isSome) ↔
      ∀ p ∈ ps, (lowOf? p.2).isSome ∨ (highOf? p.2).isSome :=
    all_related h fun c p hp => by rw [hp.low, hp.high, Option.isSome_map, Option.isSome_map]
  by_cases hE : ∀ c ∈ cs, ∃ l, comparedBy? .eq c = some (.literal l)
  · have hfound := (equalities_iff hsome).mpr
      ⟨n, fun p hp => ⟨hfield p hp, hequal.mp hE p hp⟩, rfl⟩
    rw [equalities_simplify h hfound hE]
    refine ⟨fun hpairs hclash => ?_, fun hno => ?_⟩
    · rcases hclash.values with hvalues | hvalues
      · exact hvalues.2 hpairs
      · obtain ⟨c, hc⟩ := List.exists_mem_of_ne_nil cs hne
        obtain ⟨l, hl⟩ := hE c hc
        have hsome := hvalues.1 c hc
        rw [compared_once hl (by decide), compared_once hl (by decide)] at hsome
        simp at hsome
    · by_contra hpairs
      exact hno ⟨hnames, .inl ⟨hE, hpairs⟩⟩
  · have hnone : Command.equalities? .null (ps.map single) = none := by
      rw [Option.eq_none_iff_forall_ne_some]
      intro r hr
      obtain ⟨_, hall, -⟩ := (equalities_iff hsome).mp hr
      exact hE (hequal.mpr fun p hp => (hall p hp).2)
    by_cases hB : ∀ c ∈ cs, (comparedBy? .gt c).isSome ∨ (comparedBy? .lt c).isSome
    · have hfound := (bounds_iff hsome).mpr
        ⟨n, fun p hp => ⟨hfield p hp, hbound.mp hB p hp⟩, rfl⟩
      rw [bounds_simplify h (plain_not_in hn) hne hnone hfound hB]
      refine ⟨fun hpairs hclash => ?_, fun hno => ?_⟩
      · rcases hclash.values with hvalues | hvalues
        · exact hE hvalues.1
        · exact hvalues.2 hpairs
      · by_contra hpairs
        exact hno ⟨hnames, .inr ⟨hB, hpairs⟩⟩
    · have hnone' : Command.bounds? .null (ps.map single) = none := by
        rw [Option.eq_none_iff_forall_ne_some]
        intro r hr
        obtain ⟨_, hall, -⟩ := (bounds_iff hsome).mp hr
        exact hB (hbound.mpr fun p hp => (hall p hp).2)
      refine iff_of_true (kept_simplify hnone hnone' hsort) fun hclash => ?_
      rcases hclash.values with hvalues | hvalues
      · exact hE hvalues.1
      · exact hB hvalues.1

/-- Alternatives are simplified just if they do not clash. -/
theorem choices_simplify (h : List.Forall₂ (EntryOf base?) cs ps) (hplain : ∃ p ∈ ps, Plain p.1)
    (hsort : ∀ p ∈ ps, Sortable (single p)) : AlternativesSimplify ps ↔ ¬ Clash base? cs := by
  have hfields := one_field_iff h hplain
  obtain ⟨q, hq, hqplain⟩ := hplain
  have hsome : ps ≠ [] := List.ne_nil_of_mem hq
  by_cases hfield : ∀ p ∈ ps, p.1 = q.1
  · have hne : cs ≠ [] := by
      obtain ⟨c, hc, -⟩ := related_left h hq
      exact List.ne_nil_of_mem hc
    exact field_choices_simplify h hqplain hne hfield hsort
  · have hother : ∀ n, ¬ ∀ p ∈ ps, p.1 = n := fun n hall =>
      hfield fun p hp => (hall p hp).trans (hall q hq).symm
    have hnone : Command.equalities? .null (ps.map single) = none := by
      rw [Option.eq_none_iff_forall_ne_some]
      intro r hr
      obtain ⟨n, hall, -⟩ := (equalities_iff hsome).mp hr
      exact hother n fun p hp => (hall p hp).1
    have hnone' : Command.bounds? .null (ps.map single) = none := by
      rw [Option.eq_none_iff_forall_ne_some]
      intro r hr
      obtain ⟨n, hall, -⟩ := (bounds_iff hsome).mp hr
      exact hother n fun p hp => (hall p hp).1
    refine iff_of_true (kept_simplify hnone hnone' hsort) fun hclash => ?_
    obtain ⟨n, -, hall⟩ := hfields.mp hclash.field
    exact hother n hall

end Choices

/-- The tests of a field of which the members, if there are any, can be sorted. -/
def SortableTests (es : Entries) : Prop :=
  ∀ e ∈ es, (∃ ms, OneType ms ∧ e = (.text "$in", .list (ms.map Scalar.toValue))) ∨
    ((∃ k, e.1 = .text k ∧ k ≠ "$in") ∧ Memberless e.2)

theorem sortable_tests {name : String} {es : Entries}
    (h : Sortable (single (name, .dict es))) : SortableTests es := by
  generalize hf : single (name, .dict es) = f at h
  cases h with
  | empty => cases hf
  | members hname ho =>
    cases hf
    intro e he
    exact .inl ⟨_, ho, List.mem_singleton.mp he⟩
  | test hname hv =>
    cases hf
    cases hv with
    | atom _ hdict => exact absurd rfl hdict
    | dict hkeys hvalues => exact fun e he => .inr ⟨hkeys e he, hvalues e he⟩
  | connect => cases hf

theorem update_tests {es fs : Entries} (hes : SortableTests es) (hfs : SortableTests fs) :
    SortableTests (Command.update es fs) := by
  induction fs generalizing es with
  | nil => exact hes
  | cons f fs ih =>
    obtain ⟨hf, hrest⟩ := List.forall_mem_cons.mp hfs
    obtain ⟨k, hk⟩ : ∃ k, f.1 = .text k := by
      rcases hf with ⟨ms, -, rfl⟩ | ⟨⟨k, hk, -⟩, -⟩
      · exact ⟨"$in", rfl⟩
      · exact ⟨k, hk⟩
    refine ih (fun e (he : e ∈ Entries.put es f.1 f.2) => ?_) hrest
    rw [hk] at he
    rcases put_mem he with he | rfl
    · exact hes e he
    · rw [← hk]
      exact hf

theorem tests_sort {es : Entries} (h : SortableTests es) : Succeeds (sortUnder (.dict es)) := by
  cases hin : Command.isMembership (.dict es) with
  | true =>
    have hhas := hin
    rw [Command.isMembership, has_eq_get] at hhas
    obtain ⟨v, hget⟩ := Option.isSome_iff_exists.mp hhas
    obtain ⟨ms, ho, rfl⟩ : ∃ ms, OneType ms ∧ v = .list (ms.map Scalar.toValue) := by
      rcases h _ (get_entry hget) with ⟨ms, ho, he⟩ | ⟨⟨k, hk, hne⟩, -⟩
      · exact ⟨ms, ho, congrArg Prod.snd he⟩
      · exact absurd (Value.text.inj hk).symm hne
    have hfield : Entries.field es "$in" = .list (ms.map Scalar.toValue) := by
      rw [Entries.field, hget]
      rfl
    obtain ⟨ns, hns, -⟩ := sorted_members ho
    rw [sortUnder, hin, if_pos rfl]
    simp [Command.sortTests, hfield, hns, Succeeds]
  | false =>
    have hkeys : ∀ e ∈ es, (∃ k, e.1 = .text k ∧ k ≠ "$in") ∧ Memberless e.2 := by
      intro e he
      refine (h e he).resolve_left ?_
      rintro ⟨ms, -, rfl⟩
      rw [Command.isMembership, Entries.has, List.any_eq_false] at hin
      exact hin _ he rfl
    have hless : Memberless (.dict es) :=
      .dict (fun e he => (hkeys e he).1) fun e he => (hkeys e he).2
    rw [sortUnder, hin, if_neg (by simp)]
    exact ⟨_, (memberless_sorts hless).sorted⟩

theorem entries_sort {es : Entries} (h : ∀ e ∈ es, Succeeds (sortUnder e.2)) :
    Succeeds (Command.sortMembers (.dict es)) := by
  have hentries : Succeeds (Command.sortMemberEntries es) := by
    induction es with
    | nil => exact ⟨[], rfl⟩
    | cons e es ih =>
      obtain ⟨⟨w, hw⟩, hrest⟩ := List.forall_mem_cons.mp h
      obtain ⟨fs, hfs⟩ := ih hrest
      exact ⟨_, sort_entries_cons hw hfs⟩
  obtain ⟨fs, hfs⟩ := hentries
  exact ⟨.dict fs, by simp [Command.sortMembers, hfs]⟩

theorem sortable_under {p : String × Value} (h : Sortable (single p)) :
    Succeeds (sortUnder p.2) := by
  obtain ⟨g, hg⟩ := sortable_sorts h
  obtain ⟨p', -, -, hunder⟩ := sort_single_parts hg.sorted
  exact ⟨_, hunder⟩

/-- The members in two merged filters can be sorted. -/
theorem merged_sorts {p p' : String × Value} (hp : Sortable (single p))
    (hp' : Sortable (single p')) : Succeeds (Command.sortMembers
      (.dict (Command.mergeEntry [(.text p.1, p.2)] (.text p'.1) p'.2))) := by
  obtain ⟨k, v⟩ := p
  obtain ⟨k', v'⟩ := p'
  have hone : ∀ e ∈ [(Value.text k, v)], Succeeds (sortUnder e.2) := by
    simpa using sortable_under hp
  have hput {w : Value} (hw : Succeeds (sortUnder w)) :
      ∀ e ∈ Entries.put [(Value.text k, v)] (.text k') w, Succeeds (sortUnder e.2) := by
    intro e he
    rcases put_mem he with he | rfl
    · exact hone e he
    · exact hw
  apply entries_sort
  unfold Command.mergeEntry
  by_cases hk : k = k'
  · subst hk
    have hget : Entries.get? [(Value.text k, v)] (.text k) = some v := by simp [Entries.get?]
    rw [hget]
    cases v with
    | dict old =>
      cases v' with
      | dict new => exact hput (tests_sort (update_tests (sortable_tests hp) (sortable_tests hp')))
      | _ => exact hone
    | _ => exact hone
  · have hget : Entries.get? [(Value.text k, v)] (.text k') = none := by simp [Entries.get?, hk]
    rw [hget]
    exact hput (sortable_under hp')

/-- One alternative clashes with nothing. -/
theorem one_no_clash (base? : Option Value) (c : Condition) : ¬ Clash base? [c] := by
  have hpair (r : Relation) : ([c].filterMap (comparedBy? r)).Pairwise Compares := by
    cases h : comparedBy? r c <;> simp [h]
  rintro ⟨-, ⟨-, hpairs⟩ | ⟨-, hpairs⟩⟩
  · exact hpairs (hpair .eq)
  · apply hpairs
    unfold decidingBounds
    split
    · exact hpair .lt
    · rename_i low lows hlows
      rw [← hlows]
      exact hpair .gt

theorem either_simplified {xs rest : List Value}
    (h : Command.flattenItems [single (Connective.either.key, .list xs)] = .ok rest) :
    Command.simplifyFilter (single (Connective.either.key, .list xs)) =
      Command.alternatives rest := by
  have hflat : Command.flattenItems [single (Connective.either.key, .list xs)] =
      (do return (← Command.flattenItems xs) ++ []) := rfl
  have hform : Command.simplifyFilter (single (Connective.either.key, .list xs)) =
      Command.flattenItems xs >>= Command.alternatives := rfl
  rw [hflat] at h
  rw [hform]
  cases hxs : Command.flattenItems xs with
  | error e =>
    rw [hxs] at h
    cases h
  | ok ys =>
    rw [hxs, ok_bind, pure_ok, List.append_nil] at h
    rw [Except.ok.inj h]
    rfl

theorem choices_kept {c : Condition} (hc : Comb c) (hagree : AgreeingLists c) :
    ∀ d ∈ choicesOf c, Comb d ∧ AgreeingLists d := by
  induction hc with
  | @term c ht =>
    have hone : choicesOf c = [c] := by cases ht <;> rfl
    simpa [hone] using ⟨CombOf.term ht, hagree⟩
  | @connect l r w hl hw hr ih =>
    intro d hd
    rw [choicesOf] at hd
    split at hd
    · rcases List.mem_append.mp hd with hd | hd
      · exact ih (fun r l ls hm => hagree r l ls (List.mem_append_left _ hm)) d hd
      · obtain rfl := List.mem_singleton.mp hd
        exact ⟨.term hr, fun r l ls hm => hagree r l ls (List.mem_append_right _ hm)⟩
    · obtain rfl := List.mem_singleton.mp hd
      exact ⟨.connect hl hw hr, hagree⟩

theorem comb_single {base? : Option Value} {c : Condition} {f : Value} (hc : Comb c)
    (hno : asksQuery c = false) (hf : Command.filter base? c.toValue = .ok f) :
    ∃ p, f = single p := by
  cases hc with
  | term ht =>
    obtain ⟨p, hp, -⟩ := term_entry base? ht hno
    exact ⟨p, Except.ok.inj (hf.symm.trans hp.filter)⟩
  | connect _ hw hr =>
    obtain ⟨k, left, p, -, -, rfl, -⟩ := filter_connected hr hw hf
    exact ⟨_, rfl⟩

theorem right_filter {base? : Option Value} {l r : Condition} {w : String} {k : Connective}
    {left right : Value} (h : Command.filter base? (Condition.connect l w r).toValue =
      .ok (single (k.key, .list [left, right]))) : Command.filter base? r.toValue = .ok right := by
  rw [Condition.toValue, Command.filter] at h
  simp only [bind_ok] at h
  obtain ⟨left', -, right', hright, key, -, hx⟩ := h
  cases hx
  exact hright

theorem single_inj {p q : String × Value} (h : single p = single q) : p = q := by
  obtain ⟨k, v⟩ := p
  obtain ⟨l, w⟩ := q
  cases h
  rfl

/-- The filter of a condition is simplified just if its alternatives do not clash. -/
theorem condition_simplifies {base? : Option Value} {c : Condition} {f : Value} (hc : Comb c)
    (hno : asksQuery c = false) (hagree : AgreeingLists c)
    (hf : Command.filter base? c.toValue = .ok f) :
    Simplifies f ↔ ¬ Clash base? (choicesOf c) := by
  have hsort := comb_sortable hc hagree hf
  cases hc with
  | term ht =>
    obtain ⟨p, hp, hplain⟩ := term_entry base? ht hno
    obtain rfl := Except.ok.inj (hf.symm.trans hp.filter)
    have hone : choicesOf c = [c] := by cases ht <;> rfl
    obtain ⟨g, hg⟩ := sortable_sorts hsort
    have hkept : Command.simplifyFilter (single p) = .ok (single p) :=
      field_keys_kept (by simpa [FieldKeys] using hplain)
    exact iff_of_true ⟨_, g, hkept, hg.sorted⟩ (hone ▸ one_no_clash base? c)
  | @connect l r w hl hw hr =>
    have hparts := hno
    simp only [asksQuery, Bool.or_eq_false_iff] at hparts
    obtain ⟨k, left, p, hleft, -, rfl, hk⟩ := filter_connected hr hw hf
    cases k with
    | both =>
      have hone : choicesOf (.connect l w r) = [.connect l w r] := by
        simp [choicesOf, hk.mp rfl]
      obtain ⟨p', rfl⟩ := comb_single hl hparts.1 hleft
      have hleft := comb_sortable hl
        (fun r l ls hm => hagree r l ls (List.mem_append_left _ hm)) hleft
      have hright := comb_sortable (.term hr)
        (fun r l ls hm => hagree r l ls (List.mem_append_right _ hm)) (right_filter hf)
      obtain ⟨g, hg⟩ := merged_sorts hleft hright
      exact iff_of_true ⟨_, g, both_merged p' p, hg⟩ (hone ▸ one_no_clash base? _)
    | either =>
      have hor : Keyword.ofWord? w.toList = some .orWord :=
        hw.resolve_left fun hand => Connective.noConfusion (hk.mpr hand)
      have hall : choicesOf (.connect l w r) = choicesOf l ++ [r] := by simp [choicesOf, hor]
      obtain ⟨f, ps, hf', hps, hflat⟩ := choice_entries base? (.connect hl hw hr) hno
      obtain rfl := Except.ok.inj (hf.symm.trans hf')
      have hflat := hflat [] [] rfl
      rw [List.append_nil] at hflat
      rw [Simplifies, either_simplified hflat]
      refine choices_simplify hps ?_ fun q hq => ?_
      · -- the last alternative is a comparison
        obtain ⟨q, hq, hentry⟩ := related_left hps.flip (y := r) (by simp [hall])
        obtain ⟨q', hq', hplain⟩ := term_entry base? hr hparts.2
        have hsame := Except.ok.inj (hentry.filter.symm.trans hq'.filter)
        refine ⟨q, hq, ?_⟩
        rwa [single_inj hsame]
      · obtain ⟨d, hd, hentry⟩ := related_left hps hq
        obtain ⟨hcomb, hlists⟩ := choices_kept (.connect hl hw hr) hagree d hd
        exact comb_sortable hcomb hlists hentry.filter

/-- A search whose filter has the form of conditions is simplified just if its filter is. -/
theorem find_simplifies {parts : FindParts} {string : String} (h : parts.Shown)
    (hshape : ConditionFilter (fun _ => True) parts.filter) :
    Succeeds (Command.simplify (parts.toValue string)) ↔ Simplifies parts.filter := by
  constructor
  · rintro ⟨command, hc⟩
    obtain ⟨g, r, -, hg, hr, -⟩ := simplified_find hc
    exact ⟨g, r, hg, hr⟩
  · rintro ⟨g, r, hg, hr⟩
    have hvalue := sort_filter_shape (simplify_filter_shape hshape hg) hr
    have htext : Succeeds (Command.shellText r) := by
      rcases filter_cases hvalue with rfl | hprintable
      · exact ⟨_, rfl⟩
      · obtain ⟨text, htext, -⟩ := printed_pieces hprintable
        exact ⟨text, htext⟩
    obtain ⟨string', hsimple⟩ := simplify_find string h hg hr htext
    exact ⟨_, hsimple⟩

/-- A statement that searches a table by alternatives that clash. -/
def Unsimplifiable (q : Query) : Prop :=
  searchesTable q = true ∧
    ∃ c, q.condition? = some c ∧ Clash (some (sourceTable q.source)) (choicesOf c)

theorem searched_command {q : Query} {command : Value} (hsearch : searchesTable q = true)
    (h : Command.translate q.toValue = .ok command) :
    ∃ a, q.source = .table a ∧ q.condition?.any asksQuery = false ∧
      Command.findCommand (some (.text a)) (partsOf q) = .ok command := by
  unfold searchesTable at hsearch
  split at hsearch
  · rename_i a hsource
    rw [Bool.and_eq_true, Bool.not_eq_true', Bool.not_eq_true'] at hsearch
    rw [translate_of, hsearch.1, hsource, hsearch.2] at h
    exact ⟨a, hsource, hsearch.1, h⟩
  · cases hsearch

/-- A pipeline is simplified to a pipeline. -/
theorem translated_pipeline {q : Query} {string : String} {collection : Value}
    {stages : List Value}
    (h : Command.translate q.toValue = .ok (pipelineDocument string collection stages)) :
    ∃ string' stages', Command.simplify (pipelineDocument string collection stages) =
      .ok (pipelineDocument string' collection stages') := by
  obtain ⟨_, _, _, hsame, hname, hshown, hstages, -⟩ := statement_stages h (by rfl)
  cases hsame
  obtain ⟨string', hsimple⟩ := simplify_pipeline string hstages hname hshown
  exact ⟨string', _, hsimple⟩

/-- The command of a statement is simplified unless its alternatives clash. -/
theorem statement_simplifies {schema command : Value} {q : Query}
    (hs : Schema.check schema = .ok ()) (hnamed : Named q) (haccepts : Accepts schema q)
    (h : Command.translate q.toValue = .ok command) :
    Succeeds (Command.simplify command) ↔ ¬ Unsimplifiable q := by
  rcases translated h with ⟨hsearch, string, collection, stages, rfl⟩ | ⟨hsearch, -⟩
  · obtain ⟨string', stages', hsimple⟩ := translated_pipeline h
    refine iff_of_true ⟨_, hsimple⟩ fun hun => ?_
    rw [hun.1] at hsearch
    cases hsearch
  · obtain ⟨a, hsource, hno, hfind⟩ := searched_command hsearch h
    obtain ⟨parts, string, rfl, hshown, hfilter, -⟩ := find_command_parts hfind
    have hcondition : (partsOf q).condition = optionalCondition q.condition? := rfl
    rw [hcondition] at hfilter
    cases hw : q.condition? with
    | none =>
      rw [hw] at hfilter
      have hempty : parts.filter = .dict [] := (Except.ok.inj hfilter).symm
      have hkept : Command.simplifyFilter parts.filter = .ok (.dict []) := by
        rw [hempty]
        rfl
      obtain ⟨string', hsimple⟩ := simplify_find string hshown hkept rfl ⟨_, rfl⟩
      refine iff_of_true ⟨_, hsimple⟩ ?_
      rintro ⟨-, c, hc, -⟩
      rw [hw] at hc
      cases hc
    | some c =>
      rw [hw] at hno
      rw [hw, optionalCondition, filter_of_present] at hfilter
      have hcomb := hnamed.condition c hw
      have hverdict := haccepts.condition
      rw [hw] at hverdict
      have hagree := accepted_agree hs c hverdict
      have hshape := condition_shape hcomb (fun _ _ => trivial) (fun _ _ => trivial) hfilter
      rw [find_simplifies hshown hshape, condition_simplifies hcomb hno hagree hfilter]
      simp [Unsimplifiable, hsearch, hw, hsource, sourceTable]

theorem text_append (a b : Report) : (a ++ b).text = a.text ++ b.text := rfl

theorem calls_append (a b : Report) : (a ++ b).calls = a.calls ++ b.calls := rfl

/-- A command is run with its statement. -/
theorem run_calls {command : Value} {calls : List Call} (db : Database) (sql : String)
    (h : Call.ofCommand command = .ok calls) :
    (Menu.runOrFail db sql command).calls = calls ++ [.query sql] := by
  have hget := h
  simp only [Call.ofCommand, bind_ok] at hget
  obtain ⟨es, hes, -⟩ := hget
  rw [Menu.runOrFail, Menu.runCommand]
  simp [hes, h, calls_append, Menu.printLine, Report.print, Report.call]

theorem find_calls {parts : FindParts} {string : String}
    (hsort : ∀ keys, parts.sort? = some keys → keys.kind = .dict) :
    Succeeds (Call.ofCommand (parts.toValue string)) := by
  have hsorts : Succeeds (Call.sortOf (parts.entries string)) := by
    rw [Call.sortOf, FindParts.get_sort]
    cases hkeys : parts.sort? with
    | none => exact ⟨[], rfl⟩
    | some keys =>
      have hdict := hsort keys hkeys
      cases keys with
      | dict es => exact ⟨_, rfl⟩
      | _ => cases hdict
  obtain ⟨sorts, hsorts⟩ := hsorts
  exact ⟨_, calls_of_find hsorts⟩

/-- A command can be run, and so can its simplified form. -/
theorem statement_calls {q : Query} {command : Value}
    (h : Command.translate q.toValue = .ok command) :
    Succeeds (Call.ofCommand command) ∧
      ∀ simple, Command.simplify command = .ok simple → Succeeds (Call.ofCommand simple) := by
  rcases translated h with ⟨hsearch, string, collection, stages, rfl⟩ | ⟨hsearch, -⟩
  · obtain ⟨string', stages', hsimple⟩ := translated_pipeline h
    refine ⟨⟨_, rfl⟩, fun simple hs => ?_⟩
    rw [hsimple] at hs
    cases hs
    exact ⟨_, rfl⟩
  · obtain ⟨a, hsource, hno, hfind⟩ := searched_command hsearch h
    obtain ⟨parts, string, rfl, -, -, hsort, -⟩ := find_command_parts hfind
    have hkeys : ∀ keys, parts.sort? = some keys → keys.kind = .dict := by
      intro keys hkeys
      have horder := (sort_of_order q.orderBy).symm.trans hsort
      rw [hkeys] at horder
      split at horder
      · cases horder
      · cases horder
        rfl
    refine ⟨find_calls hkeys, fun simple hs => ?_⟩
    obtain ⟨g, r, text, -, -, -, rfl⟩ := simplified_find hs
    exact find_calls hkeys

/-- A command cannot be simplified just if its statement searches a table by alternatives on one
field with values that cannot be compared. The failure is then reported, and neither the command
nor its statement is run, though both are run without the simplification. -/
theorem failed_simplification_runs_nothing {schema command : Value} {sql : String} {q : Query}
    (db : Database) (hs : Schema.check schema = .ok ()) (hparse : Sql.parse sql 1 = .ok q)
    (h : Pipeline.command schema sql 1 = .ok command) :
    ((∃ fault, Command.simplify command = .error fault) ↔ Unsimplifiable q) ∧
    ((Menu.executeSimplified db schema sql).calls = [] ↔ Unsimplifiable q) ∧
    (∃ calls, Call.ofCommand command = .ok calls ∧
      (Menu.execute db schema sql).calls = calls ++ [.query sql]) ∧
    ∀ fault, Command.simplify command = .error fault →
      (Menu.executeSimplified db schema sql).text =
        Menu.line s!"\n[Execution + Optimization Mode] Processing: {sql}" ++
          (Menu.generated command).text ++
          Menu.line s!"⚠️ Optimization failed: {fault.message}" ++
          Menu.line "Error: name 'mongo_query' is not defined" := by
  obtain ⟨q', hparse', hcheck, htranslate⟩ := command_stages h
  obtain rfl := Except.ok.inj (hparse.symm.trans hparse')
  have hsimplifies := statement_simplifies hs (parse_named hparse)
    (verdict_ok.mp (accepted_iff.mp hcheck)) htranslate
  obtain ⟨⟨calls, hcalls⟩, hsimple⟩ := statement_calls htranslate
  have hruns : (Menu.execute db schema sql).calls = calls ++ [.query sql] := by
    simp [Menu.execute, h, calls_append, run_calls db sql hcalls, Menu.printLine, Menu.generated,
      Report.print]
  cases hc : Command.simplify command with
  | ok simple =>
    obtain ⟨more, hmore⟩ := hsimple simple hc
    have hun := hsimplifies.mp ⟨simple, hc⟩
    have hsome : (Menu.executeSimplified db schema sql).calls ≠ [] := by
      simp [Menu.executeSimplified, h, hc, calls_append, run_calls db sql hmore]
    exact ⟨iff_of_false (by simp) hun, iff_of_false hsome hun, ⟨calls, hcalls, hruns⟩,
      fun fault hf => (by cases hf)⟩
  | error fault =>
    have hun : Unsimplifiable q := by
      by_contra hno
      obtain ⟨simple, hok⟩ := hsimplifies.mpr hno
      rw [hc] at hok
      cases hok
    have hnone : (Menu.executeSimplified db schema sql).calls = [] := by
      simp [Menu.executeSimplified, h, hc, calls_append, Menu.printLine, Menu.generated,
        Report.print]
    refine ⟨iff_of_true ⟨fault, rfl⟩ hun, iff_of_true hnone hun, ⟨calls, hcalls, hruns⟩, ?_⟩
    intro fault' hf
    cases hf
    simp [Menu.executeSimplified, h, hc, text_append, Menu.printLine, Report.print,
      String.append_assoc]

/-- `COUNT(*) = 1 OR COUNT(*) = 'a'`. -/
def countsCondition : Condition :=
  .connect (.aggregate .countAll .eq (.number 1)) "OR" (.aggregate .countAll .eq (.text "a"))

def countsText : String := "SELECT * FROM users WHERE COUNT(*) = 1 OR COUNT(*) = 'a';"

def countsFilter : Value :=
  doc [("$or", .list [doc [("count", .int 1)], doc [("count", .text "a")]])]

def countsCommand : Value :=
  usersCommand countsFilter
    "db.users.find(\x7b $or: [ \x7b count: 1 \x7d, \x7b count: \"a\" \x7d ] \x7d)"

theorem counts_parsed : Sql.parse countsText 1 = .ok (usersWhere countsCondition) :=
  parse_spelled ⟨rfl, rfl⟩ rfl

theorem counts_translated : Pipeline.command shopSchema countsText 1 = .ok countsCommand :=
  command_accepted counts_parsed rfl rfl

theorem counts_fault : Command.simplify countsCommand = .error (.notLess .text .int) := rfl

theorem failed_simplification_counts :
    Schema.check shopSchema = .ok () ∧
      Sql.parse countsText 1 = .ok (usersWhere countsCondition) ∧
      Pipeline.command shopSchema countsText 1 = .ok countsCommand ∧
      Command.simplify countsCommand = .error (.notLess .text .int) ∧
      Unsimplifiable (usersWhere countsCondition) ∧
      (Menu.executeSimplified ⟨[], []⟩ shopSchema countsText).calls = [] := by
  obtain ⟨hfails, hruns, -⟩ :=
    failed_simplification_runs_nothing ⟨[], []⟩ rfl counts_parsed counts_translated
  have hun := hfails.mp ⟨_, counts_fault⟩
  exact ⟨rfl, counts_parsed, counts_translated, counts_fault, hun, hruns.mpr hun⟩

/-- The calls of a statement whose command cannot be simplified are not those that are made without
the simplification. -/
theorem failed_simplification_not_as_executed :
    ¬ ∀ (db : Database) (schema command : Value) (sql : String) (fault : Fault),
      Schema.check schema = .ok () → Pipeline.command schema sql 1 = .ok command →
      Command.simplify command = .error fault →
      (Menu.executeSimplified db schema sql).calls = (Menu.execute db schema sql).calls := by
  intro hall
  have hcalls : Call.ofCommand countsCommand =
      .ok [.find (.text "users") countsFilter .null] := rfl
  have hsame := hall ⟨[], []⟩ shopSchema countsCommand countsText _ rfl counts_translated
    counts_fault
  simp [Menu.executeSimplified, Menu.execute, counts_translated, counts_fault, calls_append,
    run_calls _ countsText hcalls, Menu.printLine, Menu.generated, Report.print] at hsame

end DocQuery.Proofs
