import DocQuery.Proofs.Comparisons
import DocQuery.Proofs.OneField
import DocQuery.Proofs.Rendering
import Mathlib.Data.Set.List

namespace DocQuery.Proofs

open Value (doc)

mutual
/-- The alternatives of a filter, those of nested filters in their place. -/
def alternativesOf : Value → List Value
  | .dict [(.text key, .list cs)] =>
    if key = "$or" then alternativesIn cs else [.dict [(.text key, .list cs)]]
  | v => [v]

def alternativesIn : List Value → List Value
  | [] => []
  | c :: cs => alternativesOf c ++ alternativesIn cs
end

namespace Selector

def alternatives : Selector → List Selector
  | either l r => l.alternatives ++ r.alternatives
  | s => [s]

end Selector

theorem alternatives_of_test (name : String) (t : FieldTest) :
    alternativesOf (Selector.field name t).toValue = [(Selector.field name t).toValue] := by
  have h := test_not_list t
  unfold alternativesOf
  split
  · rename_i key cs he
    simp [Selector.toValue, doc] at he
    exact absurd he.2 (h cs)
  · rfl

theorem alternatives_of_selector (s : Selector) :
    alternativesOf s.toValue = s.alternatives.map Selector.toValue := by
  induction s with
  | field name t => exact alternatives_of_test name t
  | both l r => simp [Selector.toValue, Selector.alternatives, doc, alternativesOf]
  | either l r ihl ihr =>
    simp [Selector.toValue, Selector.alternatives, doc, alternativesOf, alternativesIn, ihl, ihr]

/-- A filter selects what one of its alternatives selects. -/
theorem any_alternative (at_ : String → Value) (s : Selector) :
    s.alternatives.any (Selector.holds at_) = s.holds at_ := by
  induction s with
  | field name t => simp [Selector.alternatives]
  | both l r => simp [Selector.alternatives]
  | either l r ihl ihr => simp [Selector.alternatives, Selector.holds, ihl, ihr]

theorem alternatives_tests (s : Selector) : s.alternatives.flatMap Selector.tests = s.tests := by
  induction s with
  | field name t => simp [Selector.alternatives]
  | both l r => simp [Selector.alternatives]
  | either l r ihl ihr => simp [Selector.alternatives, Selector.tests, ihl, ihr]

theorem flatten_field {name : String} (hn : Plain name) (t : FieldTest) {vs ws : List Value}
    (hv : Command.flattenItems vs = .ok ws) :
    Command.flattenItems ((Selector.field name t).toValue :: vs) =
      .ok ((Selector.field name t).toValue :: ws) := by
  simp [Selector.toValue, doc, Command.flattenItems, Command.nested?, plain_not_or hn, hv]

/-- Nested alternatives come out in their place. -/
theorem flatten_chain {s : Selector} (h : Chain s) {vs ws : List Value}
    (hv : Command.flattenItems vs = .ok ws) :
    Command.flattenItems (s.toValue :: vs) =
      .ok (s.alternatives.map Selector.toValue ++ ws) := by
  induction h generalizing vs ws with
  | field hn => exact flatten_field hn _ hv
  | both hl hn =>
    simp [Selector.toValue, Selector.alternatives, doc, Command.flattenItems, Command.nested?, hv]
  | @either l name t hl hn ih =>
    have hpair : Command.flattenItems [l.toValue, (Selector.field name t).toValue] =
        .ok (l.alternatives.map Selector.toValue ++ [(Selector.field name t).toValue]) :=
      ih (flatten_field hn t rfl)
    rw [Selector.toValue, doc]
    simp [Selector.alternatives, Command.flattenItems, Command.nested?, Command.flatten, hpair, hv]

theorem simplify_chain {l : Selector} {name : String} (t : FieldTest) (hl : Chain l)
    (hn : Plain name) :
    Command.simplifyFilter (Selector.either l (.field name t)).toValue =
      Command.alternatives ((Selector.either l (.field name t)).alternatives.map
        Selector.toValue) := by
  have hpair := flatten_chain hl (flatten_field hn t (rfl : Command.flattenItems [] = .ok []))
  rw [Selector.toValue, doc]
  simp [Command.simplifyFilter, Value.isIn, Entries.has, Value.entry, Value.index, Entries.get?,
    Command.flatten, Selector.alternatives, hpair]

theorem selector_singles (ss : List Selector) :
    ss.map Selector.toValue = (ss.map fun s => (s.key, s.body)).map single := by
  rw [List.map_map]
  exact List.map_congr_left fun s _ => selector_single s

def equality (name : String) (v : Scalar) : Selector := .field name (.compare .eq v)

@[simp] theorem equality_key (name : String) (v : Scalar) : (equality name v).key = name := rfl

@[simp] theorem equality_body (name : String) (v : Scalar) :
    (equality name v).body = v.toValue := rfl

theorem scalar_not_dict (v : Scalar) : v.toValue.kind ≠ .dict := by
  cases v <;> simp [Scalar.toValue, Value.kind]

theorem equality_of_body {s : Selector} (hp : Plain s.key) (hb : s.body.kind ≠ .dict) :
    ∃ v : Scalar, s = equality s.key v := by
  cases s with
  | field name t =>
    cases t with
    | compare r v =>
      cases r with
      | eq => exact ⟨v, rfl⟩
      | ne | gt | lt | ge | le => simp [Selector.body, FieldTest.toValue, doc, Value.kind] at hb
    | between low high => simp [Selector.body, FieldTest.toValue, doc, Value.kind] at hb
    | among vs => simp [Selector.body, FieldTest.toValue, doc, Value.kind] at hb
  | both l r => exact absurd rfl (plain_not_and hp)
  | either l r => exact absurd rfl (plain_not_or hp)

theorem bound_of_body {s : Selector} (h : (lowOf? s.body).isSome ∨ (highOf? s.body).isSome) :
    ∃ b : Bound, s.toValue = b.toValue s.key := by
  cases s with
  | field name t =>
    cases t with
    | compare r v =>
      cases r with
      | gt => exact ⟨.above v.toValue, rfl⟩
      | lt => exact ⟨.below v.toValue, rfl⟩
      | eq => cases v <;> cases h <;> contradiction
      | ne | ge | le => cases h <;> contradiction
    | between low high => cases h <;> contradiction
    | among vs => cases h <;> contradiction
  | both l r => cases h <;> contradiction
  | either l r => cases h <;> contradiction

/-- Alternatives are taken for bounds only if they are bounds of one field. -/
theorem bounds_of_selectors {ss : List Selector} {r : Value × List Value × List Value}
    (hne : ss ≠ []) (h : Command.bounds? .null (ss.map Selector.toValue) = some r) :
    ∃ name, ∃ bs : List Bound, ss.map Selector.toValue = bs.map (Bound.toValue name) := by
  rw [selector_singles, bounds_iff (by simpa using hne)] at h
  obtain ⟨n, hall, -⟩ := h
  rw [List.forall_mem_map] at hall
  have hrange : ss.map Selector.toValue ∈ Set.range (List.map (Bound.toValue n)) := by
    rw [Set.range_list_map]
    intro v hv
    obtain ⟨s, hs, rfl⟩ := List.mem_map.mp hv
    obtain ⟨b, hb⟩ := bound_of_body (hall s hs).2
    exact ⟨b, by rw [hb, ← (hall s hs).1]⟩
  obtain ⟨bs, hbs⟩ := hrange
  exact ⟨n, bs, hbs.symm⟩

theorem bounds_not_bounds {ss : List Selector}
    (h : ∀ name (bs : List Bound), ss.map Selector.toValue ≠ bs.map (Bound.toValue name)) :
    Command.bounds? .null (ss.map Selector.toValue) = none := by
  by_contra hsome
  obtain ⟨r, hr⟩ := Option.ne_none_iff_exists'.mp hsome
  have hne : ss ≠ [] := by
    rintro rfl
    exact h "" [] rfl
  obtain ⟨name, bs, hbs⟩ := bounds_of_selectors hne hr
  exact h name bs hbs

/-- Alternatives with one on a plain field are taken for equalities only if they are equalities of
this field. -/
theorem equalities_plain {ss : List Selector} {name : String} {t : FieldTest}
    {r : Value × List Value} (hn : Plain name) (hm : .field name t ∈ ss)
    (h : Command.equalities? .null (ss.map Selector.toValue) = some r) :
    ∃ vs : List Scalar, ss = vs.map (equality name) := by
  rw [selector_singles, equalities_iff (by simpa using List.ne_nil_of_mem hm)] at h
  obtain ⟨n, hall, -⟩ := h
  rw [List.forall_mem_map] at hall
  have hname : name = n := (hall _ hm).1
  have hrange : ss ∈ Set.range (List.map (equality name)) := by
    rw [Set.range_list_map]
    intro u hu
    have hkey : u.key = name := (hall u hu).1.trans hname.symm
    obtain ⟨v, hv⟩ := equality_of_body (hkey ▸ hn) (hall u hu).2
    exact ⟨v, by rw [hv, hkey]⟩
  obtain ⟨vs, hvs⟩ := hrange
  exact ⟨vs, hvs.symm⟩

/-- Filters that compare one field with each of some values. -/
def equalitiesOf (name : String) (vs : List Scalar) : List Value :=
  vs.map (fun v => doc [(name, v.toValue)])

theorem equalities_of_values (name : String) (vs : List Scalar) :
    (vs.map (equality name)).map Selector.toValue = equalitiesOf name vs := by
  simp [equalitiesOf, equality, Selector.toValue, FieldTest.toValue]

theorem equalities_of_injective {n m : String} {v : Scalar} {vs ws : List Scalar}
    (h : equalitiesOf n (v :: vs) = equalitiesOf m ws) : n = m ∧ v :: vs = ws := by
  cases ws with
  | nil => simp [equalitiesOf] at h
  | cons w ws =>
    have hn : n = m := by
      simp only [equalitiesOf, List.map_cons, List.cons.injEq] at h
      have hentry : n = m ∧ v.toValue = w.toValue := by simpa [doc] using h.1
      exact hentry.1
    subst hn
    refine ⟨rfl, List.map_injective_iff.mpr ?_ h⟩
    intro u w huw
    exact Scalar.to_value_injective (by simpa [doc] using huw)

theorem equalities_recognised (name : String) (v : Scalar) (vs : List Scalar) :
    Command.equalities? .null (equalitiesOf name (v :: vs)) =
      some (.text name, (v :: vs).map Scalar.toValue) := by
  rw [← equalities_of_values, selector_singles, equalities_iff (by simp)]
  refine ⟨name, ?_, by simp [Function.comp_def]⟩
  rw [List.forall_mem_map, List.forall_mem_map]
  exact fun w _ => ⟨rfl, scalar_not_dict w⟩

/-- Equalities of one field become the ascending list of the values that occur. -/
theorem alternatives_of_equalities (name : String) {v : Scalar} {vs : List Scalar}
    (ho : OneType (v :: vs)) :
    ∃ g ms, Command.alternatives (equalitiesOf name (v :: vs)) = .ok g ∧
      Command.sortMembers g = .ok (Selector.field name (.among ms)).toValue ∧
      Ascending ms ∧ ∀ w, w ∈ ms ↔ w ∈ v :: vs := by
  obtain ⟨ws, hws, -, hmem⟩ := distinct_scalars (v :: vs)
  obtain ⟨ms, hms, hasc, hmem'⟩ := sort_among (ho.subset (fun w hw => (hmem w).mp hw))
  refine ⟨(Selector.field name (.among ws)).toValue, ms, ?_, sort_single hms, hasc,
    fun w => (hmem' w).trans (hmem w)⟩
  simp only [Command.alternatives, equalities_recognised, hws, ok_bind, pure_ok]
  rfl

/-- Alternatives that are neither equalities nor bounds of one field are kept. -/
theorem alternatives_kept {ss : List Selector}
    (he : Command.equalities? .null (ss.map Selector.toValue) = none)
    (hb : Command.bounds? .null (ss.map Selector.toValue) = none)
    (hm : SortableMembers (ss.flatMap Selector.tests)) :
    let g := doc [("$or", .list (ss.map Selector.toValue))]
    ∃ us : List Selector, let r := doc [("$or", .list (us.map Selector.toValue))]
      Command.alternatives (ss.map Selector.toValue) = .ok g ∧ Command.sortMembers g = .ok r ∧
        ∀ at_, holds at_ r = ss.any (Selector.holds at_) := by
  obtain ⟨us, hus, hx⟩ := sort_selectors ss hm
  refine ⟨us, ?_, ?_, fun at_ => ?_⟩
  · simp [Command.alternatives, he, hb]
  · simp [doc, Command.sortMembers, Command.sortMemberEntries, Command.isMembership, hus]
  · simp [doc, holds, holdsEntries, holds_any, List.any_map, Function.comp_def, holds_to_value,
      ← hx]

/-- Alternatives are simplified to a filter that selects what one of them selects. -/
theorem alternatives_simplified {ss : List Selector} {name : String} {t : FieldTest}
    (hn : Plain name) (hlast : .field name t ∈ ss)
    (hb : ∀ name (bs : List Bound), ss.map Selector.toValue ≠ bs.map (Bound.toValue name))
    (hm : SortableMembers (ss.flatMap Selector.tests))
    (he : ∀ name vs, ss.map Selector.toValue = equalitiesOf name vs → OneType vs) :
    ∃ g r, Command.alternatives (ss.map Selector.toValue) = .ok g ∧ Command.sortMembers g = .ok r ∧
      (∀ at_, holds at_ r = ss.any (Selector.holds at_)) ∧
      ∀ name vs, ss.map Selector.toValue = equalitiesOf name vs →
        ∃ ms, r = doc [(name, doc [("$in", .list (ms.map Scalar.toValue))])] ∧
          Ascending ms ∧ ∀ w, w ∈ ms ↔ w ∈ vs := by
  by_cases hall : ∃ vs : List Scalar, ss = vs.map (equality name)
  · obtain ⟨vs, rfl⟩ := hall
    cases vs with
    | nil => cases hlast
    | cons v vs =>
      rw [equalities_of_values] at he ⊢
      obtain ⟨g, ms, hg, hsort, hasc, hmem⟩ := alternatives_of_equalities name (he name _ rfl)
      refine ⟨g, _, hg, hsort, fun at_ => ?_, ?_⟩
      · rw [holds_to_value, Bool.eq_iff_iff]
        simp [Selector.holds, FieldTest.holds, equality, hmem]
      · intro m ws hws
        obtain ⟨rfl, rfl⟩ := equalities_of_injective hws
        exact ⟨ms, rfl, hasc, hmem⟩
  · have hnone : Command.equalities? .null (ss.map Selector.toValue) = none := by
      by_contra hsome
      obtain ⟨r, hr⟩ := Option.ne_none_iff_exists'.mp hsome
      exact hall (equalities_plain hn hlast hr)
    obtain ⟨us, hg, hr, hx⟩ := alternatives_kept hnone (bounds_not_bounds hb) hm
    refine ⟨_, _, hg, hr, hx, ?_⟩
    intro m ws hws
    cases ws with
    | nil =>
      rw [List.map_eq_nil_iff.mp hws] at hlast
      cases hlast
    | cons w ws =>
      rw [hws, equalities_recognised] at hnone
      cases hnone

/-- Other alternatives than bounds are simplified to a filter, and it selects the same documents. If
they are equalities of one field, it is the ascending list of their values. -/
theorem alternatives_keep_meaning {text : String} {line : Nat} {q : Sql.Query} {c : Sql.Condition}
    {base? : Option Value} {f v : Value} (hq : Sql.parse text line = .ok q)
    (hc : q.condition? = some c) (hl : isLiteral c = true)
    (hf : Command.filter base? c.toValue = .ok f) (hor : f = doc [("$or", v)])
    (hb : ∀ name (bs : List Bound), alternativesOf f ≠ bs.map (Bound.toValue name))
    (hm : SortableMembers (fieldTests base? c))
    (he : ∀ name vs, alternativesOf f = equalitiesOf name vs → OneType vs) :
    ∃ g r, Command.simplifyFilter f = .ok g ∧ Command.sortMembers g = .ok r ∧
      (∀ d : Entries, holds (Entries.field d) r = true ↔ holds (Entries.field d) f = true) ∧
      ∀ name vs, alternativesOf f = equalitiesOf name vs →
        ∃ ms, r = doc [(name, doc [("$in", .list (ms.map Scalar.toValue))])] ∧
          Ascending ms ∧ ∀ w, w ∈ ms ↔ w ∈ vs := by
  obtain ⟨s, hs, hchain, htests⟩ := filter_of_comb base? (parse_comb hq hc) hl
  obtain rfl : s.toValue = f := Except.ok.inj (hs.symm.trans hf)
  rw [← htests, ← alternatives_tests] at hm
  simp only [alternatives_of_selector, holds_to_value] at hb he ⊢
  cases hchain with
  | @field name t hn =>
    have hentry : name = "$or" ∧ t.toValue = v := by simpa [Selector.toValue, doc] using hor
    exact absurd hentry.1 (plain_not_or hn)
  | both hl hn => simp [Selector.toValue, doc] at hor
  | @either l name t hl hn =>
    have hlast : .field name t ∈ (Selector.either l (.field name t)).alternatives := by
      simp [Selector.alternatives]
    obtain ⟨g, r, hg, hr, hx, hin⟩ := alternatives_simplified hn hlast hb hm he
    refine ⟨g, r, (simplify_chain t hl hn).trans hg, hr, fun d => ?_, hin⟩
    rw [hx, any_alternative]

/-- `city = 'b' OR city = 'a' or city = 'b'` becomes a list of two cities. -/
theorem alternatives_of_cities :
    let city (s : String) : Sql.Condition := .compare ⟨none, "city"⟩ .eq (.literal (.text s))
    let c : Sql.Condition := .connect (.connect (city "b") "OR" (city "a")) "or" (city "b")
    let f := doc [("$or", .list [doc [("$or", .list [doc [("city", .text "b")],
      doc [("city", .text "a")]])], doc [("city", .text "b")]])]
    Sql.parse "SELECT * FROM users WHERE city = 'b' OR city = 'a' or city = 'b';" 1 =
        .ok ⟨.all, .table "users", some c, [], none, [], none⟩ ∧
      Command.filter (some (.text "users")) c.toValue = .ok f ∧
      alternativesOf f = equalitiesOf "city" [.text "b", .text "a", .text "b"] ∧
      ∃ g r, Command.simplifyFilter f = .ok g ∧ Command.sortMembers g = .ok r ∧
        (∀ d : Entries, holds (Entries.field d) r = true ↔ holds (Entries.field d) f = true) ∧
        ∀ name vs, alternativesOf f = equalitiesOf name vs →
          ∃ ms, r = doc [(name, doc [("$in", .list (ms.map Scalar.toValue))])] ∧
            Ascending ms ∧ ∀ w, w ∈ ms ↔ w ∈ vs := by
  intro city c f
  have hparse : Sql.parse "SELECT * FROM users WHERE city = 'b' OR city = 'a' or city = 'b';" 1 =
      .ok ⟨.all, .table "users", some c, [], none, [], none⟩ := parse_spelled ⟨rfl, rfl⟩ rfl
  have hfilter : Command.filter (some (.text "users")) c.toValue = .ok f := rfl
  have hflat : alternativesOf f = equalitiesOf "city" [.text "b", .text "a", .text "b"] := rfl
  refine ⟨hparse, hfilter, hflat, alternatives_keep_meaning hparse rfl rfl hfilter rfl ?_ ?_ ?_⟩
  · intro name bs hbs
    rw [hflat] at hbs
    cases bs with
    | nil => cases hbs
    | cons b bs => cases b <;> cases hbs
  · simp [SortableMembers, c, city, fieldTests, literalTest?]
  · intro name vs hvs
    rw [hflat] at hvs
    obtain ⟨-, rfl⟩ := equalities_of_injective hvs
    simp [OneType, Scalar.isText]

end DocQuery.Proofs
