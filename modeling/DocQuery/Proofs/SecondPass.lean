import DocQuery.Proofs.Precedence
import DocQuery.Proofs.PrintedFilters

namespace DocQuery.Proofs

open Sql
open Value (doc)

/-- The values of filters that can be members of a list. -/
inductive Member : Value → Prop where
  | null : Member .null
  | scalar (s : Scalar) : Member s.toValue

theorem member_of_key {P : String → Prop} {v : Value} (hv : Printable P v)
    (hkey : v.asKey = .ok ()) : Member v := by
  cases hv with
  | null => exact .null
  | int n => exact .scalar (.int n)
  | @text s _ => exact .scalar (.text s)
  | list => cases hkey
  | dict => cases hkey

theorem member_same_comm {v w : Value} (hv : Member v) (hw : Member w) : v.same w = w.same v := by
  cases hv with
  | null =>
    cases hw with
    | null => rfl
    | scalar t => cases t <;> rfl
  | scalar s =>
    cases hw with
    | null => cases s <;> rfl
    | scalar t => simp [eq_comm]

/-- Members that can be compared are scalars of one type. -/
theorem member_less {v w : Value} {b : Bool} (hv : Member v) (hw : Member w)
    (h : v.less w = .ok b) :
    ∃ s t : Scalar, v = s.toValue ∧ w = t.toValue ∧ s.isText = t.isText ∧ s.lt t = b := by
  cases hv with
  | null => cases hw <;> cases h
  | scalar s =>
    cases hw with
    | null => cases s <;> cases h
    | scalar t =>
      have htype : s.isText = t.isText := by
        cases s <;> cases t
        · rfl
        · cases h
        · cases h
        · rfl
      rw [less_scalar htype] at h
      exact ⟨s, t, rfl, rfl, htype, Except.ok.inj h⟩

/-- A value may stand behind another one in a sorted list. -/
def Follows (v w : Value) : Prop := w.less v = .ok false ∧ w.same v = false

/-- A list of members in ascending order, without repetitions. -/
def InOrder (vs : List Value) : Prop := vs.Pairwise Follows

/-- What is less than a member may stand before all that may follow this one. -/
theorem follows_below {v w z : Value} (hv : Member v) (hw : Member w) (hz : Member z)
    (hless : v.less w = .ok true) (hlast : z.less w = .ok false) : z.less v = .ok false := by
  obtain ⟨s, t, rfl, rfl, htype, hlt⟩ := member_less hv hw hless
  obtain ⟨u, t', rfl, ht, hutype, hnot⟩ := member_less hz hw hlast
  obtain rfl := Scalar.to_value_injective ht
  rw [less_scalar (hutype.trans htype.symm)]
  cases hus : u.lt s with
  | false => rfl
  | true =>
    rw [scalar_lt_trans hus hlt] at hnot
    cases hnot

theorem follows_less {v w : Value} (hv : Member v) (hw : Member w) (hless : v.less w = .ok true) :
    w.less v = .ok false := by
  obtain ⟨s, t, rfl, rfl, htype, hlt⟩ := member_less hv hw hless
  apply follows_below (.scalar s) (.scalar t) (.scalar t) hless
  rw [less_scalar rfl, scalar_lt_irrefl]

/-- Inserting a new member keeps the order. -/
theorem insert_in_order {v : Value} {ws ms : List Value} (hv : Member v)
    (hws : ∀ w ∈ ws, Member w) (hnew : ∀ w ∈ ws, v.same w = false) (horder : InOrder ws)
    (h : Value.insertSorted v ws = .ok ms) : InOrder ms := by
  induction ws generalizing ms with
  | nil =>
    cases h
    exact List.pairwise_singleton _ _
  | cons w ws ih =>
    obtain ⟨hw, hrest⟩ := List.forall_mem_cons.mp hws
    obtain ⟨hvw, hvrest⟩ := List.forall_mem_cons.mp hnew
    obtain ⟨hhead, htail⟩ := List.pairwise_cons.mp horder
    simp only [Value.insertSorted, bind_ok] at h
    obtain ⟨b, hless, h⟩ := h
    cases b with
    | true =>
      cases h
      refine List.pairwise_cons.mpr ⟨fun z hz => ⟨?_, ?_⟩, horder⟩
      · rcases List.mem_cons.mp hz with rfl | hz
        · exact follows_less hv hw hless
        · exact follows_below hv hw (hrest z hz) hless (hhead z hz).1
      · rw [member_same_comm (hws z hz) hv]
        exact hnew z hz
    | false =>
      simp only [Bool.false_eq_true, ↓reduceIte, bind_ok] at h
      obtain ⟨rest, hinsert, hx⟩ := h
      cases hx
      refine List.pairwise_cons.mpr ⟨fun z hz => ?_, ih hrest hvrest htail hinsert⟩
      rcases List.mem_cons.mp ((insert_sorted_mem hinsert).2 z hz) with rfl | hz
      · exact ⟨hless, hvw⟩
      · exact hhead z hz

/-- Sorting different members puts them in order. -/
theorem sorted_in_order {vs ws : List Value} (hvs : ∀ v ∈ vs, Member v)
    (hnew : vs.Pairwise fun v w => w.same v = false) (h : Value.sorted vs = .ok ws) :
    InOrder ws := by
  have hrun : ∀ (vs done : List Value), (∀ v ∈ vs, Member v) → (∀ d ∈ done, Member d) →
      vs.Pairwise (fun v w => w.same v = false) → (∀ v ∈ vs, ∀ d ∈ done, v.same d = false) →
      InOrder done → ∀ ws, vs.foldlM (fun done v => Value.insertSorted v done) done = .ok ws →
        InOrder ws := by
    intro vs
    induction vs with
    | nil =>
      intro done _ _ _ _ horder ws h
      cases h
      exact horder
    | cons v vs ih =>
      intro done hvs hdone hpairs hnew horder ws h
      obtain ⟨hv, hrest⟩ := List.forall_mem_cons.mp hvs
      obtain ⟨hvnew, hrestnew⟩ := List.forall_mem_cons.mp hnew
      obtain ⟨hpair, hpairs⟩ := List.pairwise_cons.mp hpairs
      rw [List.foldlM_cons, bind_ok] at h
      obtain ⟨next, hnext, h⟩ := h
      have hmem := (insert_sorted_mem hnext).2
      apply ih next hrest ?_ hpairs ?_ (insert_in_order hv hdone hvnew horder hnext) ws h
      · intro d hd
        rcases List.mem_cons.mp (hmem d hd) with rfl | hd
        · exact hv
        · exact hdone d hd
      · intro u hu d hd
        rcases List.mem_cons.mp (hmem d hd) with rfl | hd
        · exact hpair u hu
        · exact hrestnew u hu d hd
  exact hrun vs [] hvs (by simp) hnew (by simp) List.Pairwise.nil ws h

/-- Of equal values only the first is kept. -/
theorem distinct_apart {vs ws : List Value} (h : Command.distinct vs = .ok ws) :
    ws.Pairwise fun v w => w.same v = false := by
  have hrun : ∀ vs done : List Value, done.Pairwise (fun v w => w.same v = false) →
      (vs.foldl (fun done v => if done.any v.same then done else done ++ [v]) done).Pairwise
        fun v w => w.same v = false := by
    intro vs
    induction vs with
    | nil => exact fun done hdone => hdone
    | cons v vs ih =>
      intro done hdone
      rw [List.foldl_cons]
      split
      · exact ih done hdone
      · rename_i hnew
        apply ih
        refine List.pairwise_append.mpr ⟨hdone, List.pairwise_singleton _ _, ?_⟩
        intro d hd w hw
        obtain rfl := List.mem_singleton.mp hw
        simpa using (List.any_eq_false.mp (Bool.eq_false_iff.mpr hnew)) d hd
  simp only [Command.distinct, bind_ok] at h
  obtain ⟨_, -, hx⟩ := h
  cases hx
  exact hrun vs [] List.Pairwise.nil

theorem insert_last {v : Value} {ws : List Value} (h : ∀ w ∈ ws, v.less w = .ok false) :
    Value.insertSorted v ws = .ok (ws ++ [v]) := by
  induction ws with
  | nil => rfl
  | cons w ws ih =>
    obtain ⟨hw, hrest⟩ := List.forall_mem_cons.mp h
    simp [Value.insertSorted, hw, ih hrest]

/-- A list in order is sorted already. -/
theorem sorted_of_order {vs : List Value} (h : InOrder vs) : Value.sorted vs = .ok vs := by
  have hrun : ∀ vs done : List Value, InOrder (done ++ vs) →
      vs.foldlM (fun done v => Value.insertSorted v done) done = .ok (done ++ vs) := by
    intro vs
    induction vs with
    | nil =>
      intro done _
      rw [List.append_nil]
      rfl
    | cons v vs ih =>
      intro done h
      have hlast : ∀ d ∈ done, v.less d = .ok false := fun d hd =>
        ((List.pairwise_append.mp h).2.2 d hd v List.mem_cons_self).1
      rw [List.foldlM_cons, insert_last hlast, ok_bind, ih (done ++ [v]) (by simpa using h)]
      simp
  exact hrun vs [] h

/-- A list in order has no repetitions. -/
theorem distinct_of_order {vs : List Value} (hkeys : ∀ v ∈ vs, v.asKey = .ok ())
    (h : InOrder vs) : Command.distinct vs = .ok vs := by
  have hrun : ∀ vs done : List Value, InOrder (done ++ vs) →
      vs.foldl (fun done v => if done.any v.same then done else done ++ [v]) done =
        done ++ vs := by
    intro vs
    induction vs with
    | nil => simp
    | cons v vs ih =>
      intro done h
      have hnew : done.any v.same = false := List.any_eq_false.mpr fun d hd => by
        simpa using ((List.pairwise_append.mp h).2.2 d hd v List.mem_cons_self).2
      rw [List.foldl_cons, hnew, if_neg (by simp), ih (done ++ [v]) (by simpa using h)]
      simp
  have hkeyed : vs.forM Value.asKey = .ok () := for_each_ok.mpr hkeys
  have hkept : vs.foldl (fun done v => if done.any v.same then done else done ++ [v]) [] = vs :=
    hrun vs [] h
  simp only [Command.distinct, hkeyed, ok_bind, pure_ok, hkept]

/-- Sorted members are left as they are. -/
theorem sorted_members_again {P : String → Prop} {xs ys : List Value}
    (hxs : ∀ x ∈ xs, Printable P x) (h : Command.sortedMembers (.list xs) = .ok (.list ys)) :
    Command.sortedMembers (.list ys) = .ok (.list ys) := by
  simp only [Command.sortedMembers, Value.items, ok_bind, bind_ok] at h
  obtain ⟨vs, hvs, h⟩ := h
  have hdistinct := (distinct_values hvs).1
  have hkeys : ∀ x ∈ xs, x.asKey = .ok () := by
    simp only [Command.distinct, bind_ok] at hvs
    obtain ⟨_, hkeyed, -⟩ := hvs
    exact for_each_ok.mp hkeyed
  cases hws : Value.sorted vs with
  | error kinds =>
    rw [hws] at h
    cases h
  | ok ws =>
    rw [hws] at h
    cases h
    have hmembers : ∀ v ∈ vs, Member v := fun v hv =>
      member_of_key (hxs v (hdistinct v hv)) (hkeys v (hdistinct v hv))
    have horder := sorted_in_order hmembers (distinct_apart hvs) hws
    have hkeyed : ∀ y ∈ ys, y.asKey = .ok () := fun y hy =>
      hkeys y (hdistinct y ((sorted_values hws).1 y hy))
    simp [Command.sortedMembers, Value.items, distinct_of_order hkeyed horder,
      sorted_of_order horder]

/-- The keys of a document. -/
def keysOf : Value → List Value
  | .dict es => es.map (·.1)
  | _ => []

/-- Whether a key is in a document is seen from its keys. -/
theorem has_keys (es : Entries) (key : Value) :
    Entries.has es key = (es.map (·.1)).any fun k => k.same key := by
  rw [List.any_map]
  rfl

/-- Sorting keeps the kind of a value and the keys of a document. -/
theorem sort_under_keys {v w : Value} (h : sortUnder v = .ok w) :
    w.kind = v.kind ∧ keysOf w = keysOf v := by
  unfold sortUnder at h
  split at h
  · rename_i hin
    cases v with
    | dict es =>
      simp only [Command.sortTests, bind_ok] at h
      obtain ⟨vs, -, hx⟩ := h
      cases hx
      refine ⟨rfl, ?_⟩
      have hhas : Entries.has es (.text "$in") = true := hin
      rw [keysOf, keysOf, put_keys, if_pos hhas]
    | _ => cases hin
  · cases v with
    | dict es =>
      simp only [Command.sortMembers, bind_ok] at h
      obtain ⟨fs, hfs, hx⟩ := h
      cases hx
      exact ⟨rfl, sort_entries_keys hfs⟩
    | list xs =>
      obtain ⟨ys, rfl⟩ := sort_list h
      exact ⟨rfl, rfl⟩
    | _ =>
      cases h
      exact ⟨rfl, rfl⟩

theorem membership_keys (v : Value) :
    Command.isMembership v = (keysOf v).any fun k => k.same (.text "$in") := by
  cases v with
  | dict es => exact has_keys es _
  | _ => rfl

theorem sort_tests_again {P : String → Prop} {v w : Value} (hv : Printable P v)
    (hin : Command.isMembership v = true) (h : Command.sortTests v = .ok w) :
    Command.sortTests w = .ok w := by
  obtain ⟨es, xs, ys, -, hxs, -, hsorted, rfl⟩ := sort_tests_parts hv hin h
  have hput : Entries.field (Entries.put es (.text "$in") (.list ys)) "$in" = .list ys := by
    rw [Entries.field, get_put, if_pos rfl]
    rfl
  simp only [Command.sortTests, hput, sorted_members_again hxs hsorted, ok_bind, put_put, pure_ok]

theorem sort_under_again {P : String → Prop} {v w : Value} (hv : Printable P v)
    (hagain : ∀ w, Command.sortMembers v = .ok w → Command.sortMembers w = .ok w)
    (h : sortUnder v = .ok w) : sortUnder w = .ok w := by
  have hsame : Command.isMembership w = Command.isMembership v := by
    rw [membership_keys, membership_keys, (sort_under_keys h).2]
  unfold sortUnder at h ⊢
  rw [hsame]
  split at h
  · rename_i hin
    rw [if_pos hin]
    exact sort_tests_again hv hin h
  · rename_i hin
    rw [if_neg hin]
    exact hagain w h

theorem sort_items_again {xs ys : List Value}
    (hagain : ∀ x ∈ xs, ∀ y, Command.sortMembers x = .ok y → Command.sortMembers y = .ok y)
    (h : Command.sortMemberItems xs = .ok ys) : Command.sortMemberItems ys = .ok ys := by
  induction xs generalizing ys with
  | nil =>
    cases h
    rfl
  | cons x xs ih =>
    obtain ⟨hx, hrest⟩ := List.forall_mem_cons.mp hagain
    simp only [Command.sortMemberItems, bind_ok] at h
    obtain ⟨y, hy, more, hmore, hz⟩ := h
    cases hz
    simp [Command.sortMemberItems, hx y hy, ih hrest hmore]

theorem sort_entries_again {es fs : Entries}
    (hagain : ∀ e ∈ es, ∀ w, sortUnder e.2 = .ok w → sortUnder w = .ok w)
    (h : Command.sortMemberEntries es = .ok fs) : Command.sortMemberEntries fs = .ok fs := by
  induction es generalizing fs with
  | nil =>
    cases h
    rfl
  | cons e es ih =>
    obtain ⟨he, hrest⟩ := List.forall_mem_cons.mp hagain
    obtain ⟨w, more, hw, hmore, rfl⟩ := sort_entries_parts h
    exact sort_entries_cons (he w hw) (ih hrest hmore)

/-- Sorting the members in a filter a second time changes nothing. -/
theorem sort_members_again {P : String → Prop} {v w : Value} (hv : Printable P v)
    (h : Command.sortMembers v = .ok w) : Command.sortMembers w = .ok w := by
  induction hv generalizing w with
  | null =>
    cases h
    rfl
  | int n =>
    cases h
    rfl
  | text hs =>
    cases h
    rfl
  | list _ _ ih =>
    simp only [Command.sortMembers, bind_ok] at h
    obtain ⟨ys, hys, hx⟩ := h
    cases hx
    simp [Command.sortMembers, sort_items_again (fun x hx y => ih x hx) hys]
  | dict _ _ hvalue _ ih =>
    simp only [Command.sortMembers, bind_ok] at h
    obtain ⟨fs, hfs, hx⟩ := h
    cases hx
    have hunder := sort_entries_again
      (fun e he w => sort_under_again (hvalue e he) fun w => ih e he) hfs
    simp [Command.sortMembers, hunder]

/-- A filter that simplifying and sorting give again. -/
def Settled (f : Value) : Prop :=
  ∃ g, Command.simplifyFilter f = .ok g ∧ Command.sortMembers g = .ok f

/-- All keys of a document are names of fields. -/
def FieldKeys (es : Entries) : Prop := ∀ k ∈ es.map (·.1), ∃ s, k = .text s ∧ Plain s

theorem field_keys_lack {es : Entries} (h : FieldKeys es) {key : String} (hkey : ¬Plain key) :
    (Value.text key).isIn (.dict es) = .ok false := by
  have hnone : Entries.has es (.text key) = false := by
    rw [has_keys, List.any_eq_false]
    intro k hk
    obtain ⟨s, rfl, hs⟩ := h k hk
    have hne : s ≠ key := by
      rintro rfl
      exact hkey hs
    simpa using hne
  simp only [Value.isIn, as_key_text, ok_bind, hnone, pure_ok]

/-- A filter without connectives stays as it is. -/
theorem field_keys_kept {es : Entries} (h : FieldKeys es) :
    Command.simplifyFilter (.dict es) = .ok (.dict es) := by
  have hor := field_keys_lack h (by decide : ¬Plain "$or")
  have hand := field_keys_lack h (by decide : ¬Plain "$and")
  simp only [Command.simplifyFilter, hor, hand, ok_bind, Bool.false_eq_true, ↓reduceIte, pure_ok]

/-- A filter without connectives is settled once its members are sorted. -/
theorem field_keys_settled {P : String → Prop} {es : Entries} {r : Value} (h : FieldKeys es)
    (hp : Printable P (.dict es)) (hr : Command.sortMembers (.dict es) = .ok r) : Settled r := by
  have hagain := sort_members_again hp hr
  simp only [Command.sortMembers, bind_ok] at hr
  obtain ⟨fs, hfs, hx⟩ := hr
  cases hx
  have hkeys : FieldKeys fs := by
    rw [FieldKeys, sort_entries_keys hfs]
    exact h
  exact ⟨.dict fs, field_keys_kept hkeys, hagain⟩

/-- What stands under a key, before and after its members are sorted. -/
def SortedTo (p p' : String × Value) : Prop := p'.1 = p.1 ∧ sortUnder p.2 = .ok p'.2

theorem sorted_to_keys {ps ps' : List (String × Value)} (h : List.Forall₂ SortedTo ps ps') :
    ps'.map (·.1) = ps.map (·.1) := by
  induction h with
  | nil => rfl
  | cons hp _ ih => rw [List.map_cons, List.map_cons, hp.1, ih]

theorem sorted_to_some {ps ps' : List (String × Value)} (h : List.Forall₂ SortedTo ps ps')
    (hne : ps ≠ []) : ps' ≠ [] := by
  cases h with
  | nil => exact absurd rfl hne
  | cons _ _ => exact List.cons_ne_nil _ _

theorem sort_single_parts {p : String × Value} {y : Value}
    (h : Command.sortMembers (single p) = .ok y) : ∃ p', y = single p' ∧ SortedTo p p' := by
  simp only [single, Command.sortMembers, bind_ok] at h
  obtain ⟨fs, hfs, hx⟩ := h
  cases hx
  obtain ⟨w, more, hw, hmore, rfl⟩ := sort_entries_parts hfs
  cases hmore
  exact ⟨(p.1, w), rfl, rfl, hw⟩

theorem sort_singles {ps : List (String × Value)} {ys : List Value}
    (h : Command.sortMemberItems (ps.map single) = .ok ys) :
    ∃ ps', ys = ps'.map single ∧ List.Forall₂ SortedTo ps ps' := by
  induction ps generalizing ys with
  | nil =>
    cases h
    exact ⟨[], rfl, .nil⟩
  | cons p ps ih =>
    simp only [List.map_cons, Command.sortMemberItems, bind_ok] at h
    obtain ⟨y, hy, more, hmore, hx⟩ := h
    cases hx
    obtain ⟨p', rfl, hp⟩ := sort_single_parts hy
    obtain ⟨ps', rfl, hps⟩ := ih hmore
    exact ⟨p' :: ps', rfl, .cons hp hps⟩

theorem all_related {α β : Type} {R : α → β → Prop} {P : α → Prop} {Q : β → Prop} {xs : List α}
    {ys : List β} (h : List.Forall₂ R xs ys) (hPQ : ∀ x y, R x y → (P x ↔ Q y)) :
    (∀ x ∈ xs, P x) ↔ ∀ y ∈ ys, Q y := by
  induction h with
  | nil => simp
  | cons hxy _ ih => rw [List.forall_mem_cons, List.forall_mem_cons, hPQ _ _ hxy, ih]

/-- Sorting members does not make equalities of what was none. -/
theorem equalities_sorted {ps ps' : List (String × Value)} (h : List.Forall₂ SortedTo ps ps')
    (hne : ps ≠ []) (he : Command.equalities? .null (ps.map single) = none) :
    Command.equalities? .null (ps'.map single) = none := by
  have hsome := sorted_to_some h hne
  rw [Option.eq_none_iff_forall_ne_some] at he ⊢
  intro r hr
  obtain ⟨n, hall, -⟩ := (equalities_iff hsome).mp hr
  refine he _ ((equalities_iff hne).mpr ⟨n, (all_related h fun p p' hp => ?_).mpr hall, rfl⟩)
  rw [hp.1, (sort_under_keys hp.2).1]

theorem bound_keys (v : Value) : (lowOf? v).isSome ∨ (highOf? v).isSome ↔
    (keysOf v).any (fun k => k.same (.text "$gt")) = true ∨
      (keysOf v).any (fun k => k.same (.text "$lt")) = true := by
  cases v with
  | dict es =>
    rw [keysOf, ← has_keys, ← has_keys, has_eq_get, has_eq_get]
    rfl
  | _ => simp [lowOf?, highOf?, keysOf]

/-- Sorting members does not make bounds of what were none. -/
theorem bounds_sorted {ps ps' : List (String × Value)} (h : List.Forall₂ SortedTo ps ps')
    (hne : ps ≠ []) (hb : Command.bounds? .null (ps.map single) = none) :
    Command.bounds? .null (ps'.map single) = none := by
  have hsome := sorted_to_some h hne
  rw [Option.eq_none_iff_forall_ne_some] at hb ⊢
  intro r hr
  obtain ⟨n, hall, -⟩ := (bounds_iff hsome).mp hr
  refine hb _ ((bounds_iff hne).mpr ⟨n, (all_related h fun p p' hp => ?_).mpr hall, rfl⟩)
  rw [hp.1, bound_keys, bound_keys, (sort_under_keys hp.2).2]

/-- Alternatives without nested ones are flat. -/
theorem flatten_singles {ps : List (String × Value)} (h : "$or" ∉ ps.map (·.1)) :
    Command.flattenItems (ps.map single) = .ok (ps.map single) := by
  induction ps with
  | nil => rfl
  | cons p ps ih =>
    obtain ⟨hp, hrest⟩ : p.1 ≠ "$or" ∧ "$or" ∉ ps.map (·.1) := by simpa [eq_comm] using h
    simp [single, Command.flattenItems, Command.nested?, hp, ih hrest]

/-- Alternatives of other kinds than equalities and bounds of one field are kept. -/
theorem alternatives_stay {flat : List Value} (he : Command.equalities? .null flat = none)
    (hb : Command.bounds? .null flat = none) :
    Command.alternatives flat = .ok (doc [("$or", .list flat)]) := by
  unfold Command.alternatives
  rw [he, hb]
  rfl

theorem or_printable {P : String → Prop} {flat : List Value} (hne : flat ≠ [])
    (hflat : ∀ c ∈ flat, ConditionFilter P c) : Printable P (doc [("$or", .list flat)]) :=
  single_printable ((connective_key .either).entry _)
    (.list hne fun c hc => condition_printable (hflat c hc))

/-- Flat alternatives that are kept are settled. -/
theorem or_settled {P : String → Prop} {ps : List (String × Value)} {r : Value} (hne : ps ≠ [])
    (hflat : ∀ c ∈ ps.map single, ConditionFilter P c) (hkeys : "$or" ∉ ps.map (·.1))
    (he : Command.equalities? .null (ps.map single) = none)
    (hb : Command.bounds? .null (ps.map single) = none)
    (hr : Command.sortMembers (doc [("$or", .list (ps.map single))]) = .ok r) : Settled r := by
  have hagain := sort_members_again (or_printable (by simpa using hne) hflat) hr
  obtain ⟨⟨key, body⟩, rfl, rfl, hbody⟩ := sort_single_parts (p := ("$or", _)) hr
  simp only [sortUnder, Command.isMembership, Bool.false_eq_true, ↓reduceIte, Command.sortMembers,
    bind_ok] at hbody
  obtain ⟨ys, hys, hx⟩ := hbody
  obtain rfl : .list ys = body := Except.ok.inj hx
  obtain ⟨ps', rfl, hsorted⟩ := sort_singles hys
  have hkeys' : "$or" ∉ ps'.map (·.1) := by rwa [sorted_to_keys hsorted]
  have hin : (Value.text "$or").isIn (single ("$or", .list (ps'.map single))) = .ok true := rfl
  have hentry : (single ("$or", .list (ps'.map single))).entry "$or" =
      .ok (.list (ps'.map single)) := rfl
  refine ⟨_, ?_, hagain⟩
  simp only [Command.simplifyFilter, hin, hentry, ok_bind, ↓reduceIte, Command.flatten,
    flatten_singles hkeys']
  exact alternatives_stay (equalities_sorted hsorted hne he) (bounds_sorted hsorted hne hb)

/-- Simplified alternatives, one of which tests a field, are settled. -/
theorem alternatives_settled {P : String → Prop} {ps : List (String × Value)}
    {p : String × Value} {g r : Value} (hp : p ∈ ps) (hplain : Plain p.1)
    (hflat : ∀ c ∈ ps.map single, ConditionFilter P c) (hkeys : "$or" ∉ ps.map (·.1))
    (h : Command.alternatives (ps.map single) = .ok g) (hr : Command.sortMembers g = .ok r) :
    Settled r := by
  have hne : ps ≠ [] := List.ne_nil_of_mem hp
  have hshape := alternatives_shape (by simpa using hne) hflat h
  have hone : ∀ {v : Value}, g = .dict [(.text p.1, v)] → Settled r := by
    rintro v rfl
    refine field_keys_settled ?_ ((filter_cases hshape).resolve_left (by simp)) hr
    simpa [FieldKeys] using hplain
  rcases alternatives_form h with
    ⟨field, vs, ws, he, -, hg⟩ | ⟨field, lows, highs, op, v, hb, -, -, hg⟩ | ⟨he, rfl, hnone⟩
  · obtain ⟨n, hall, hr⟩ := (equalities_iff hne).mp he
    cases hr
    exact hone ((hall p hp).1.symm ▸ hg)
  · obtain ⟨n, hall, hr⟩ := (bounds_iff hne).mp hb
    cases hr
    exact hone ((hall p hp).1.symm ▸ hg)
  · refine or_settled hne hflat hkeys he ?_ hr
    rw [Option.eq_none_iff_forall_ne_some]
    rintro ⟨field, lows, highs⟩ hb
    obtain ⟨n, hall, hr⟩ := (bounds_iff hne).mp hb
    cases hr
    obtain ⟨hlows, hhighs⟩ := hnone _ _ _ hb
    rw [List.filterMap_eq_nil_iff] at hlows hhighs
    have hhigh := hhighs p hp
    simp only [onlyHighOf?, hlows p hp] at hhigh
    simpa [hlows p hp, hhigh] using (hall p hp).2

/-- The tests of a field. -/
structure FieldFilter (P : String → Prop) (p : String × Value) : Prop where
  key : KeyText p.1
  plain : Plain p.1
  value : Printable P p.2

/-- The filters of conditions as they are read: the tests of a field are joined to all those
before them. -/
inductive JoinedFilter (P : String → Prop) : Value → Prop where
  | test {p : String × Value} (hp : FieldFilter P p) : JoinedFilter P (single p)
  | connect (k : Connective) {l : Value} {p : String × Value} (hl : JoinedFilter P l)
      (hp : FieldFilter P p) : JoinedFilter P (single (k.key, .list [l, single p]))

section Joined
variable {P : String → Prop}

theorem FieldFilter.condition {p : String × Value} (hp : FieldFilter P p) :
    ConditionFilter P (single p) := .test hp.key hp.plain hp.value

theorem JoinedFilter.condition {f : Value} (h : JoinedFilter P f) : ConditionFilter P f := by
  induction h with
  | test hp => exact hp.condition
  | connect k _ hp ih => exact .connect k ih hp.condition

theorem document_entry {t : Command.Test} {name : String} {v f : Value}
    (h : t.document (.text name) v = .ok f) : ∃ w, f = single (name, w) := by
  cases t with
  | between =>
    simp only [Command.Test.document, bind_ok] at h
    obtain ⟨bounds, -, hx⟩ := h
    cases hx
    exact ⟨_, rfl⟩
  | _ =>
    cases h
    exact ⟨_, rfl⟩

theorem comparison_entry {base? : Option Value} {i o v f : Value} {name : String}
    (hi : Command.fieldOf base? i = .ok (.text name))
    (h : Command.filter base? (.comparison i o v) = .ok f) : ∃ w, f = single (name, w) := by
  obtain ⟨t, -, hf⟩ := comparison_document hi h
  exact document_entry hf

/-- The filter of a comparison tests one field. -/
theorem term_field {base? : Option Value} {c : Condition} {f : Value} (ht : Term c)
    (h : Command.filter base? c.toValue = .ok f) :
    ∃ p, f = single p ∧ FieldFilter (fun _ => True) p := by
  have hshape := term_shape ht (fun _ _ => trivial) (fun _ _ => trivial) h
  obtain ⟨name, w, hplain, rfl⟩ : ∃ name w, Plain name ∧ f = single (name, w) := by
    cases ht with
    | @compare c r x hc =>
      rw [Condition.toValue] at h
      obtain ⟨w, hw⟩ := comparison_entry (field_of_ref base? c) h
      exact ⟨_, w, column_field_plain base? hc, hw⟩
    | @aggregate a r l ha =>
      rw [Condition.toValue] at h
      obtain ⟨w, hw⟩ := comparison_entry (field_of_aggregate base? a) h
      exact ⟨_, w, aggregate_name_plain a, hw⟩
    | @between c low high hc =>
      rw [Condition.toValue] at h
      obtain ⟨w, hw⟩ := comparison_entry (rfl : Command.fieldOf base? (.text c) = .ok (.text c)) h
      exact ⟨c, w, hc.plain, hw⟩
    | @inList c l ls hc =>
      rw [Condition.toValue] at h
      obtain ⟨w, hw⟩ := comparison_entry (field_of_ref base? c) h
      exact ⟨_, w, column_field_plain base? hc, hw⟩
    | @inQuery c q hc =>
      rw [Condition.toValue] at h
      obtain ⟨w, hw⟩ := comparison_entry (field_of_ref base? c) h
      exact ⟨_, w, column_field_plain base? hc, hw⟩
  refine ⟨(name, w), rfl, ?_⟩
  generalize hf : single (name, w) = f at hshape
  cases hshape with
  | test hkey hplain' hv =>
    cases hf
    exact ⟨hkey, hplain, hv⟩
  | connect k hl hr =>
    cases hf
    cases k <;> exact absurd rfl hplain

/-- The alternatives of a filter, those of nested filters in their place. -/
theorem flatten_joined {l : Value} (hl : JoinedFilter P l) :
    ∃ ps : List (String × Value), (∀ c ∈ ps.map single, ConditionFilter P c) ∧
      "$or" ∉ ps.map (·.1) ∧ ∀ xs rest, Command.flattenItems xs = .ok rest →
        Command.flattenItems (l :: xs) = .ok (ps.map single ++ rest) := by
  have hself : ∀ p : String × Value, ConditionFilter P (single p) → p.1 ≠ "$or" →
      ∃ ps : List (String × Value), (∀ c ∈ ps.map single, ConditionFilter P c) ∧
        "$or" ∉ ps.map (·.1) ∧ ∀ xs rest, Command.flattenItems xs = .ok rest →
          Command.flattenItems (single p :: xs) = .ok (ps.map single ++ rest) := by
    intro p hp hkey
    refine ⟨[p], by simpa using hp, by simpa using hkey.symm, fun xs rest hrest => ?_⟩
    simp [single, Command.flattenItems, Command.nested?, hkey, hrest]
  induction hl with
  | @test p hp => exact hself p hp.condition (plain_not_or hp.plain)
  | @connect k l p hl hp ih =>
    cases k with
    | both => exact hself _ (JoinedFilter.connect .both hl hp).condition (by simp [Connective.key])
    | either =>
      obtain ⟨ps, hps, hkeys, hflat⟩ := ih
      have hlast : Command.flattenItems [single p] = .ok [single p] :=
        @flatten_singles [p] (by simpa using (plain_not_or hp.plain).symm)
      have hnested : Command.flattenItems [l, single p] = .ok ((ps ++ [p]).map single) := by
        simpa using hflat [single p] [single p] hlast
      refine ⟨ps ++ [p], ?_, ?_, fun xs rest hrest => ?_⟩
      · rw [List.map_append]
        exact List.forall_mem_append.mpr ⟨hps, by simpa using hp.condition⟩
      · simpa using ⟨by simpa using hkeys, (plain_not_or hp.plain).symm⟩
      · simp only [single, Command.flattenItems, Command.nested?, Connective.key, Command.flatten,
          same_text, BEq.rfl, ↓reduceIte]
        rw [show (Value.dict [(.text p.1, p.2)]) = single p from rfl, hnested, hrest]
        rfl

/-- A disjunction is settled by the first pass. -/
theorem either_settled {l g r : Value} {p : String × Value} (hl : JoinedFilter P l)
    (hp : FieldFilter P p)
    (hg : Command.simplifyFilter (single (Connective.either.key, .list [l, single p])) = .ok g)
    (hr : Command.sortMembers g = .ok r) : Settled r := by
  obtain ⟨ps, hps, hkeys, hflat⟩ := flatten_joined hl
  have hlast : Command.flattenItems [single p] = .ok [single p] :=
    @flatten_singles [p] (by simpa using (plain_not_or hp.plain).symm)
  have hall : Command.flattenItems [l, single p] = .ok ((ps ++ [p]).map single) := by
    simpa using hflat [single p] [single p] hlast
  have hin : (Value.text "$or").isIn (single (Connective.either.key, .list [l, single p])) =
      .ok true := rfl
  have hentry : (single (Connective.either.key, .list [l, single p])).entry "$or" =
      .ok (.list [l, single p]) := rfl
  simp only [Command.simplifyFilter, hin, hentry, ok_bind, ↓reduceIte, Command.flatten, hall] at hg
  refine alternatives_settled (P := P) (p := p) (by simp) hp.plain ?_ ?_ hg hr
  · rw [List.map_append]
    exact List.forall_mem_append.mpr ⟨hps, by simpa using hp.condition⟩
  · simpa using ⟨by simpa using hkeys, (plain_not_or hp.plain).symm⟩

/-- Merging an entry adds its key, if it is new. -/
theorem merge_entry_keys (es : Entries) (k : String) (v : Value) :
    (Command.mergeEntry es (.text k) v).map (·.1) =
      if Entries.has es (.text k) then es.map (·.1) else es.map (·.1) ++ [.text k] := by
  unfold Command.mergeEntry
  cases hget : Entries.get? es (.text k) with
  | none => exact put_keys es k v
  | some old =>
    have hhas : Entries.has es (.text k) = true := by rw [has_eq_get, hget]; rfl
    rw [if_pos hhas]
    cases old with
    | dict os =>
      cases v with
      | dict new => exact (put_keys es k _).trans (if_pos hhas)
      | _ => rfl
    | _ => rfl

theorem both_merged (p p' : String × Value) :
    Command.simplifyFilter (single (Connective.both.key, .list [single p, single p'])) =
      .ok (.dict (Command.mergeEntry [(.text p.1, p.2)] (.text p'.1) p'.2)) := rfl

/-- A conjunction of two comparisons is settled by the first pass. -/
theorem both_settled {g r : Value} {p p' : String × Value} (hp : FieldFilter P p)
    (hp' : FieldFilter P p')
    (hg : Command.simplifyFilter (single (Connective.both.key, .list [single p, single p'])) =
      .ok g) (hr : Command.sortMembers g = .ok r) : Settled r := by
  rw [both_merged] at hg
  cases hg
  have hmerge : Command.merge [single p, single p'] =
      .ok (Command.mergeEntry [(.text p.1, p.2)] (.text p'.1) p'.2) := rfl
  have hshape := merge_shape (P := P) (by simpa using ⟨hp.condition, hp'.condition⟩) (by simp)
    hmerge
  refine field_keys_settled ?_ hshape hr
  rw [FieldKeys, merge_entry_keys]
  intro k hk
  split at hk
  · obtain rfl : k = .text p.1 := by simpa using hk
    exact ⟨p.1, rfl, hp.plain⟩
  · obtain rfl | rfl : k = .text p.1 ∨ k = .text p'.1 := by simpa using hk
    · exact ⟨p.1, rfl, hp.plain⟩
    · exact ⟨p'.1, rfl, hp'.plain⟩

/-- A filter with two entries. -/
def pair (p p' : String × Value) : Value := .dict [(.text p.1, p.2), (.text p'.1, p'.2)]

theorem both_apart {p p' : String × Value} (h : p.1 ≠ p'.1) :
    Command.simplifyFilter (single (Connective.both.key, .list [single p, single p'])) =
      .ok (pair p p') := by
  have hnone : Entries.get? [(.text p.1, p.2)] (.text p'.1) = none := by
    simp [Entries.get?, h]
  rw [both_merged]
  unfold Command.mergeEntry
  rw [hnone]
  simp [Entries.put, pair, h]

theorem sort_two {p p' : String × Value} {r : Value}
    (h : Command.sortMembers (pair p p') = .ok r) :
    ∃ q q', r = pair q q' ∧ SortedTo p q ∧ SortedTo p' q' := by
  simp only [pair, Command.sortMembers, bind_ok] at h
  obtain ⟨fs, hfs, hx⟩ := h
  cases hx
  obtain ⟨w, more, hw, hmore, rfl⟩ := sort_entries_parts hfs
  obtain ⟨w', last, hw', hlast, rfl⟩ := sort_entries_parts hmore
  cases hlast
  exact ⟨(p.1, w), (p'.1, w'), rfl, ⟨rfl, hw⟩, ⟨rfl, hw'⟩⟩

/-- Simplified alternatives have one entry. -/
theorem alternatives_one {flat : List Value} {g : Value} (h : Command.alternatives flat = .ok g) :
    ∃ e, g = .dict [e] := by
  rcases alternatives_form h with ⟨_, _, _, -, -, hg⟩ | ⟨_, _, _, _, _, -, -, -, hg⟩ | ⟨-, hg, -⟩
  · exact ⟨_, hg⟩
  · exact ⟨_, hg⟩
  · exact ⟨_, hg⟩

theorem sort_connected {l body : Value} {p : String × Value}
    (h : sortUnder (.list [l, single p]) = .ok body) :
    ∃ x p', Command.sortMembers l = .ok x ∧ SortedTo p p' ∧ body = .list [x, single p'] := by
  simp only [sortUnder, Command.isMembership, Bool.false_eq_true, ↓reduceIte, Command.sortMembers,
    Command.sortMemberItems, bind_ok] at h
  obtain ⟨ys, ⟨x, hx, zs, ⟨y, hy, last, hlast, hzs⟩, hys⟩, hbody⟩ := h
  cases hlast
  cases hzs
  cases hys
  cases hbody
  obtain ⟨p', rfl, hp'⟩ := sort_single_parts hy
  exact ⟨x, p', hx, hp', rfl⟩

theorem JoinedFilter.one {f : Value} (h : JoinedFilter P f) : ∃ p, f = single p := by
  cases h with
  | @test p hp => exact ⟨p, rfl⟩
  | connect k hl hp => exact ⟨_, rfl⟩

/-- What stands beside a conjunction is dropped. -/
theorem both_alone {v : Value} {q : String × Value} (hq : q.1 ≠ "$or") :
    Command.simplifyFilter (pair (Connective.both.key, v) q) =
      Command.simplifyFilter (single (Connective.both.key, v)) := by
  have hor : (Value.text "$or").isIn (pair (Connective.both.key, v) q) = .ok false := by
    simp [pair, Value.isIn, as_key_text, Entries.has, Connective.key, hq]
  unfold Command.simplifyFilter
  rw [hor]
  rfl

/-- What a nested filter leaves beside a comparison is simplified further by a second pass. -/
theorem nested_unsettled {k : Connective} {l r : Value} {p p' : String × Value}
    (hl : JoinedFilter P l) (hp : FieldFilter P p) (hp' : FieldFilter P p')
    (hr : Command.sortMembers (pair (k.key, .list [l, single p]) p') = .ok r) : ¬Settled r := by
  obtain ⟨⟨key, body⟩, q, rfl, ⟨rfl, hbody⟩, hq⟩ := sort_two hr
  obtain ⟨x, s, hx, hs, rfl⟩ := sort_connected hbody
  rintro ⟨g, hg, hagain⟩
  cases k with
  | either =>
    -- The alternatives are all that is left.
    change (do Command.alternatives (← Command.flatten (.list [x, single s]))) = .ok g at hg
    obtain ⟨flat, -, hg⟩ := bind_ok.mp hg
    obtain ⟨⟨key, v⟩, rfl⟩ := alternatives_one hg
    simp only [Command.sortMembers, bind_ok] at hagain
    obtain ⟨fs, hfs, hsame⟩ := hagain
    have hkeys := congrArg List.length (sort_entries_keys hfs)
    cases hsame
    simp at hkeys
  | both =>
    -- The nested conjunction is all that is left, and it is larger than what is in it.
    rw [both_alone (by rw [hq.1]; exact plain_not_or hp'.plain)] at hg
    obtain ⟨a, rfl⟩ := hl.one
    have hsorted := sort_members_again (condition_printable hl.condition) hx
    obtain ⟨b, rfl, -⟩ := sort_single_parts hx
    have hkey : b.1 = Connective.both.key := by
      rw [both_merged] at hg
      cases hg
      simp only [Command.sortMembers, bind_ok] at hagain
      obtain ⟨fs, hfs, hsame⟩ := hagain
      have hkeys := sort_entries_keys hfs
      cases hsame
      rw [merge_entry_keys] at hkeys
      split at hkeys
      · simp at hkeys
      · simpa using (List.cons.inj hkeys).1.symm
    have hne : b.1 ≠ s.1 := by
      rw [hkey, hs.1]
      exact (plain_not_and hp.plain).symm
    rw [both_apart hne] at hg
    cases hg
    obtain ⟨c, d, hcd, hc, -⟩ := sort_two hagain
    obtain ⟨b', hb, hbb⟩ := sort_single_parts hsorted
    have hbody : c.2 = .list [single b, single s] := by
      simp only [pair, Value.dict.injEq, List.cons.injEq, Prod.mk.injEq] at hcd
      exact hcd.1.2.symm
    have hself : b'.2 = b.2 := by
      simp only [single, Value.dict.injEq, List.cons.injEq, Prod.mk.injEq] at hb
      exact hb.1.2.symm
    have hloop : b.2 = .list [single b, single s] := by
      rw [← hbody, ← Except.ok.inj (hbb.2.symm.trans hc.2), hself]
    have hsize := congrArg sizeOf hloop
    simp [single] at hsize
    omega

end Joined

/-- A conjunction with more than two comparisons, or with alternatives on its left. -/
def nestedConjunction : Condition → Bool
  | .connect (.connect _ _ _) w _ => Keyword.ofWord? w.toList = some .andWord
  | _ => false

/-- The parts of the filter of joined conditions. -/
theorem filter_connected {base? : Option Value} {l r : Condition} {w : String} {f : Value}
    (hr : Term r)
    (hw : Keyword.ofWord? w.toList = some .andWord ∨ Keyword.ofWord? w.toList = some .orWord)
    (h : Command.filter base? (Condition.connect l w r).toValue = .ok f) :
    ∃ (k : Connective) (left : Value) (p : String × Value),
      Command.filter base? l.toValue = .ok left ∧ FieldFilter (fun _ => True) p ∧
      f = single (k.key, .list [left, single p]) ∧
      (k = .both ↔ Keyword.ofWord? w.toList = some .andWord) := by
  obtain ⟨k, hk, hboth⟩ : ∃ k : Connective, Command.connectiveOf (.text w) = .ok k.key ∧
      (k = .both ↔ Keyword.ofWord? w.toList = some .andWord) := by
    rcases hw with hw | hw
    · exact ⟨.both, connective_of_word ⟨.both, w, keyword_spelled hw⟩, by simp [hw]⟩
    · exact ⟨.either, connective_of_word ⟨.either, w, keyword_spelled hw⟩, by simp [hw]⟩
  rw [Condition.toValue, Command.filter] at h
  simp only [hk, ok_bind, bind_ok] at h
  obtain ⟨left, hleft, right, hright, hx⟩ := h
  cases hx
  obtain ⟨p, rfl, hp⟩ := term_field hr hright
  exact ⟨k, left, p, hleft, hp, rfl, hboth⟩

theorem comb_joined {base? : Option Value} {c : Condition} {f : Value} (hc : Comb c)
    (h : Command.filter base? c.toValue = .ok f) : JoinedFilter (fun _ => True) f := by
  induction hc generalizing f with
  | term ht =>
    obtain ⟨p, rfl, hp⟩ := term_field ht h
    exact .test hp
  | connect hl hw hr ih =>
    obtain ⟨k, left, p, hleft, hp, rfl, -⟩ := filter_connected hr hw h
    exact .connect k (ih hleft) hp

/-- The first pass settles the filter of a condition unless it is a nested conjunction. -/
theorem filter_settled_iff {base? : Option Value} {c : Condition} {f g r : Value} (hc : Comb c)
    (hf : Command.filter base? c.toValue = .ok f) (hg : Command.simplifyFilter f = .ok g)
    (hr : Command.sortMembers g = .ok r) : Settled r ↔ nestedConjunction c = false := by
  cases hc with
  | term ht =>
    obtain ⟨p, rfl, hp⟩ := term_field ht hf
    have hkeys : FieldKeys [(.text p.1, p.2)] := by simpa [FieldKeys] using hp.plain
    obtain rfl := Except.ok.inj ((field_keys_kept hkeys).symm.trans hg)
    have hnot : nestedConjunction c = false := by cases ht <;> rfl
    simpa [hnot] using field_keys_settled hkeys (condition_printable hp.condition) hr
  | @connect l t w hl hw ht =>
    obtain ⟨k, left, p, hleft, hp, rfl, hboth⟩ := filter_connected ht hw hf
    cases k with
    | either =>
      have hword : Keyword.ofWord? w.toList ≠ some .andWord := fun h => by cases hboth.mpr h
      have hnot : nestedConjunction (.connect l w t) = false := by
        cases l <;> simp [nestedConjunction, hword]
      simpa [hnot] using either_settled (comb_joined hl hleft) hp hg hr
    | both =>
      have hword := hboth.mp rfl
      cases hl with
      | term hl =>
        obtain ⟨p', rfl, hp'⟩ := term_field hl hleft
        have hnot : nestedConjunction (.connect l w t) = false := by cases hl <;> rfl
        simpa [hnot] using both_settled hp' hp hg hr
      | @connect l s v hl hv hs =>
        obtain ⟨k, first, p', hfirst, hp', rfl, -⟩ := filter_connected hs hv hleft
        have hne : k.key ≠ p.1 := by
          cases k
          · exact (plain_not_and hp.plain).symm
          · exact (plain_not_or hp.plain).symm
        obtain rfl := Except.ok.inj ((both_apart hne).symm.trans hg)
        have hnested : nestedConjunction (.connect (.connect l v s) w t) = true := by
          simp [nestedConjunction, hword]
        simpa [hnested] using nested_unsettled (comb_joined hl hfirst) hp' hp hr

theorem find_text_same (parts : FindParts) (s t : String) :
    Command.findCommandText (parts.toValue s) = Command.findCommandText (parts.toValue t) := by
  obtain ⟨collection, filter, projection, sort?, limit?⟩ := parts
  cases sort? <;> cases limit? <;> rfl

/-- A command that finds documents is left as it is if its filter is settled. -/
theorem find_again {parts : FindParts} {string : String} {simple : Value}
    (h : Command.simplify (parts.toValue string) = .ok simple) :
    ∃ g f, Command.simplifyFilter parts.filter = .ok g ∧ Command.sortMembers g = .ok f ∧
      (Command.simplify simple = .ok simple ↔ Settled f) := by
  obtain ⟨g, f, text, hg, hf, htext, rfl⟩ := simplified_find h
  refine ⟨g, f, hg, hf, fun hagain => ?_, ?_⟩
  · obtain ⟨g', f', text', hg', hf', -, hsame⟩ := simplified_find hagain
    have hentry := congrArg (Value.entry · "filter") hsame
    obtain rfl : f = f' := Except.ok.inj hentry
    exact ⟨g', hg', hf'⟩
  · rintro ⟨g', hg', hf'⟩
    rw [simplify_parts, hg', ok_bind, hf', ok_bind, find_text_same _ text string, htext]
    rfl

/-- Whether a stage is a filter, with the stage. -/
def markStage (s : Value) : Except Fault (Bool × Value) := do
  return (← (Value.text "$match").isIn s, s)

theorem marked_stages {stages : List Value} {marked : List (Bool × Value)}
    (h : stages.mapM markStage = .ok marked) : ∀ m ∈ marked, markStage m.2 = .ok m := by
  induction stages generalizing marked with
  | nil =>
    cases h
    simp
  | cons s stages ih =>
    rw [List.mapM_cons] at h
    simp only [bind_ok] at h
    obtain ⟨m, hm, rest, hrest, hx⟩ := h
    cases hx
    refine List.forall_mem_cons.mpr ⟨?_, ih hrest⟩
    obtain ⟨b, hb, hx⟩ := bind_ok.mp hm
    cases hx
    exact hm

theorem mark_again {marked : List (Bool × Value)} (h : ∀ m ∈ marked, markStage m.2 = .ok m) :
    (marked.map (·.2)).mapM markStage = .ok marked := by
  induction marked with
  | nil => rfl
  | cons m marked ih =>
    obtain ⟨hm, hrest⟩ := List.forall_mem_cons.mp h
    rw [List.map_cons, List.mapM_cons, hm, ok_bind, ih hrest]
    rfl

theorem filters_first_marked (stages : List Value) :
    Command.filtersFirst (.list stages) = do
      let marked ← stages.mapM markStage
      return (marked.filter (·.1) ++ marked.filter (!·.1)).map (·.2) := rfl

/-- Filters that are first stay there. -/
theorem filters_first_again {stages moved : List Value}
    (h : Command.filtersFirst (.list stages) = .ok moved) :
    Command.filtersFirst (.list moved) = .ok moved := by
  rw [filters_first_marked] at h
  obtain ⟨marked, hmarked, hx⟩ := bind_ok.mp h
  cases hx
  have hmarks : ∀ m ∈ marked.filter (·.1) ++ marked.filter (!·.1), markStage m.2 = .ok m := by
    intro m hm
    apply marked_stages hmarked
    rcases List.mem_append.mp hm with hm | hm
    · exact List.mem_of_mem_filter hm
    · exact List.mem_of_mem_filter hm
  rw [filters_first_marked, mark_again hmarks, ok_bind]
  simp [List.filter_filter]

/-- A simplified pipeline is left as it is. -/
theorem pipeline_again {string : String} {collection simple : Value} {stages : List Value}
    (h : Command.simplify (pipelineDocument string collection stages) = .ok simple) :
    Command.simplify simple = .ok simple := by
  simp only [simplify_moved, bind_ok] at h
  obtain ⟨moved, hmoved, text, htext, hx⟩ := h
  cases hx
  have htext' : Command.pipelineCommandText (pipelineDocument text collection moved) = .ok text :=
    htext
  rw [simplify_moved, filters_first_again hmoved, ok_bind, htext']
  rfl

/-- Whether a statement searches a table by a nested conjunction. -/
def searchesNested (q : Query) : Bool := searchesTable q && q.condition?.any nestedConjunction

/-- Simplifying the simplified command of a statement changes nothing, just if the statement does
not search a table by a conjunction that has another connective on its left. -/
theorem simplify_twice_exact {schema simple : Value} {sql : String} {line : Nat} {q : Query}
    (hparse : Sql.parse sql line = .ok q)
    (h : Pipeline.outcome schema sql line = .ok simple) :
    Pipeline.simplify simple = .ok simple ↔ searchesNested q = false := by
  obtain ⟨command, hcommand, hsimple⟩ := bind_ok.mp h
  obtain ⟨q', hq', -, htranslate⟩ := command_stages hcommand
  obtain rfl := Except.ok.inj (hparse.symm.trans hq')
  replace hsimple := map_error_ok.mp hsimple
  rw [Pipeline.simplify, map_error_ok]
  rcases translated htranslate with
    ⟨hsearch, string, collection, stages, rfl⟩ | ⟨hsearch, base?, parts, string, rfl, -, hfilter⟩
  · simp [searchesNested, hsearch, pipeline_again hsimple]
  · obtain ⟨g, f, hg, hf, hagain⟩ := find_again hsimple
    rw [hagain, searchesNested, hsearch, Bool.true_and]
    cases hc : q.condition? with
    | none =>
      rw [hc] at hfilter
      have hempty : Value.dict [] = parts.filter := Except.ok.inj hfilter
      rw [← hempty] at hg
      obtain rfl : Value.dict [] = g := Except.ok.inj hg
      obtain rfl : Value.dict [] = f := Except.ok.inj hf
      simpa using ⟨.dict [], hg, hf⟩
    | some c =>
      rw [hc, optionalCondition, filter_of_present] at hfilter
      rw [Option.any_some]
      exact filter_settled_iff (parse_comb hparse hc) hfilter hg hf

/-- The search for the users of two cities. -/
theorem simplify_twice_cities :
    Pipeline.outcome shopSchema twoCitiesText 1 =
      .ok (usersCommand (citiesFilter ["a", "b"]) citiesCommandText) ∧
    Pipeline.simplify (usersCommand (citiesFilter ["a", "b"]) citiesCommandText) =
      .ok (usersCommand (citiesFilter ["a", "b"]) citiesCommandText) :=
  ⟨two_cities_outcome, (simplify_twice_exact two_cities_parsed two_cities_outcome).mpr rfl⟩

/-- A table with three numbers. -/
def numbersSchema : Value :=
  doc [("t", doc [("a", .text "int"), ("b", .text "int"), ("c", .text "int")])]

/-- A command that searches the table. -/
def numbersCommand (filter : Entries) (text : String) : Value :=
  FindParts.toValue ⟨.text "t", .dict filter, .null, none, none⟩ text

/-- The alternatives on the left of `a=1 OR b=2 AND c=3`. -/
def leftAlternatives : Value × Value :=
  (.text "$or", .list [doc [("a", .int 1)], doc [("b", .int 2)]])

/-- The search for `a=1 OR b=2 AND c=3` loses the last comparison when it is simplified again. -/
theorem simplify_twice_loses :
    ¬ ∀ (schema simple : Value) (sql : String), Schema.check schema = .ok () →
      Pipeline.outcome schema sql 1 = .ok simple → Pipeline.simplify simple = .ok simple := by
  intro hall
  have honce : Pipeline.outcome numbersSchema mixedText 1 =
      .ok (numbersCommand [leftAlternatives, (.text "c", .int 3)]
        "db.t.find(\x7b $or: [ \x7b a: 1 \x7d, \x7b b: 2 \x7d ], c: 3 \x7d)") :=
    outcome_of_stages mixed_parsed rfl rfl rfl
  have htwice : Pipeline.simplify (numbersCommand [leftAlternatives, (.text "c", .int 3)]
        "db.t.find(\x7b $or: [ \x7b a: 1 \x7d, \x7b b: 2 \x7d ], c: 3 \x7d)") =
      .ok (numbersCommand [leftAlternatives]
        "db.t.find(\x7b $or: [ \x7b a: 1 \x7d, \x7b b: 2 \x7d ] \x7d)") := rfl
  have hsame := Except.ok.inj (htwice.symm.trans (hall _ _ _ rfl honce))
  have hfilter : (Except.ok (.dict [leftAlternatives]) : Except Fault Value) =
      .ok (.dict [leftAlternatives, (.text "c", .int 3)]) :=
    congrArg (Value.entry · "filter") hsame
  cases hfilter

end DocQuery.Proofs
