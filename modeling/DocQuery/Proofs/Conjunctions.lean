import DocQuery.Proofs.FindCommands
import DocQuery.Proofs.Rows
import Mathlib.Data.List.Nodup

namespace DocQuery.Proofs

open Sql
open Value (doc)

/-- An operator of a filter with its operand. -/
inductive Operator where
  | ne (v : Scalar)
  | gt (v : Scalar)
  | ge (v : Scalar)
  | lt (v : Scalar)
  | le (v : Scalar)
  | among (vs : List Scalar)
deriving DecidableEq, Repr

namespace Operator

def key : Operator → String
  | ne _ => "$ne"
  | gt _ => "$gt"
  | ge _ => "$gte"
  | lt _ => "$lt"
  | le _ => "$lte"
  | among _ => "$in"

def operand : Operator → Value
  | ne v | gt v | ge v | lt v | le v => v.toValue
  | among vs => .list (vs.map Scalar.toValue)

def entry (o : Operator) : Value × Value := (.text o.key, o.operand)

def holds (x : Value) : Operator → Bool
  | ne v => !equals x v.toValue
  | gt v => before v.toValue x
  | ge v => before v.toValue x || equals x v.toValue
  | lt v => before x v.toValue
  | le v => before x v.toValue || equals x v.toValue
  | among vs => vs.any (fun v => equals x v.toValue)

theorem key_operator (o : Operator) : isOperator (.text o.key) = true := by
  cases o <;> simp [isOperator, key]

theorem passes_entry (x : Value) (o : Operator) : passesTest x o.entry = o.holds x := by
  cases o <;>
    simp [passesTest, passes, entry, key, operand, holds, membersOf, List.any_map,
      Function.comp_def]

end Operator

/-- The operators of a test; an equality has none. -/
def FieldTest.operators : FieldTest → List Operator
  | compare .eq _ => []
  | compare .ne v => [.ne v]
  | compare .gt v => [.gt v]
  | compare .lt v => [.lt v]
  | compare .ge v => [.ge v]
  | compare .le v => [.le v]
  | between low high => [.ge low, .le high]
  | among vs => [.among vs]

/-- What is left of two tests of one field: the first one where one of them is an equality, else
the second one with the operators of the first that it lacks. -/
def FieldTest.kept (first second : FieldTest) (x : Value) : Bool :=
  if first.operators = [] ∨ second.operators = [] then first.holds x
  else second.holds x && first.operators.all
    (fun o => second.operators.any (fun p => p.key == o.key) || o.holds x)

/-- A document that is selected after merging and was not before: the conjunction is of two tests of
one field, and its value passes what is left of them, but not both. -/
def gained (d : Entries) : List (String × FieldTest) → Bool
  | [(f, first), (g, second)] =>
    let x := Entries.field d f
    f == g && first.kept second x && !(first.holds x && second.holds x)
  | _ => false

/-- Operators as the entries of a document. -/
def operatorEntries (os : List Operator) : Entries := os.map Operator.entry

theorem equality_of_no_operators {t : FieldTest} (h : t.operators = []) :
    ∃ v, t = .compare .eq v := by
  cases t with
  | compare r v =>
    cases r with
    | eq => exact ⟨v, rfl⟩
    | ne | gt | lt | ge | le => cases h
  | between low high => cases h
  | among vs => cases h

/-- A test that is no equality is made of its operators. -/
theorem test_of_operators {t : FieldTest} (h : t.operators ≠ []) :
    t.toValue = .dict (operatorEntries t.operators) ∧ (t.operators.map Operator.key).Nodup ∧
      ∀ x, t.holds x = t.operators.all (Operator.holds x) := by
  cases t with
  | compare r v =>
    cases r with
    | eq => exact absurd rfl h
    | ne | gt | lt | ge | le =>
      refine ⟨rfl, by simp [FieldTest.operators], fun x => ?_⟩
      simp [FieldTest.holds, FieldTest.operators, Operator.holds]
  | between low high =>
    refine ⟨rfl, by simp [FieldTest.operators, Operator.key], fun x => ?_⟩
    simp [FieldTest.holds, FieldTest.operators, Operator.holds]
  | among vs =>
    refine ⟨rfl, by simp [FieldTest.operators], fun x => ?_⟩
    simp [FieldTest.holds, FieldTest.operators, Operator.holds]

/-- A document of operators is the conjunction of them. -/
theorem suits_operators (x : Value) {os : List Operator} (h : os ≠ []) :
    suits x (.dict (operatorEntries os)) = os.all (Operator.holds x) := by
  cases os with
  | nil => exact absurd rfl h
  | cons o os =>
    have hpasses : passesTest x ∘ Operator.entry = Operator.holds x :=
      funext (Operator.passes_entry x)
    have hfirst : isOperator o.entry.1 = true := o.key_operator
    rw [operatorEntries, List.map_cons, suits, if_pos hfirst, ← List.map_cons, List.all_map, hpasses]

/-- Puts an operator in the place of the one with its key, or at the end. -/
def putOperator : List Operator → Operator → List Operator
  | [], o => [o]
  | p :: ps, o => if p.key = o.key then o :: ps else p :: putOperator ps o

theorem put_operators (os : List Operator) (o : Operator) :
    Entries.put (operatorEntries os) (.text o.key) o.operand =
      operatorEntries (putOperator os o) := by
  induction os with
  | nil => rfl
  | cons p ps ih =>
    simp only [operatorEntries, List.map_cons, Operator.entry, Entries.put, same_text, beq_iff_eq,
      putOperator] at ih ⊢
    split
    · rename_i hk
      simp [hk, Operator.entry]
    · rw [ih]
      simp [Operator.entry]

theorem update_operators (os ns : List Operator) :
    Command.update (operatorEntries os) (operatorEntries ns) =
      operatorEntries (ns.foldl putOperator os) := by
  induction ns generalizing os with
  | nil => rfl
  | cons n ns ih =>
    have hstep := put_operators os n
    rw [List.foldl_cons, ← ih, ← hstep]
    rfl

theorem put_operator_keys (os : List Operator) (o : Operator) :
    (putOperator os o).map Operator.key =
      if o.key ∈ os.map Operator.key then os.map Operator.key
      else os.map Operator.key ++ [o.key] := by
  induction os with
  | nil => simp [putOperator]
  | cons p ps ih =>
    unfold putOperator
    by_cases hk : p.key = o.key
    · simp [hk]
    · have hk' : ¬ o.key = p.key := fun h => hk h.symm
      simp only [hk, ↓reduceIte, List.map_cons, ih, List.mem_cons, hk', false_or]
      split <;> simp

theorem put_operator_nodup {os : List Operator} (o : Operator)
    (h : (os.map Operator.key).Nodup) : ((putOperator os o).map Operator.key).Nodup := by
  rw [put_operator_keys]
  split
  · exact h
  · rename_i hk
    refine List.nodup_append.mpr ⟨h, by simp, ?_⟩
    intro k hm l hl
    rw [List.mem_singleton.mp hl]
    rintro rfl
    exact hk hm

/-- Putting an operator replaces the test with its key, if there is one. -/
theorem put_operator_all {os : List Operator} (o : Operator) (h : (os.map Operator.key).Nodup)
    (passed : Operator → Bool) :
    (putOperator os o).all passed =
      (passed o && os.all (fun p => p.key == o.key || passed p)) := by
  induction os with
  | nil => simp [putOperator]
  | cons p ps ih =>
    obtain ⟨hp, hps⟩ := List.nodup_cons.mp h
    unfold putOperator
    by_cases hk : p.key = o.key
    · have hrest : ps.all (fun p => p.key == o.key || passed p) = ps.all passed := by
        rw [Bool.eq_iff_iff, List.all_eq_true, List.all_eq_true]
        refine forall₂_congr fun q hq => ?_
        have hq' : q.key ≠ o.key := fun he => hp (hk.trans he.symm ▸ List.mem_map_of_mem hq)
        simp [hq']
      simp [hk, hrest]
    · simp only [hk, ↓reduceIte, List.all_cons, ih hps, beq_eq_false_iff_ne.mpr hk, Bool.false_or]
      rw [Bool.and_left_comm]

/-- After merging, the second operators count, and of the first those with other keys. -/
theorem merged_operators_all {os ns : List Operator} (ho : (os.map Operator.key).Nodup)
    (hn : (ns.map Operator.key).Nodup) (passed : Operator → Bool) :
    (ns.foldl putOperator os).all passed =
      (ns.all passed && os.all (fun o => ns.any (fun p => p.key == o.key) || passed o)) := by
  induction ns generalizing os with
  | nil => simp
  | cons n ns ih =>
    obtain ⟨hfresh, hns⟩ := List.nodup_cons.mp hn
    have hnone : ns.any (fun p => p.key == n.key) = false := by
      rw [List.any_eq_false]
      intro p hp he
      exact hfresh (eq_of_beq he ▸ List.mem_map_of_mem hp)
    have hkeys : (fun o => o.key == n.key || (ns.any (fun p => p.key == o.key) || passed o)) =
        fun o => (n :: ns).any (fun p => p.key == o.key) || passed o := by
      funext o
      rw [List.any_cons, Bool.or_assoc, BEq.comm]
    rw [List.foldl_cons, ih (put_operator_nodup n ho) hns, put_operator_all n ho, hkeys, hnone,
      Bool.false_or, List.all_cons, Bool.and_left_comm, Bool.and_assoc]

theorem field_of_operators {os : List Operator}
    (h : Entries.has (operatorEntries os) (.text "$in") = true) :
    ∃ vs, .among vs ∈ os ∧
      Entries.field (operatorEntries os) "$in" = .list (vs.map Scalar.toValue) := by
  induction os with
  | nil => cases h
  | cons o os ih =>
    cases o with
    | among vs =>
      exact ⟨vs, by simp, rfl⟩
    | ne v | gt v | ge v | lt v | le v =>
      obtain ⟨vs, hvs, hfield⟩ := ih h
      exact ⟨vs, by simp [hvs], hfield⟩

theorem sort_scalar (v : Scalar) : sortUnder v.toValue = .ok v.toValue := by
  cases v <;> rfl

/-- Operators without lists are left as they are. -/
theorem sort_plain_operators {os : List Operator}
    (h : Entries.has (operatorEntries os) (.text "$in") = false) :
    Command.sortMemberEntries (operatorEntries os) = .ok (operatorEntries os) := by
  induction os with
  | nil => rfl
  | cons o os ih =>
    cases o with
    | among vs => cases h
    | ne v | gt v | ge v | lt v | le v => exact sort_entries_cons (sort_scalar v) (ih h)

/-- Sorting the members among operators leaves their meaning. -/
theorem sort_operators {os : List Operator} (hn : (os.map Operator.key).Nodup)
    (ho : ∀ vs, .among vs ∈ os → OneType vs) :
    ∃ ps : List Operator,
      sortUnder (.dict (operatorEntries os)) = .ok (.dict (operatorEntries ps)) ∧
      ps.map Operator.key = os.map Operator.key ∧
      ∀ x, ps.all (Operator.holds x) = os.all (Operator.holds x) := by
  cases hin : Entries.has (operatorEntries os) (.text "$in") with
  | false =>
    refine ⟨os, ?_, rfl, fun _ => rfl⟩
    simp [sortUnder, Command.isMembership, hin, Command.sortMembers, sort_plain_operators hin]
  | true =>
    obtain ⟨vs, hvs, hfield⟩ := field_of_operators hin
    obtain ⟨ms, hms, -, hmem⟩ := sorted_members (ho vs hvs)
    have hput := put_operators os (.among ms)
    refine ⟨putOperator os (.among ms), ?_, ?_, fun x => ?_⟩
    · simp only [sortUnder, Command.isMembership, hin, ↓reduceIte, Command.sortTests, hfield, hms,
        ok_bind, pure_ok]
      rw [← hput]
      rfl
    · have hkey : (Operator.among ms).key ∈ os.map Operator.key := List.mem_map.mpr ⟨_, hvs, rfl⟩
      rw [put_operator_keys, if_pos hkey]
    · have hsame : (Operator.among ms).holds x = (Operator.among vs).holds x := by
        rw [Bool.eq_iff_iff]
        simp [Operator.holds, hmem]
      rw [put_operator_all _ hn, hsame, Bool.eq_iff_iff, Bool.and_eq_true, List.all_eq_true,
        List.all_eq_true]
      constructor
      · rintro ⟨hv, hrest⟩ o hmo
        rcases Bool.or_eq_true_iff.mp (hrest o hmo) with hk | hpassed
        · -- Keys occur once, so this is the operator that was replaced.
          rwa [List.inj_on_of_nodup_map hn hmo hvs (eq_of_beq hk)]
        · exact hpassed
      · intro hall
        exact ⟨hall _ hvs, fun o hmo => by simp [hall o hmo]⟩

theorem merge_pair (l : Selector) (g : String) (t : FieldTest) :
    Command.simplifyFilter (Selector.both l (.field g t)).toValue =
      .ok (.dict (Command.mergeEntry [(.text l.key, l.body)] (.text g) t.toValue)) := by
  have hl : l.toValue.asDict "items" = .ok [(.text l.key, l.body)] := by
    rw [selector_single]
    rfl
  have hmerge : Command.merge [l.toValue, (Selector.field g t).toValue] =
      .ok (Command.mergeEntry [(.text l.key, l.body)] (.text g) t.toValue) := by
    simp only [Command.merge, List.foldlM_cons, List.foldlM_nil, hl, ok_bind, pure_ok]
    rfl
  rw [Selector.toValue, doc]
  simp [Command.simplifyFilter, Value.isIn, Entries.has, Value.entry, Value.index, Entries.get?,
    Value.items, hmerge]

theorem merge_apart {l : Selector} {g : String} (v : Value) (h : l.key ≠ g) :
    Command.mergeEntry [(.text l.key, l.body)] (.text g) v =
      [(.text l.key, l.body), (.text g, v)] := by
  simp [Command.mergeEntry, Entries.get?, Entries.put, h]

theorem merge_equality (g : String) {first second : FieldTest}
    (h : first.operators = [] ∨ second.operators = []) :
    Command.mergeEntry [(.text g, first.toValue)] (.text g) second.toValue =
      [(.text g, first.toValue)] := by
  rcases h with h | h
  · obtain ⟨v, rfl⟩ := equality_of_no_operators h
    cases v <;> simp [Command.mergeEntry, Entries.get?, FieldTest.toValue, Scalar.toValue]
  · obtain ⟨v, rfl⟩ := equality_of_no_operators h
    cases v <;> simp [Command.mergeEntry, Entries.get?, FieldTest.toValue, Scalar.toValue]

theorem merge_operators (g : String) {first second : FieldTest} (hf : first.operators ≠ [])
    (hs : second.operators ≠ []) :
    Command.mergeEntry [(.text g, first.toValue)] (.text g) second.toValue =
      [(.text g,
        .dict (operatorEntries (second.operators.foldl putOperator first.operators)))] := by
  rw [(test_of_operators hf).1, (test_of_operators hs).1, ← update_operators]
  simp [Command.mergeEntry, Entries.get?, Entries.put]

theorem shell_operators (os : List Operator) :
    Succeeds (Command.shellText (.dict (operatorEntries os))) := by
  apply shell_dict
  rw [operatorEntries, List.forall_mem_map]
  intro o _
  refine ⟨.ok _, ?_⟩
  cases o with
  | among vs =>
    refine shell_list ?_
    rw [List.forall_mem_map]
    exact fun v _ => shell_scalar v
  | ne v | gt v | ge v | lt v | le v => exact shell_scalar v

theorem shell_test (t : FieldTest) : Succeeds (Command.shellText t.toValue) := by
  by_cases h : t.operators = []
  · obtain ⟨v, rfl⟩ := equality_of_no_operators h
    exact shell_scalar v
  · rw [(test_of_operators h).1]
    exact shell_operators _

theorem shell_single {k : String} {v : Value} (h : Succeeds (Command.shellText v)) :
    Succeeds (Command.shellText (.dict [(.text k, v)])) :=
  shell_dict (by simpa using ⟨.ok k, h⟩)

theorem shell_body (s : Selector) : Succeeds (Command.shellText s.body) := by
  induction s with
  | field name t => exact shell_test t
  | both l r ihl ihr =>
    refine shell_list ?_
    simpa [selector_single] using ⟨shell_single ihl, shell_single ihr⟩
  | either l r ihl ihr =>
    refine shell_list ?_
    simpa [selector_single] using ⟨shell_single ihl, shell_single ihr⟩

theorem shell_selector (s : Selector) : Succeeds (Command.shellText s.toValue) := by
  rw [selector_single]
  exact shell_single (shell_body s)

/-- A filter is sorted and shown, and selects the documents that are given. -/
def Settles (g : Value) (selects : (String → Value) → Bool) : Prop :=
  ∃ r, Command.sortMembers g = .ok r ∧ Succeeds (Command.shellText r) ∧
    ∀ at_, holds at_ r = selects at_

theorem settle_selector (s : Selector) (h : SortableMembers s.tests) :
    Settles s.toValue s.holds := by
  obtain ⟨u, hk, hu, hx⟩ := sort_body s h
  exact ⟨u.toValue, sort_to_value hk hu, shell_selector u, fun at_ => by rw [holds_to_value, hx]⟩

theorem settle_operators (g : String) {os : List Operator} (hne : os ≠ [])
    (hn : (os.map Operator.key).Nodup) (ho : ∀ vs, .among vs ∈ os → OneType vs) :
    Settles (.dict [(.text g, .dict (operatorEntries os))])
      (fun at_ => os.all (Operator.holds (at_ g))) := by
  obtain ⟨ps, hps, hkeys, hx⟩ := sort_operators hn ho
  have hpne : ps ≠ [] := by
    rintro rfl
    exact hne (List.map_eq_nil_iff.mp hkeys.symm)
  refine ⟨_, sort_single hps, shell_single (shell_operators ps), fun at_ => ?_⟩
  calc
    _ = suits (at_ g) (.dict (operatorEntries ps)) := holds_field at_ g _ (by simp)
    _ = ps.all (Operator.holds (at_ g)) := suits_operators (at_ g) hpne
    _ = os.all (Operator.holds (at_ g)) := hx (at_ g)

/-- Parts with different keys stay side by side. -/
theorem settle_apart (l r : Selector) (h : SortableMembers (l.tests ++ r.tests)) :
    Settles (.dict [(.text l.key, l.body), (.text r.key, r.body)])
      (Selector.both l r).holds := by
  obtain ⟨l', hkl, hl, hxl⟩ := sort_body l (h.subset (by simp +contextual))
  obtain ⟨r', hkr, hr, hxr⟩ := sort_body r (h.subset (by simp +contextual))
  refine ⟨.dict [(.text l'.key, l'.body), (.text r'.key, r'.body)], ?_, ?_, fun at_ => ?_⟩
  · rw [hkl, hkr, Command.sortMembers]
    simp [sort_entries_cons hl (sort_entries_cons hr sort_entries_nil)]
  · exact shell_dict (by simpa using ⟨⟨.ok _, shell_body l'⟩, .ok _, shell_body r'⟩)
  · rw [holds_cons, ← selector_single, ← selector_single, holds_to_value, holds_to_value, hxl, hxr]
    rfl

theorem mem_put_operator {os : List Operator} {n o : Operator} (h : o ∈ putOperator os n) :
    o ∈ os ∨ o = n := by
  induction os with
  | nil => exact .inr (List.mem_singleton.mp h)
  | cons p ps ih =>
    unfold putOperator at h
    split at h
    · rcases List.mem_cons.mp h with rfl | hm
      · exact .inr rfl
      · exact .inl (List.mem_cons_of_mem _ hm)
    · rcases List.mem_cons.mp h with rfl | hm
      · exact .inl List.mem_cons_self
      · exact (ih hm).imp (List.mem_cons_of_mem _) id

/-- Merged operators have different keys, and come from one side or the other. -/
theorem merged_operators {os : List Operator} (hne : os ≠ []) (ho : (os.map Operator.key).Nodup)
    (ns : List Operator) :
    ns.foldl putOperator os ≠ [] ∧ ((ns.foldl putOperator os).map Operator.key).Nodup ∧
      ∀ o ∈ ns.foldl putOperator os, o ∈ os ∨ o ∈ ns := by
  induction ns generalizing os with
  | nil => exact ⟨hne, ho, fun o hm => .inl hm⟩
  | cons n ns ih =>
    have hstep : putOperator os n ≠ [] := by
      unfold putOperator
      split
      · simp
      · split <;> simp
    obtain ⟨hne', hnodup, hmem⟩ := ih hstep (put_operator_nodup n ho)
    refine ⟨hne', hnodup, fun o hm => ?_⟩
    rcases hmem o hm with hm | hm
    · rcases mem_put_operator hm with hm | rfl
      · exact .inl hm
      · exact .inr List.mem_cons_self
    · exact .inr (List.mem_cons_of_mem _ hm)

theorem among_of_operators {t : FieldTest} {vs : List Scalar} (h : .among vs ∈ t.operators) :
    t = .among vs := by
  cases t with
  | compare r v => cases r <;> simp [FieldTest.operators] at h
  | between low high => simp [FieldTest.operators] at h
  | among ws =>
    obtain rfl : vs = ws := by simpa [FieldTest.operators] using h
    rfl

/-- Of two tests of one field, what is left decides. -/
theorem settle_same_field (g : String) (first second : FieldTest)
    (h : SortableMembers [(g, first), (g, second)]) :
    Settles (.dict (Command.mergeEntry [(.text g, first.toValue)] (.text g) second.toValue))
      (fun at_ => first.kept second (at_ g)) := by
  by_cases heq : first.operators = [] ∨ second.operators = []
  · rw [merge_equality g heq]
    simp only [FieldTest.kept, heq, ↓reduceIte]
    exact settle_selector (.field g first) (h.subset (by simp [Selector.tests]))
  · obtain ⟨hf, hs⟩ := not_or.mp heq
    obtain ⟨-, hfn, -⟩ := test_of_operators hf
    obtain ⟨-, hsn, hsx⟩ := test_of_operators hs
    obtain ⟨hne, hn, hmem⟩ := merged_operators hf hfn second.operators
    rw [merge_operators g hf hs]
    have hsettle := settle_operators g hne hn (by
      intro vs hvs
      rcases hmem _ hvs with hm | hm
      · exact h (g, first) (by simp) vs (among_of_operators hm)
      · exact h (g, second) (by simp) vs (among_of_operators hm))
    simpa only [FieldTest.kept, heq, ↓reduceIte, hsx, merged_operators_all hfn hsn] using hsettle

theorem kept_of_both {first second : FieldTest} {x : Value} (hf : first.holds x = true)
    (hs : second.holds x = true) : first.kept second x = true := by
  unfold FieldTest.kept
  split
  · exact hf
  · rename_i hne
    rw [(test_of_operators (not_or.mp hne).1).2.2, List.all_eq_true] at hf
    rw [hs, Bool.true_and, List.all_eq_true]
    exact fun o ho => by simp [hf o ho]

theorem gained_pair_only (d : Entries) {ts : List (String × FieldTest)} (h : ts.length ≠ 2) :
    gained d ts = false := by
  unfold gained
  split
  · simp at h
  · rfl

theorem tests_length_pos (s : Selector) : 0 < s.tests.length := by
  induction s with
  | field name t => simp [Selector.tests]
  | both l r ihl ihr => simp [Selector.tests, ihl]
  | either l r ihl ihr => simp [Selector.tests, ihl]

theorem nothing_gained_apart (d : Entries) {l : Selector} {g : String} (t : FieldTest)
    (h : l.key ≠ g) : gained d (l.tests ++ [(g, t)]) = false := by
  cases l with
  | field f first =>
    have hfg : f ≠ g := h
    simp [Selector.tests, gained, hfg]
  | both l r =>
    have hl := tests_length_pos l
    have hr := tests_length_pos r
    apply gained_pair_only
    simp only [Selector.tests, List.length_append, List.length_singleton]
    omega
  | either l r =>
    have hl := tests_length_pos l
    have hr := tests_length_pos r
    apply gained_pair_only
    simp only [Selector.tests, List.length_append, List.length_singleton]
    omega

/-- The parts of a conjunction are merged, sorted and shown, and only gained documents make a
difference. -/
theorem merge_settles {l : Selector} {g : String} {t : FieldTest} (hg : Plain g)
    (h : SortableMembers (Selector.both l (.field g t)).tests) :
    ∃ m r, Command.simplifyFilter (Selector.both l (.field g t)).toValue = .ok m ∧
      Command.sortMembers m = .ok r ∧ Succeeds (Command.shellText r) ∧
      ∀ d : Entries, ((holds (Entries.field d) r = true ↔
          (Selector.both l (.field g t)).holds (Entries.field d) = true) ↔
        gained d (Selector.both l (.field g t)).tests = false) := by
  by_cases hk : l.key = g
  · cases l with
    | field f first =>
      obtain rfl : f = g := hk
      obtain ⟨r, hr, hshell, hx⟩ := settle_same_field f first t h
      refine ⟨_, r, merge_pair _ _ _, hr, hshell, fun d => ?_⟩
      have hboth := @kept_of_both first t (Entries.field d f)
      rw [hx]
      cases hf : first.holds (Entries.field d f) <;> cases ht : t.holds (Entries.field d f) <;>
        simp_all [Selector.holds, Selector.tests, gained]
    | both l r => exact absurd hk.symm (plain_not_and hg)
    | either l r => exact absurd hk.symm (plain_not_or hg)
  · obtain ⟨r, hr, hshell, hx⟩ := settle_apart l (.field g t) h
    have hmerge := merge_pair l g t
    rw [merge_apart _ hk] at hmerge
    refine ⟨_, r, hmerge, hr, hshell, fun d => ?_⟩
    rw [hx]
    exact ⟨fun _ => nothing_gained_apart d t hk, fun _ => Iff.rfl⟩

/-- The statement that selects all users of which a condition is true. -/
def usersWhere (c : Condition) : Query := ⟨.all, .table "users", some c, [], none, [], none⟩

end DocQuery.Proofs
