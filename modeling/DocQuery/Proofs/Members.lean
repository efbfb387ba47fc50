import DocQuery.Command.Simplify
import DocQuery.Proofs.Selectors

namespace DocQuery.Proofs

open Value (doc)

/-- Each scalar comes before all that follow. -/
def Ascending (vs : List Scalar) : Prop := vs.Pairwise (fun v w => v.lt w = true)

/-- Scalars of one type. -/
def OneType (vs : List Scalar) : Prop := ∀ v ∈ vs, ∀ w ∈ vs, v.isText = w.isText

theorem OneType.subset {vs ws : List Scalar} (h : OneType vs) (hs : ∀ w ∈ ws, w ∈ vs) :
    OneType ws :=
  fun v hv w hw => h v (hs v hv) w (hs w hw)

@[simp] theorem as_key_scalar (v : Scalar) : v.toValue.asKey = .ok () := by
  cases v <;> rfl

theorem keys_of_scalars (vs : List Scalar) :
    (vs.map Scalar.toValue).forM Value.asKey = .ok () := by
  rw [for_each_ok, List.forall_mem_map]
  exact fun v _ => as_key_scalar v

/-- The scalars that are kept while repetitions are dropped. -/
def keepNew (done : List Scalar) (v : Scalar) : List Scalar :=
  if v ∈ done then done else done ++ [v]

theorem keep_new_values (vs done : List Scalar) :
    (vs.map Scalar.toValue).foldl
        (fun done v => if done.any v.same then done else done ++ [v]) (done.map Scalar.toValue) =
      (vs.foldl keepNew done).map Scalar.toValue := by
  induction vs generalizing done with
  | nil => rfl
  | cons v vs ih =>
    have hany : (done.map Scalar.toValue).any v.toValue.same = decide (v ∈ done) := by
      rw [Bool.eq_iff_iff]
      simp
    simp only [List.map_cons, List.foldl_cons, hany, keepNew, ← ih]
    split <;> simp_all

theorem keep_new_spec (vs done : List Scalar) (hd : done.Nodup) :
    (vs.foldl keepNew done).Nodup ∧ ∀ w, w ∈ vs.foldl keepNew done ↔ w ∈ done ∨ w ∈ vs := by
  induction vs generalizing done with
  | nil => simpa using hd
  | cons v vs ih =>
    have hstep : (keepNew done v).Nodup ∧ ∀ w, w ∈ keepNew done v ↔ w ∈ done ∨ w = v := by
      unfold keepNew
      split
      · rename_i hv
        refine ⟨hd, fun w => ⟨.inl, ?_⟩⟩
        rintro (hw | rfl)
        · exact hw
        · exact hv
      · rename_i hv
        refine ⟨List.nodup_append.mpr ⟨hd, by simp, ?_⟩, by simp⟩
        intro w hw u hu
        rw [List.mem_singleton.mp hu]
        rintro rfl
        exact hv hw
    obtain ⟨hn, hm⟩ := ih (keepNew done v) hstep.1
    refine ⟨hn, fun w => ?_⟩
    rw [List.foldl_cons, hm, hstep.2, List.mem_cons, or_assoc]

/-- The distinct ones of scalars are found. -/
theorem distinct_scalars (vs : List Scalar) :
    ∃ ws : List Scalar, Command.distinct (vs.map Scalar.toValue) = .ok (ws.map Scalar.toValue) ∧
      ws.Nodup ∧ ∀ w, w ∈ ws ↔ w ∈ vs := by
  obtain ⟨hn, hm⟩ := keep_new_spec vs [] List.nodup_nil
  refine ⟨vs.foldl keepNew [], ?_, hn, by simpa using hm⟩
  have hvalues := keep_new_values vs []
  simp only [List.map_nil] at hvalues
  simp only [Command.distinct, keys_of_scalars, ok_bind, pure_ok, hvalues]

theorem insert_scalar {v : Scalar} {ws : List Scalar} (ho : OneType (v :: ws)) (hw : Ascending ws)
    (hv : v ∉ ws) :
    ∃ ms : List Scalar,
      Value.insertSorted v.toValue (ws.map Scalar.toValue) = .ok (ms.map Scalar.toValue) ∧
      Ascending ms ∧ ∀ u, u ∈ ms ↔ u = v ∨ u ∈ ws := by
  induction ws with
  | nil => exact ⟨[v], rfl, List.pairwise_singleton _ _, by simp⟩
  | cons w ws ih =>
    have hless := less_scalar (ho v (by simp) w (by simp))
    obtain ⟨hhead, htail⟩ := List.pairwise_cons.mp hw
    cases hlt : v.lt w with
    | true =>
      refine ⟨v :: w :: ws, by simp [Value.insertSorted, hless, hlt], ?_, by simp⟩
      refine List.pairwise_cons.mpr ⟨?_, hw⟩
      intro u hu
      rcases List.mem_cons.mp hu with rfl | hu
      · exact hlt
      · exact scalar_lt_trans hlt (hhead u hu)
    | false =>
      obtain ⟨ms, hms, hasc, hmem⟩ :=
        ih (ho.subset (by simp +contextual)) htail (fun hm => hv (List.mem_cons_of_mem _ hm))
      refine ⟨w :: ms, by simp [Value.insertSorted, hless, hlt, hms], ?_, ?_⟩
      · refine List.pairwise_cons.mpr ⟨?_, hasc⟩
        intro u hu
        rcases (hmem u).mp hu with rfl | hu
        · rcases scalar_lt_trichotomy (ho u (by simp) w (by simp)) with h | rfl | h
          · simp [hlt] at h
          · simp at hv
          · exact h
        · exact hhead u hu
      · intro u
        rw [List.mem_cons, hmem, List.mem_cons]
        tauto

/-- Distinct scalars of one type are sorted. -/
theorem sorted_scalars {vs : List Scalar} (ho : OneType vs) (hn : vs.Nodup) :
    ∃ ms : List Scalar, Value.sorted (vs.map Scalar.toValue) = .ok (ms.map Scalar.toValue) ∧
      Ascending ms ∧ ∀ w, w ∈ ms ↔ w ∈ vs := by
  suffices hfold : ∀ done : List Scalar, OneType (vs ++ done) → (∀ v ∈ vs, v ∉ done) →
      Ascending done → ∃ ms : List Scalar,
        (vs.map Scalar.toValue).foldlM (fun done v => Value.insertSorted v done)
          (done.map Scalar.toValue) = .ok (ms.map Scalar.toValue) ∧
        Ascending ms ∧ ∀ w, w ∈ ms ↔ w ∈ vs ∨ w ∈ done by
    obtain ⟨ms, hms, hasc, hmem⟩ := hfold [] (by simpa using ho) (by simp) List.Pairwise.nil
    exact ⟨ms, hms, hasc, by simpa using hmem⟩
  clear ho
  induction vs with
  | nil => exact fun done _ _ hd => ⟨done, rfl, hd, by simp⟩
  | cons v vs ih =>
    intro done ho hfresh hd
    obtain ⟨hv, hn⟩ := List.nodup_cons.mp hn
    have ho' : OneType (v :: done) := ho.subset (by simp +contextual)
    obtain ⟨next, hins, hasc, hmem⟩ := insert_scalar ho' hd (hfresh v (by simp))
    obtain ⟨ms, hms, hasc', hmem'⟩ := ih hn next
      (ho.subset (by intro w; rw [List.mem_append, hmem]; simp; tauto))
      (by
        intro w hw hnext
        rcases (hmem w).mp hnext with rfl | hdone
        · exact hv hw
        · exact hfresh w (by simp [hw]) hdone) hasc
    refine ⟨ms, by simp [List.foldlM_cons, hins, hms], hasc', fun w => ?_⟩
    rw [hmem', hmem, List.mem_cons]
    tauto

/-- The members of a list of one type are put in ascending order, each of them once. -/
theorem sorted_members {vs : List Scalar} (ho : OneType vs) :
    ∃ ms : List Scalar,
      Command.sortedMembers (.list (vs.map Scalar.toValue)) = .ok (.list (ms.map Scalar.toValue)) ∧
      Ascending ms ∧ ∀ w, w ∈ ms ↔ w ∈ vs := by
  obtain ⟨ws, hws, hn, hmem⟩ := distinct_scalars vs
  obtain ⟨ms, hms, hasc, hmem'⟩ := sorted_scalars (ho.subset (fun w hw => (hmem w).mp hw)) hn
  refine ⟨ms, ?_, hasc, fun w => (hmem' w).trans (hmem w)⟩
  simp [Command.sortedMembers, Value.items, hws, hms]

/-- The tests of the fields in a filter, from left to right. -/
def Selector.tests : Selector → List (String × FieldTest)
  | field name t => [(name, t)]
  | both l r => l.tests ++ r.tests
  | either l r => l.tests ++ r.tests

/-- The members in each list are of one type. -/
def SortableMembers (ts : List (String × FieldTest)) : Prop :=
  ∀ p ∈ ts, ∀ vs, p.2 = .among vs → OneType vs

theorem SortableMembers.subset {ts us : List (String × FieldTest)} (h : SortableMembers ts)
    (hs : ∀ p ∈ us, p ∈ ts) : SortableMembers us :=
  fun p hp => h p (hs p hp)

/-- What stands under a key, with its members sorted. -/
def sortUnder (v : Value) : Except Fault Value :=
  if Command.isMembership v then Command.sortTests v else Command.sortMembers v

theorem sort_entries_cons {k v v' : Value} {es es' : Entries} (hv : sortUnder v = .ok v')
    (hes : Command.sortMemberEntries es = .ok es') :
    Command.sortMemberEntries ((k, v) :: es) = .ok ((k, v') :: es') := by
  unfold sortUnder at hv
  unfold Command.sortMemberEntries
  split at hv
  · rename_i hm
    simp [hm, hv, hes]
  · rename_i hm
    simp [hm, hv, hes]

theorem sort_entries_parts {k v : Value} {es fs : Entries}
    (h : Command.sortMemberEntries ((k, v) :: es) = .ok fs) :
    ∃ w more, sortUnder v = .ok w ∧ Command.sortMemberEntries es = .ok more ∧
      fs = (k, w) :: more := by
  rw [Command.sortMemberEntries] at h
  cases hin : Command.isMembership v with
  | true =>
    simp only [hin, ↓reduceIte, bind_ok] at h
    obtain ⟨w, hw, more, hmore, hx⟩ := h
    cases hx
    exact ⟨w, more, by rw [sortUnder, hin]; exact hw, hmore, rfl⟩
  | false =>
    simp only [hin, Bool.false_eq_true, ↓reduceIte, bind_ok] at h
    obtain ⟨w, hw, more, hmore, hx⟩ := h
    cases hx
    exact ⟨w, more, by rw [sortUnder, hin]; exact hw, hmore, rfl⟩

theorem sort_entries_keys {es fs : Entries} (h : Command.sortMemberEntries es = .ok fs) :
    fs.map (·.1) = es.map (·.1) := by
  induction es generalizing fs with
  | nil =>
    cases h
    rfl
  | cons e es ih =>
    obtain ⟨w, more, -, hmore, rfl⟩ := sort_entries_parts h
    exact congrArg (e.1 :: ·) (ih hmore)

theorem sort_entries_nil : Command.sortMemberEntries [] = .ok [] := rfl

theorem sort_among {vs : List Scalar} (ho : OneType vs) :
    ∃ ms, sortUnder (FieldTest.among vs).toValue = .ok (FieldTest.among ms).toValue ∧
      Ascending ms ∧ ∀ w, w ∈ ms ↔ w ∈ vs := by
  obtain ⟨ms, hms, hasc, hmem⟩ := sorted_members ho
  refine ⟨ms, ?_, hasc, hmem⟩
  simp [FieldTest.toValue, doc, sortUnder, Command.isMembership, Entries.has, Command.sortTests,
    Entries.field, Entries.get?, Entries.put, hms]

/-- Sorting the members of one test leaves its meaning. -/
theorem sort_test {t : FieldTest} (h : ∀ vs, t = .among vs → OneType vs) :
    ∃ t' : FieldTest, sortUnder t.toValue = .ok t'.toValue ∧ ∀ x, t'.holds x = t.holds x := by
  cases t with
  | compare r v =>
    refine ⟨.compare r v, ?_, fun _ => rfl⟩
    cases r <;> cases v <;> rfl
  | between low high =>
    refine ⟨.between low high, ?_, fun _ => rfl⟩
    cases low <;> cases high <;> rfl
  | among vs =>
    obtain ⟨ms, hms, -, hmem⟩ := sort_among (h vs rfl)
    refine ⟨.among ms, hms, fun x => ?_⟩
    rw [Bool.eq_iff_iff]
    simp [FieldTest.holds, hmem]

theorem sort_single {k : String} {v v' : Value} (h : sortUnder v = .ok v') :
    Command.sortMembers (.dict [(.text k, v)]) = .ok (.dict [(.text k, v')]) := by
  simp [Command.sortMembers, sort_entries_cons h sort_entries_nil]

theorem sort_to_value {s s' : Selector} (hk : s'.key = s.key) (h : sortUnder s.body = .ok s'.body) :
    Command.sortMembers s.toValue = .ok s'.toValue := by
  rw [selector_single s, selector_single s', hk]
  exact sort_single h

theorem sort_pair {v v' w w' : Value} (hv : Command.sortMembers v = .ok v')
    (hw : Command.sortMembers w = .ok w') : sortUnder (.list [v, w]) = .ok (.list [v', w']) := by
  simp [sortUnder, Command.isMembership, Command.sortMembers, Command.sortMemberItems, hv, hw]

/-- Sorting the members in what stands under the key of a filter leaves its meaning. -/
theorem sort_body (s : Selector) (h : SortableMembers s.tests) :
    ∃ s' : Selector, s'.key = s.key ∧ sortUnder s.body = .ok s'.body ∧
      ∀ at_, s'.holds at_ = s.holds at_ := by
  induction s with
  | field name t =>
    obtain ⟨t', ht, hx⟩ := sort_test (t := t) (h (name, t) (by simp [Selector.tests]))
    exact ⟨.field name t', rfl, ht, fun at_ => hx (at_ name)⟩
  | both l r ihl ihr =>
    obtain ⟨l', hkl, hl, hxl⟩ := ihl (h.subset (by simp +contextual [Selector.tests]))
    obtain ⟨r', hkr, hr, hxr⟩ := ihr (h.subset (by simp +contextual [Selector.tests]))
    exact ⟨.both l' r', rfl, sort_pair (sort_to_value hkl hl) (sort_to_value hkr hr),
      fun at_ => by simp [Selector.holds, hxl, hxr]⟩
  | either l r ihl ihr =>
    obtain ⟨l', hkl, hl, hxl⟩ := ihl (h.subset (by simp +contextual [Selector.tests]))
    obtain ⟨r', hkr, hr, hxr⟩ := ihr (h.subset (by simp +contextual [Selector.tests]))
    exact ⟨.either l' r', rfl, sort_pair (sort_to_value hkl hl) (sort_to_value hkr hr),
      fun at_ => by simp [Selector.holds, hxl, hxr]⟩

/-- Sorting the members in each of several filters. -/
theorem sort_selectors (ss : List Selector) (h : SortableMembers (ss.flatMap Selector.tests)) :
    ∃ ss' : List Selector,
      Command.sortMemberItems (ss.map Selector.toValue) = .ok (ss'.map Selector.toValue) ∧
      ∀ at_, ss'.any (Selector.holds at_) = ss.any (Selector.holds at_) := by
  induction ss with
  | nil => exact ⟨[], rfl, fun _ => rfl⟩
  | cons s ss ih =>
    obtain ⟨s', hk, hs, hx⟩ := sort_body s (h.subset (by simp +contextual))
    obtain ⟨ss', hss, hxs⟩ := ih (h.subset (by simp +contextual))
    refine ⟨s' :: ss', ?_, fun at_ => by simp [hx, hxs]⟩
    simp [Command.sortMemberItems, sort_to_value hk hs, hss]

end DocQuery.Proofs
