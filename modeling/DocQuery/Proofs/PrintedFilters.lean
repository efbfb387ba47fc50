import DocQuery.Proofs.FilterTexts
import DocQuery.Proofs.Clauses
import DocQuery.Proofs.OneTable
import DocQuery.Proofs.Lines

namespace DocQuery.Proofs

open Sql
open Value (doc)

theorem IsName.key_text {s : String} (h : IsName s) : KeyText s :=
  ⟨fun hd => absurd (h.parts _ hd) (by decide), fun hd => absurd (h.parts _ hd) (by decide)⟩

theorem key_text_append {s t : String} (hs : KeyText s) (ht : KeyText t) : KeyText (s ++ t) := by
  simp only [KeyText, String.toList_append, List.mem_append, not_or]
  exact ⟨⟨hs.1, ht.1⟩, ⟨hs.2, ht.2⟩⟩

theorem column_field_key (base? : Option Value) {c : ColumnRef} (h : NamedColumn c) :
    KeyText (columnField base? c) := by
  unfold columnField
  split
  · rename_i t ht
    split
    · have hdot : KeyText "." := by decide
      exact key_text_append (key_text_append (h.2 t ht).key_text hdot) h.1.key_text
    · exact h.1.key_text
  · exact h.1.key_text

theorem aggregate_key {a : Aggregate} (h : ∀ f c, a = .call f c → IsName c) :
    KeyText (aggregateName a) := by
  cases a with
  | countAll => exact (by decide : KeyText "count")
  | call f c =>
    have hfunc : KeyText (Text.lower f.keyword.spelling ++ "_") := by
      cases f <;> decide
    rw [aggregateName]
    split
    · decide
    · exact key_text_append hfunc (h f c rfl).key_text

/-- A key of a filter under which there is no list of members. -/
def FilterKey (k : Value) : Prop := ∃ s, k = .text s ∧ KeyText s ∧ s ≠ "$in"

theorem FilterKey.entry {k : Value} (h : FilterKey k) (v : Value) : FilterEntry (k, v) := by
  obtain ⟨s, rfl, hs, hne⟩ := h
  exact ⟨⟨s, rfl, hs⟩, fun hin => absurd (Value.text.inj hin) hne⟩

theorem plain_key {s : String} (hs : KeyText s) (hp : Plain s) : FilterKey (.text s) :=
  ⟨s, rfl, hs, by rintro rfl; exact hp rfl⟩

/-- The filters of conditions: the tests of a field, or two filters with a connective. -/
inductive ConditionFilter (P : String → Prop) : Value → Prop where
  | test {name : String} {v : Value} (hkey : KeyText name) (hplain : Plain name)
      (hv : Printable P v) : ConditionFilter P (.dict [(.text name, v)])
  | connect (k : Connective) {l r : Value} (hl : ConditionFilter P l) (hr : ConditionFilter P r) :
      ConditionFilter P (.dict [(.text k.key, .list [l, r])])

section Filters
variable {P : String → Prop}

theorem single_printable {k v : Value} (hk : FilterEntry (k, v)) (hv : Printable P v) :
    Printable P (.dict [(k, v)]) :=
  .dict (by simp) (by simpa using hk) (by simpa using hv) (by simp)

theorem operator_printable {op : String} {v : Value} (hop : KeyText op) (hin : op ≠ "$in")
    (hv : Printable P v) : Printable P (doc [(op, v)]) :=
  single_printable (FilterKey.entry ⟨op, rfl, hop, hin⟩ v) hv

/-- The entry for the members of a list. -/
theorem members_entry (xs : List Value) : FilterEntry (.text "$in", .list xs) :=
  ⟨⟨_, rfl, by decide⟩, fun _ => ⟨xs, rfl⟩⟩

theorem connective_key (k : Connective) : FilterKey (.text k.key) := by
  cases k
  · exact ⟨"$and", rfl, by decide, by decide⟩
  · exact ⟨"$or", rfl, by decide, by decide⟩

/-- A filter of a condition has one entry. -/
theorem condition_entry {f : Value} (h : ConditionFilter P f) :
    ∃ k v, f = .dict [(k, v)] ∧ FilterKey k ∧ Printable P v := by
  induction h with
  | test hkey hplain hv => exact ⟨_, _, rfl, plain_key hkey hplain, hv⟩
  | connect k _ _ ihl ihr =>
    refine ⟨_, _, rfl, connective_key k, .list (by simp) ?_⟩
    obtain ⟨kl, vl, rfl, hkl, hvl⟩ := ihl
    obtain ⟨kr, vr, rfl, hkr, hvr⟩ := ihr
    intro x hx
    rcases List.mem_pair.mp hx with rfl | rfl
    · exact single_printable (hkl.entry vl) hvl
    · exact single_printable (hkr.entry vr) hvr

theorem condition_printable {f : Value} (h : ConditionFilter P f) : Printable P f := by
  obtain ⟨k, v, rfl, hk, hv⟩ := condition_entry h
  exact single_printable (hk.entry v) hv

theorem printable_filter {es : Entries} (h : Printable P (.dict es)) : FilterValue P (.dict es) :=
  ⟨es, rfl, fun _ => h⟩

theorem field_filter {k v : Value} (hk : FilterKey k) (hv : Printable P v) :
    FilterValue P (.dict [(k, v)]) :=
  printable_filter (single_printable (hk.entry v) hv)

theorem literal_printable {l : Literal} (h : ∀ s, l = .text s → P s) : Printable P l.toValue := by
  cases l with
  | number n => exact .int n
  | text s => exact .text (h s rfl)

theorem column_printable {c : ColumnRef} (hc : NamedColumn c) (hnames : ∀ s, IsName s → P s) :
    Printable P c.toValue := by
  have htable : Printable P (optionalText c.table?) := by
    cases ht : c.table? with
    | none => exact .null
    | some t => exact .text (hnames t (hc.2 t ht))
  have hkey : ∀ {s : String}, KeyText s → s ≠ "$in" → FilterKey (.text s) :=
    fun hs hne => ⟨_, rfl, hs, hne⟩
  refine .dict (by simp) ?_ ?_ (by simp)
  · simp only [List.map_cons, List.map_nil, List.forall_mem_cons, List.not_mem_nil,
      false_implies, implies_true, and_true]
    exact ⟨(hkey (by decide) (by decide)).entry _, (hkey (by decide) (by decide)).entry _⟩
  · simp only [List.map_cons, List.map_nil, List.forall_mem_cons, List.not_mem_nil,
      false_implies, implies_true, and_true]
    exact ⟨htable, .text (hnames _ hc.1)⟩

theorem between_printable {low high : Value} (hlow : Printable P low) (hhigh : Printable P high) :
    Printable P (doc [("$gte", low), ("$lte", high)]) := by
  have hkeys : FilterKey (.text "$gte") ∧ FilterKey (.text "$lte") :=
    ⟨⟨_, rfl, by decide, by decide⟩, ⟨_, rfl, by decide, by decide⟩⟩
  refine .dict (by simp) ?_ ?_ (by simp)
  · simpa using ⟨hkeys.1.entry _, hkeys.2.entry _⟩
  · simpa using ⟨hlow, hhigh⟩

/-- The tests of a field with one value. -/
theorem document_shape {t : Command.Test} {name : String} {v f : Value} (hkey : KeyText name)
    (hplain : Plain name) (hv : Printable P v) (hmember : t ≠ .member) (hbetween : t ≠ .between)
    (h : t.document (.text name) v = .ok f) : ConditionFilter P f := by
  cases t with
  | eq =>
    cases h
    exact .test hkey hplain hv
  | member => exact absurd rfl hmember
  | between => exact absurd rfl hbetween
  | _ =>
    cases h
    exact .test hkey hplain (operator_printable (by decide) (by decide) hv)

theorem relation_test {r : Relation} {t : Command.Test} (h : Command.testOf r.toValue = .ok t) :
    t ≠ .member ∧ t ≠ .between := by
  cases r <;> cases h <;> decide

theorem comparison_shape {base? : Option Value} {i v f : Value} {r : Relation} {name : String}
    (hi : Command.fieldOf base? i = .ok (.text name)) (hkey : KeyText name) (hplain : Plain name)
    (hv : Printable P v) (h : Command.filter base? (.comparison i r.toValue v) = .ok f) :
    ConditionFilter P f := by
  obtain ⟨t, ht, hf⟩ := comparison_document hi h
  exact document_shape hkey hplain hv (relation_test ht).1 (relation_test ht).2 hf

theorem term_shape {base? : Option Value} {c : Condition} {f : Value} (ht : Term c)
    (hnames : ∀ s, IsName s → P s) (hlits : ∀ s, .text s ∈ literalsOf c → P s)
    (h : Command.filter base? c.toValue = .ok f) : ConditionFilter P f := by
  cases ht with
  | @compare c r x hc hx =>
    rw [Condition.toValue] at h
    have hkey := column_field_key base? hc
    have hplain := column_field_plain base? hc
    cases x with
    | column d =>
      exact comparison_shape (field_of_ref base? c) hkey hplain
        (column_printable (hx d rfl) hnames) h
    | literal l =>
      refine comparison_shape (field_of_ref base? c) hkey hplain (literal_printable ?_) h
      rintro s rfl
      exact hlits s (by simp [literalsOf])
  | @aggregate a r l ha =>
    rw [Condition.toValue] at h
    refine comparison_shape (field_of_aggregate base? a) (aggregate_key ha)
      (aggregate_name_plain a) (literal_printable ?_) h
    rintro s rfl
    exact hlits s (by simp [literalsOf])
  | @between c low high hc =>
    have hlow : Printable P low.toValue :=
      literal_printable fun s hs => hlits s (by simp [literalsOf, hs])
    have hhigh : Printable P high.toValue :=
      literal_printable fun s hs => hlits s (by simp [literalsOf, hs])
    rw [Condition.toValue] at h
    obtain rfl := Except.ok.inj (h.symm.trans rfl)
    exact .test hc.key_text hc.plain (between_printable hlow hhigh)
  | @inList c l ls hc =>
    have hmembers : Printable P (.list ((l :: ls).map Literal.toValue)) := by
      refine .list (by simp) fun x hx => ?_
      obtain ⟨l', hl', rfl⟩ := List.mem_map.mp hx
      exact literal_printable fun s hs => hlits s (by rw [literalsOf]; exact hs ▸ hl')
    rw [Condition.toValue] at h
    simp only [Command.filter, field_of_ref, command_lift, ok_bind] at h
    obtain rfl := Except.ok.inj (h.symm.trans rfl)
    exact .test (column_field_key base? hc) (column_field_plain base? hc)
      (single_printable (members_entry _) hmembers)
  | inQuery hc =>
    -- A subquery has no filter: it is joined.
    rw [Condition.toValue] at h
    simp only [Command.filter, field_of_ref, command_lift, ok_bind] at h
    cases h

/-- What the filter of a condition is made of. -/
theorem condition_shape {base? : Option Value} {c : Condition} {f : Value} (hc : Comb c)
    (hnames : ∀ s, IsName s → P s) (hlits : ∀ s, .text s ∈ literalsOf c → P s)
    (h : Command.filter base? c.toValue = .ok f) : ConditionFilter P f := by
  induction hc generalizing f with
  | term ht => exact term_shape ht hnames hlits h
  | @connect l w r _ hw hr ih =>
    obtain ⟨k, hk⟩ := connective_of_keyword hw
    rw [Condition.toValue, Command.filter] at h
    simp only [hk, ok_bind, bind_ok] at h
    obtain ⟨left, hleft, right, hright, hx⟩ := h
    cases hx
    refine .connect k (ih (fun s hs => hlits s ?_) hleft)
      (term_shape hr hnames (fun s hs => hlits s ?_) hright)
    · rw [literalsOf]
      exact List.mem_append_left _ hs
    · rw [literalsOf]
      exact List.mem_append_right _ hs

/-- Documents with entries of filters, of which each has a key of its own. -/
structure FilterEntries (P : String → Prop) (es : Entries) : Prop where
  entry : ∀ e ∈ es, FilterEntry e
  value : ∀ e ∈ es, Printable P e.2
  keys : (es.map (·.1)).Nodup

theorem put_entries {es : Entries} {k : String} {v : Value} (hes : FilterEntries P es)
    (hk : FilterEntry (.text k, v)) (hv : Printable P v) :
    FilterEntries P (Entries.put es (.text k) v) where
  entry e he := by
    rcases put_mem he with he | rfl
    · exact hes.entry e he
    · exact hk
  value e he := by
    rcases put_mem he with he | rfl
    · exact hes.value e he
    · exact hv
  keys := put_nodup hes.keys k v

theorem put_not_empty (es : Entries) (k v : Value) : Entries.put es k v ≠ [] := by
  cases es with
  | nil => simp [Entries.put]
  | cons e es =>
    rw [Entries.put]
    split <;> simp

theorem update_entries {es fs : Entries} (hes : FilterEntries P es)
    (hentry : ∀ f ∈ fs, FilterEntry f) (hvalue : ∀ f ∈ fs, Printable P f.2) :
    FilterEntries P (Command.update es fs) := by
  induction fs generalizing es with
  | nil => exact hes
  | cons f fs ih =>
    obtain ⟨hf, hmore⟩ := List.forall_mem_cons.mp hentry
    obtain ⟨hv, hvalues⟩ := List.forall_mem_cons.mp hvalue
    obtain ⟨k, v⟩ := f
    obtain ⟨s, hs, -⟩ := hf.key
    obtain rfl : k = .text s := hs
    exact ih (put_entries hes hf hv) hmore hvalues

theorem update_not_empty {es fs : Entries} (hfs : fs ≠ []) : Command.update es fs ≠ [] := by
  induction fs generalizing es with
  | nil => exact absurd rfl hfs
  | cons f fs ih =>
    by_cases hrest : fs = []
    · rw [hrest]
      exact put_not_empty es f.1 f.2
    · exact ih hrest

/-- Merging an entry keeps the document a filter. -/
theorem merge_entry {es : Entries} {k v : Value} (hes : FilterEntries P es) (hk : FilterKey k)
    (hv : Printable P v) :
    FilterEntries P (Command.mergeEntry es k v) ∧ Command.mergeEntry es k v ≠ [] := by
  obtain ⟨s, rfl, hs, hne⟩ := hk
  have hentry : ∀ v, FilterEntry (.text s, v) := FilterKey.entry ⟨s, rfl, hs, hne⟩
  cases hget : Entries.get? es (.text s) with
  | none =>
    unfold Command.mergeEntry
    rw [hget]
    exact ⟨put_entries hes (hentry v) hv, put_not_empty es _ _⟩
  | some old =>
    -- A second test of a field is merged into the first, or dropped if one of them is a value.
    have hmem := get_entry hget
    have hold := hes.value _ hmem
    have hkeep : FilterEntries P es ∧ es ≠ [] := ⟨hes, List.ne_nil_of_mem hmem⟩
    cases hv with
    | @dict new hnew hnewentry hnewvalue _ =>
      cases hold with
      | @dict os hos hoentry hovalue hokeys =>
        have hupdate := update_entries ⟨hoentry, hovalue, hokeys⟩ hnewentry hnewvalue
        unfold Command.mergeEntry
        rw [hget]
        exact ⟨put_entries hes (hentry _) (.dict (update_not_empty hnew) hupdate.entry
          hupdate.value hupdate.keys), put_not_empty es _ _⟩
      | _ =>
        unfold Command.mergeEntry
        rw [hget]
        exact hkeep
    | _ =>
      unfold Command.mergeEntry
      rw [hget]
      cases old <;> exact hkeep

/-- Merging conditions makes a document of their entries. -/
theorem merge_shape {conditions : List Value} {es : Entries}
    (hcs : ∀ c ∈ conditions, ConditionFilter P c) (hne : conditions ≠ [])
    (h : Command.merge conditions = .ok es) : Printable P (.dict es) := by
  have hrun : ∀ cs done es, (∀ c ∈ cs, ConditionFilter P c) → FilterEntries P done →
      (cs ≠ [] ∨ done ≠ []) → cs.foldlM (fun es c => do
        return (← c.asDict "items").foldl (fun es f => Command.mergeEntry es f.1 f.2) es) done =
          (.ok es : Except Fault Entries) → FilterEntries P es ∧ es ≠ [] := by
    intro cs
    induction cs with
    | nil =>
      intro done es _ hdone hne h
      cases h
      exact ⟨hdone, hne.resolve_left (by simp)⟩
    | cons c cs ih =>
      intro done es hcs hdone _ h
      obtain ⟨hc, hrest⟩ := List.forall_mem_cons.mp hcs
      obtain ⟨k, v, rfl, hk, hv⟩ := condition_entry hc
      obtain ⟨hmerged, hmergedne⟩ := merge_entry hdone hk hv
      exact ih _ es hrest hmerged (.inr hmergedne) h
  obtain ⟨hes, hesne⟩ := hrun conditions [] es hcs ⟨by simp, by simp, by simp⟩ (.inl hne) h
  exact .dict hesne hes.entry hes.value hes.keys

/-- One alternative becomes one or more flat ones. -/
theorem flatten_one {x : Value} (hx : ConditionFilter P x) :
    ∃ here, here ≠ [] ∧ (∀ y ∈ here, ConditionFilter P y) ∧
      ∀ xs rest, Command.flattenItems xs = .ok rest →
        Command.flattenItems (x :: xs) = .ok (here ++ rest) := by
  have hself : ∀ {k v : Value}, ConditionFilter P (.dict [(k, v)]) → k.same (.text "$or") = false →
      ∃ here, here ≠ [] ∧ (∀ y ∈ here, ConditionFilter P y) ∧
        ∀ xs rest, Command.flattenItems xs = .ok rest →
          Command.flattenItems (.dict [(k, v)] :: xs) = .ok (here ++ rest) := by
    intro k v hself hk
    refine ⟨[.dict [(k, v)]], by simp, by simpa using hself, fun xs rest hrest => ?_⟩
    simp [Command.flattenItems, Command.nested?, hk, hrest]
  induction hx with
  | test hkey hplain hv => exact hself (.test hkey hplain hv) (by simpa using plain_not_or hplain)
  | @connect k l r hl hr ihl ihr =>
    cases k with
    | both => exact hself (.connect .both hl hr) (by decide)
    | either =>
      obtain ⟨left, hleftne, hleft, hflatleft⟩ := ihl
      obtain ⟨right, -, hright, hflatright⟩ := ihr
      refine ⟨left ++ right, by simp [hleftne], List.forall_mem_append.mpr ⟨hleft, hright⟩, ?_⟩
      intro xs rest hrest
      have hnested : Command.flattenItems [l, r] = .ok (left ++ right) := by
        simpa using hflatleft [r] right (by simpa using hflatright [] [] rfl)
      simp [Command.flattenItems, Command.nested?, Connective.key, Command.flatten, hnested, hrest]

theorem flatten_shape {l r : Value} {flat : List Value} (hl : ConditionFilter P l)
    (hr : ConditionFilter P r) (h : Command.flatten (.list [l, r]) = .ok flat) :
    flat ≠ [] ∧ ∀ y ∈ flat, ConditionFilter P y := by
  obtain ⟨left, hleftne, hleft, hflatleft⟩ := flatten_one hl
  obtain ⟨right, -, hright, hflatright⟩ := flatten_one hr
  have hflat : Command.flattenItems [l, r] = .ok (left ++ right) := by
    simpa using hflatleft [r] right (by simpa using hflatright [] [] rfl)
  rw [Command.flatten, hflat] at h
  cases h
  exact ⟨by simp [hleftne], List.forall_mem_append.mpr ⟨hleft, hright⟩⟩

theorem condition_singles {flat : List Value} (h : ∀ c ∈ flat, ConditionFilter P c) :
    ∃ ps : List (String × Value), flat = ps.map single ∧
      ∀ p ∈ ps, FilterKey (.text p.1) ∧ Printable P p.2 := by
  induction flat with
  | nil => exact ⟨[], rfl, by simp⟩
  | cons c cs ih =>
    obtain ⟨hc, hcs⟩ := List.forall_mem_cons.mp h
    obtain ⟨k, v, rfl, ⟨s, rfl, hs⟩, hv⟩ := condition_entry hc
    obtain ⟨ps, rfl, hps⟩ := ih hcs
    exact ⟨(s, v) :: ps, rfl, List.forall_mem_cons.mpr ⟨⟨⟨s, rfl, hs⟩, hv⟩, hps⟩⟩

/-- The bounds in printable tests are printable. -/
theorem bound_printable {v w : Value} (hv : Printable P v)
    (h : lowOf? v = some w ∨ onlyHighOf? v = some w) : Printable P w := by
  have h := h.imp_right only_high_some
  cases hv with
  | dict _ _ hvalue _ =>
    rcases h with h | h
    · exact hvalue _ (get_entry h)
    · exact hvalue _ (get_entry h)
  | _ => rcases h with h | h <;> cases h

/-- Distinct values are some of the values. -/
theorem distinct_values {vs ws : List Value} (h : Command.distinct vs = .ok ws) :
    (∀ w ∈ ws, w ∈ vs) ∧ (vs ≠ [] → ws ≠ []) := by
  have hrun : ∀ vs done : List Value,
      let ws := vs.foldl (fun done v => if done.any v.same then done else done ++ [v]) done
      (∀ w ∈ ws, w ∈ done ∨ w ∈ vs) ∧ (done ≠ [] ∨ vs ≠ [] → ws ≠ []) := by
    intro vs
    induction vs with
    | nil => exact fun done => ⟨fun w hw => .inl hw, fun h => h.resolve_right (by simp)⟩
    | cons v vs ih =>
      intro done
      rw [List.foldl_cons]
      split
      · rename_i hseen
        have hdone : done ≠ [] := by
          rintro rfl
          simp at hseen
        exact ⟨fun w hw => ((ih done).1 w hw).imp_right (List.mem_cons_of_mem v),
          fun _ => (ih done).2 (.inl hdone)⟩
      · refine ⟨fun w hw => ?_, fun _ => (ih _).2 (.inl (by simp))⟩
        rcases (ih _).1 w hw with hw | hw
        · rcases List.mem_append.mp hw with hw | hw
          · exact .inl hw
          · exact .inr (List.mem_singleton.mp hw ▸ List.mem_cons_self)
        · exact .inr (List.mem_cons_of_mem v hw)
  simp only [Command.distinct, bind_ok] at h
  obtain ⟨_, -, hx⟩ := h
  cases hx
  obtain ⟨hmem, hne⟩ := hrun vs []
  exact ⟨fun w hw => (hmem w hw).resolve_left (by simp), fun h => hne (.inr h)⟩

/-- Simplified alternatives are a filter. -/
theorem alternatives_shape {flat : List Value} {f : Value} (hne : flat ≠ [])
    (hflat : ∀ c ∈ flat, ConditionFilter P c) (h : Command.alternatives flat = .ok f) :
    FilterValue P f := by
  obtain ⟨ps, rfl, hps⟩ := condition_singles hflat
  have hsome : ps ≠ [] := by simpa using hne
  obtain ⟨p, hp⟩ := List.exists_mem_of_ne_nil ps hsome
  rcases alternatives_form h with
    ⟨field, vs, ws, he, hws, rfl⟩ | ⟨field, lows, highs, op, v, hb, hop, hv, rfl⟩ | ⟨-, rfl, -⟩
  · obtain ⟨n, hall, hr⟩ := (equalities_iff hsome).mp he
    cases hr
    obtain ⟨hmem, hwsne⟩ := distinct_values hws
    refine field_filter ((hall p hp).1 ▸ (hps p hp).1) (single_printable (members_entry ws)
      (.list (hwsne (by simpa using hsome)) fun w hw => ?_))
    obtain ⟨q, hq, rfl⟩ := List.mem_map.mp (hmem w hw)
    exact (hps q hq).2
  · obtain ⟨n, hall, hr⟩ := (bounds_iff hsome).mp hb
    cases hr
    have hvalue : Printable P v := by
      rcases List.mem_append.mp hv with hv | hv
      · obtain ⟨q, hq, hlow⟩ := List.mem_filterMap.mp hv
        exact bound_printable (hps q hq).2 (.inl hlow)
      · obtain ⟨q, hq, hhigh⟩ := List.mem_filterMap.mp hv
        exact bound_printable (hps q hq).2 (.inr hhigh)
    refine field_filter ((hall p hp).1 ▸ (hps p hp).1) ?_
    rcases hop with rfl | rfl
    · exact operator_printable (by decide) (by decide) hvalue
    · exact operator_printable (by decide) (by decide) hvalue
  · exact field_filter (connective_key .either)
      (.list hne fun c hc => condition_printable (hflat c hc))

/-- A simplified filter of a condition is a filter. -/
theorem simplify_filter_shape {f g : Value} (hf : ConditionFilter P f)
    (h : Command.simplifyFilter f = .ok g) : FilterValue P g := by
  cases hf with
  | @test name v hkey hplain hv =>
    have hin : ∀ key, name ≠ key → (Value.text key).isIn (.dict [(.text name, v)]) = .ok false :=
      fun key hne => by simp [Value.isIn, Entries.has, hne]
    rw [Command.simplifyFilter, hin _ (plain_not_or hplain)] at h
    simp only [ok_bind, hin _ (plain_not_and hplain), Bool.false_eq_true, ↓reduceIte] at h
    cases h
    exact field_filter (plain_key hkey hplain) hv
  | @connect k l r hl hr =>
    cases k with
    | both =>
      have hor : (Value.text "$or").isIn (.dict [(.text "$and", .list [l, r])]) = .ok false := rfl
      have hand : (Value.text "$and").isIn (.dict [(.text "$and", .list [l, r])]) = .ok true := rfl
      have hentry : (Value.dict [(.text "$and", .list [l, r])]).entry "$and" =
          .ok (.list [l, r]) := rfl
      rw [Connective.key, Command.simplifyFilter, hor] at h
      simp only [ok_bind, hand, hentry, Value.items, Bool.false_eq_true, ↓reduceIte, bind_ok] at h
      obtain ⟨es, hes, hx⟩ := h
      cases hx
      exact printable_filter (merge_shape (by simpa using ⟨hl, hr⟩) (by simp) hes)
    | either =>
      have hor : (Value.text "$or").isIn (.dict [(.text "$or", .list [l, r])]) = .ok true := rfl
      have hentry : (Value.dict [(.text "$or", .list [l, r])]).entry "$or" =
          .ok (.list [l, r]) := rfl
      rw [Connective.key, Command.simplifyFilter, hor] at h
      simp only [ok_bind, hentry, ↓reduceIte, bind_ok] at h
      obtain ⟨flat, hflat, h⟩ := h
      obtain ⟨hne, hconditions⟩ := flatten_shape hl hr hflat
      exact alternatives_shape hne hconditions h

theorem insert_sorted_mem {v : Value} {vs ws : List Value}
    (h : Value.insertSorted v vs = .ok ws) : ws ≠ [] ∧ ∀ w ∈ ws, w ∈ v :: vs := by
  induction vs generalizing ws with
  | nil =>
    cases h
    exact ⟨by simp, fun w hw => hw⟩
  | cons x vs ih =>
    simp only [Value.insertSorted, bind_ok] at h
    obtain ⟨b, -, h⟩ := h
    cases b with
    | true =>
      cases h
      exact ⟨by simp, fun w hw => hw⟩
    | false =>
      simp only [Bool.false_eq_true, ↓reduceIte, bind_ok] at h
      obtain ⟨rest, hrest, hx⟩ := h
      cases hx
      refine ⟨by simp, fun w hw => ?_⟩
      rcases List.mem_cons.mp hw with rfl | hw
      · simp
      · rcases List.mem_cons.mp ((ih hrest).2 w hw) with rfl | hw
        · exact List.mem_cons_self
        · exact List.mem_cons_of_mem v (List.mem_cons_of_mem x hw)

theorem sorted_values {vs ws : List Value} (h : Value.sorted vs = .ok ws) :
    (∀ w ∈ ws, w ∈ vs) ∧ (vs ≠ [] → ws ≠ []) := by
  have hrun : ∀ (vs done ws : List Value),
      vs.foldlM (fun done v => Value.insertSorted v done) done = .ok ws →
      (∀ w ∈ ws, w ∈ done ∨ w ∈ vs) ∧ (done ≠ [] ∨ vs ≠ [] → ws ≠ []) := by
    intro vs
    induction vs with
    | nil =>
      intro done ws h
      cases h
      exact ⟨fun w hw => .inl hw, fun h => h.resolve_right (by simp)⟩
    | cons v vs ih =>
      intro done ws h
      rw [List.foldlM_cons, bind_ok] at h
      obtain ⟨next, hnext, h⟩ := h
      obtain ⟨hne, hmem⟩ := insert_sorted_mem hnext
      obtain ⟨hws, hwsne⟩ := ih next ws h
      refine ⟨fun w hw => ?_, fun _ => hwsne (.inl hne)⟩
      rcases hws w hw with hw | hw
      · rcases List.mem_cons.mp (hmem w hw) with rfl | hw
        · exact .inr List.mem_cons_self
        · exact .inl hw
      · exact .inr (List.mem_cons_of_mem v hw)
  obtain ⟨hmem, hne⟩ := hrun vs [] ws h
  exact ⟨fun w hw => (hmem w hw).resolve_left (by simp), fun h => hne (.inr h)⟩

theorem sorted_members_shape {xs : List Value} {v : Value} (hxs : xs ≠ [])
    (hvalues : ∀ x ∈ xs, Printable P x) (h : Command.sortedMembers (.list xs) = .ok v) :
    ∃ ys, v = .list ys ∧ Printable P (.list ys) := by
  simp only [Command.sortedMembers, Value.items, ok_bind, bind_ok] at h
  obtain ⟨vs, hvs, h⟩ := h
  obtain ⟨hdistinct, hdistinctne⟩ := distinct_values hvs
  cases hws : Value.sorted vs with
  | error kinds =>
    rw [hws] at h
    cases h
  | ok ws =>
    rw [hws] at h
    cases h
    obtain ⟨hsorted, hsortedne⟩ := sorted_values hws
    exact ⟨ws, rfl, .list (hsortedne (hdistinctne hxs))
      fun w hw => hvalues w (hdistinct w (hsorted w hw))⟩

/-- Sorting the tests of a field sorts the members in them. -/
theorem sort_tests_parts {v w : Value} (hv : Printable P v) (hin : Command.isMembership v = true)
    (h : Command.sortTests v = .ok w) :
    ∃ es xs ys, FilterEntries P es ∧ (∀ x ∈ xs, Printable P x) ∧ Printable P (.list ys) ∧
      Command.sortedMembers (.list xs) = .ok (.list ys) ∧
      w = .dict (Entries.put es (.text "$in") (.list ys)) := by
  cases hv with
  | @dict es hes hentry hvalue hkeys =>
    rw [Command.isMembership, has_eq_get] at hin
    obtain ⟨members, hget⟩ := Option.isSome_iff_exists.mp hin
    have hmem := get_entry hget
    obtain ⟨xs, rfl⟩ : ∃ xs, members = .list xs := (hentry _ hmem).members rfl
    have hfield : Entries.field es "$in" = .list xs := by rw [Entries.field, hget]; rfl
    simp only [Command.sortTests, hfield, bind_ok] at h
    obtain ⟨sorted, hsorted, hx⟩ := h
    cases hx
    cases hvalue _ hmem with
    | list hxs hitems =>
      obtain ⟨ys, rfl, hys⟩ := sorted_members_shape hxs hitems hsorted
      exact ⟨es, xs, ys, ⟨hentry, hvalue, hkeys⟩, hitems, hys, hsorted, rfl⟩
  | _ => cases hin

theorem sort_tests_shape {v w : Value} (hv : Printable P v) (hin : Command.isMembership v = true)
    (h : Command.sortTests v = .ok w) : Printable P w := by
  obtain ⟨es, xs, ys, hes, -, hys, -, rfl⟩ := sort_tests_parts hv hin h
  have hput := put_entries hes (members_entry ys) hys
  exact .dict (put_not_empty es _ _) hput.entry hput.value hput.keys

theorem sort_items_shape {xs ys : List Value}
    (hxs : ∀ x ∈ xs, ∀ y, Command.sortMembers x = .ok y → Printable P y)
    (h : Command.sortMemberItems xs = .ok ys) :
    (xs ≠ [] → ys ≠ []) ∧ ∀ y ∈ ys, Printable P y := by
  induction xs generalizing ys with
  | nil =>
    cases h
    exact ⟨id, by simp⟩
  | cons x xs ih =>
    obtain ⟨hx, hrest⟩ := List.forall_mem_cons.mp hxs
    simp only [Command.sortMemberItems, bind_ok] at h
    obtain ⟨y, hy, ys, hys, hz⟩ := h
    cases hz
    exact ⟨by simp, List.forall_mem_cons.mpr ⟨hx y hy, (ih hrest hys).2⟩⟩

/-- A list stays a list. -/
theorem sort_list {xs : List Value} {w : Value} (h : Command.sortMembers (.list xs) = .ok w) :
    ∃ ys, w = .list ys := by
  simp only [Command.sortMembers, bind_ok] at h
  obtain ⟨ys, -, hx⟩ := h
  cases hx
  exact ⟨ys, rfl⟩

theorem sort_under_shape {k v w : Value} (he : FilterEntry (k, v)) (hv : Printable P v)
    (hsorted : ∀ w, Command.sortMembers v = .ok w → Printable P w) (h : sortUnder v = .ok w) :
    FilterEntry (k, w) ∧ Printable P w := by
  unfold sortUnder at h
  split at h
  · rename_i hin
    refine ⟨⟨he.key, fun hk => ?_⟩, sort_tests_shape hv hin h⟩
    obtain ⟨xs, rfl⟩ : ∃ xs, v = .list xs := he.members hk
    cases hin
  · refine ⟨⟨he.key, fun hk => ?_⟩, hsorted w h⟩
    obtain ⟨xs, rfl⟩ : ∃ xs, v = .list xs := he.members hk
    exact sort_list h

theorem sort_entries_shape {es fs : Entries} (hentry : ∀ e ∈ es, FilterEntry e)
    (hvalue : ∀ e ∈ es, Printable P e.2)
    (hsorted : ∀ e ∈ es, ∀ w, Command.sortMembers e.2 = .ok w → Printable P w)
    (h : Command.sortMemberEntries es = .ok fs) :
    (∀ f ∈ fs, FilterEntry f) ∧ ∀ f ∈ fs, Printable P f.2 := by
  induction es generalizing fs with
  | nil =>
    cases h
    exact ⟨by simp, by simp⟩
  | cons e es ih =>
    obtain ⟨he, hentries⟩ := List.forall_mem_cons.mp hentry
    obtain ⟨hv, hvalues⟩ := List.forall_mem_cons.mp hvalue
    obtain ⟨hsort, hsorts⟩ := List.forall_mem_cons.mp hsorted
    obtain ⟨w, more, hw, hmore, rfl⟩ := sort_entries_parts h
    obtain ⟨he', hw'⟩ := sort_under_shape he hv hsort hw
    obtain ⟨hentries', hvalues'⟩ := ih hentries hvalues hsorts hmore
    exact ⟨List.forall_mem_cons.mpr ⟨he', hentries'⟩, List.forall_mem_cons.mpr ⟨hw', hvalues'⟩⟩

/-- Sorting the members keeps a filter one. -/
theorem sort_members_shape {v w : Value} (hv : Printable P v)
    (h : Command.sortMembers v = .ok w) : Printable P w := by
  induction hv generalizing w with
  | null =>
    cases h
    exact .null
  | int n =>
    cases h
    exact .int n
  | text hs =>
    cases h
    exact .text hs
  | list hxs _ ih =>
    simp only [Command.sortMembers, bind_ok] at h
    obtain ⟨ys, hys, hx⟩ := h
    cases hx
    obtain ⟨hne, hitems⟩ := sort_items_shape (fun x hx y => ih x hx) hys
    exact .list (hne hxs) hitems
  | dict hes hentry hvalue hkeys ih =>
    simp only [Command.sortMembers, bind_ok] at h
    obtain ⟨fs, hfs, hx⟩ := h
    cases hx
    have hsame := sort_entries_keys hfs
    obtain ⟨hentries, hvalues⟩ := sort_entries_shape hentry hvalue (fun e he w => ih e he) hfs
    refine .dict ?_ hentries hvalues (hsame ▸ hkeys)
    rintro rfl
    exact hes (List.map_eq_nil_iff.mp hsame.symm)

theorem sort_filter_shape {f g : Value} (hf : FilterValue P f)
    (h : Command.sortMembers f = .ok g) : FilterValue P g := by
  obtain ⟨es, rfl, hes⟩ := hf
  have hsorted := fun hne => sort_members_shape (hes hne) h
  simp only [Command.sortMembers, bind_ok] at h
  obtain ⟨fs, hfs, hx⟩ := h
  cases hx
  refine ⟨fs, rfl, fun hne => hsorted ?_⟩
  rintro rfl
  cases hfs
  exact hne rfl

end Filters

/-- The text of a filter in a command. -/
def filterText (f : Value) : Except Fault String :=
  if f.present then Command.shellText f else .ok "\x7b\x7d"

theorem filter_text {P : String → Prop} {f : Value} (hf : FilterValue P f) :
    ∃ s, filterText f = .ok s ∧ s.toList = rendered (pieces f) := by
  rcases filter_cases hf with rfl | hprintable
  · exact ⟨"\x7b\x7d", rfl, rfl⟩
  · obtain ⟨s, hs, hchars⟩ := printed_pieces hprintable
    cases hprintable with
    | @dict es hes =>
      have hpresent : (Value.dict es).present = true := by simpa [Value.present] using hes
      exact ⟨s, by rw [filterText, if_pos hpresent, hs], hchars⟩
    | _ =>
      obtain ⟨es, hes, -⟩ := hf
      cases hes

/-- The text that an optional part adds. -/
def OptionalText (show? : Value → Except Fault String) (text : String → String) :
    Option Value → String → Prop
  | none, s => s = ""
  | some v, s => ∃ t, show? v = .ok t ∧ s = text t

theorem optional_text {show? : Value → Except Fault String} {v? : Option Value}
    (text : String → String) (h : ∀ v, v? = some v → Succeeds (show? v)) :
    ∃ s, OptionalText show? text v? s := by
  cases v? with
  | none => exact ⟨"", rfl⟩
  | some v =>
    obtain ⟨t, ht⟩ := h v rfl
    exact ⟨text t, t, ht, rfl⟩

/-- The texts of a filter and a projection go into the text of a command. -/
theorem find_head {filter projection : Value} {name s : String} {p? : Option String}
    (hfilter : filterText filter = .ok s)
    (hprojection : if projection.present then
      ∃ p, Command.shellText projection = .ok p ∧ p? = some p else p? = none) (a b : String) :
    (if filter.present = true then do
      let t ← Command.shellText filter
      if projection.present = true then do
        let p ← Command.shellText projection
        .ok (Command.findText name t (some p) ++ a ++ b)
      else .ok (Command.findText name t none ++ a ++ b)
    else if projection.present = true then do
      let p ← Command.shellText projection
      .ok (Command.findText name "\x7b\x7d" (some p) ++ a ++ b)
    else .ok (Command.findText name "\x7b\x7d" none ++ a ++ b)) =
      (.ok (Command.findText name s p? ++ a ++ b) : Except Fault String) := by
  unfold filterText at hfilter
  by_cases hp : projection.present = true
  · rw [if_pos hp] at hprojection
    obtain ⟨p, hshow, rfl⟩ := hprojection
    by_cases hf : filter.present = true
    · rw [if_pos hf] at hfilter
      simp only [hf, hp, hfilter, hshow, ↓reduceIte, ok_bind]
    · rw [if_neg hf] at hfilter
      cases hfilter
      simp only [hf, hp, hshow, Bool.false_eq_true, ↓reduceIte, ok_bind]
  · rw [if_neg hp] at hprojection
    subst hprojection
    by_cases hf : filter.present = true
    · rw [if_pos hf] at hfilter
      simp only [hf, hp, hfilter, Bool.false_eq_true, ↓reduceIte, ok_bind]
    · rw [if_neg hf] at hfilter
      cases hfilter
      simp only [hf, hp, Bool.false_eq_true, ↓reduceIte]

/-- The text of a command from the texts of its parts. -/
theorem find_text_value {parts : FindParts} {name s sort limit : String} {p? : Option String}
    (string : String) (hname : parts.collection.str = .ok name)
    (hfilter : filterText parts.filter = .ok s)
    (hprojection : if parts.projection.present then
      ∃ p, Command.shellText parts.projection = .ok p ∧ p? = some p else p? = none)
    (hsort : OptionalText Command.shellText Command.sortText parts.sort? sort)
    (hlimit : OptionalText Value.str Command.limitText parts.limit? limit) :
    Command.findCommandText (parts.toValue string) =
      .ok (Command.findText name s p? ++ sort ++ limit) := by
  have hcollection : (parts.toValue string).entry "collection" = .ok parts.collection := rfl
  have hfield : Entries.field (parts.entries string) "filter" = parts.filter := rfl
  have hshown : Entries.field (parts.entries string) "projection" = parts.projection := rfl
  unfold Command.findCommandText
  rw [hcollection, FindParts.to_value_entries]
  simp only [Value.asDict, pure_ok, ok_bind, hfield, hshown, FindParts.get_sort,
    FindParts.get_limit, hname]
  generalize parts.sort? = sort? at hsort
  generalize parts.limit? = limit? at hlimit
  cases sort? with
  | none =>
    obtain rfl : sort = "" := hsort
    cases limit? with
    | none =>
      obtain rfl : limit = "" := hlimit
      exact find_head hfilter hprojection _ _
    | some n =>
      obtain ⟨l, hl, rfl⟩ := hlimit
      simp only [hl, ok_bind]
      exact find_head hfilter hprojection _ _
  | some v =>
    obtain ⟨t, ht, rfl⟩ := hsort
    cases limit? with
    | none =>
      obtain rfl : limit = "" := hlimit
      simp only [ht, ok_bind]
      exact find_head hfilter hprojection _ _
    | some n =>
      obtain ⟨l, hl, rfl⟩ := hlimit
      simp only [ht, hl, ok_bind]
      exact find_head hfilter hprojection _ _

theorem find_text_filter (name : String) (p? : Option String) :
    ∃ after, ∀ s, Command.findText name s p? = "db." ++ name ++ ".find(" ++ s ++ after := by
  cases p? with
  | none => exact ⟨")", fun s => rfl⟩
  | some p =>
    refine ⟨", " ++ p ++ ")", fun s => ?_⟩
    simp only [Command.findText, String.append_assoc]
    rfl

/-- The text of a command is that of its filter between texts that the other parts make. -/
theorem find_text_around {parts : FindParts} (h : parts.Shown) :
    ∃ before after, ∀ f s string, filterText f = .ok s →
      Command.findCommandText ({ parts with filter := f }.toValue string) =
        .ok (before ++ s ++ after) := by
  obtain ⟨name, hname⟩ := h.collection
  obtain ⟨sort, hsort⟩ := optional_text Command.sortText h.sort
  obtain ⟨limit, hlimit⟩ := optional_text Command.limitText h.limit
  obtain ⟨p?, hp⟩ : ∃ p?, if parts.projection.present then
      ∃ p, Command.shellText parts.projection = .ok p ∧ p? = some p else p? = none := by
    split
    · rename_i hpresent
      obtain ⟨p, hp⟩ := h.projection hpresent
      exact ⟨some p, p, hp, rfl⟩
    · exact ⟨none, rfl⟩
  obtain ⟨after, hafter⟩ := find_text_filter name p?
  refine ⟨"db." ++ name ++ ".find(", after ++ sort ++ limit, fun f s string hf => ?_⟩
  rw [@find_text_value { parts with filter := f } name s sort limit p? string hname hf hp hsort
    hlimit, hafter]
  simp only [String.append_assoc]

/-- A pipeline is simplified to one without a filter of its own. -/
theorem simplified_pipeline {string : String} {collection command : Value} {stages : List Value}
    (h : Command.simplify (pipelineDocument string collection stages) = .ok command) (f : Value) :
    command.entry "filter" ≠ .ok f := by
  simp only [simplify_moved, bind_ok] at h
  obtain ⟨moved, -, text, -, hx⟩ := h
  cases hx
  intro hf
  cases hf

/-- A simplified command that finds documents has the simplified filter. -/
theorem simplified_find {parts : FindParts} {string : String} {command : Value}
    (h : Command.simplify (parts.toValue string) = .ok command) :
    ∃ g f text, Command.simplifyFilter parts.filter = .ok g ∧ Command.sortMembers g = .ok f ∧
      Command.findCommandText ({ parts with filter := f }.toValue string) = .ok text ∧
      command = { parts with filter := f }.toValue text := by
  simp only [simplify_parts, bind_ok] at h
  obtain ⟨g, hg, f, hf, text, htext, hx⟩ := h
  cases hx
  exact ⟨g, f, text, hg, hf, htext, rfl⟩

/-- Whether a statement only searches the rows of a table. -/
def searchesTable (q : Query) : Bool :=
  match q.source with
  | .table _ => !q.condition?.any asksQuery && !groupsRows q
  | _ => false

/-- A statement is translated to a command that finds documents if it only searches a table, and
else to a pipeline. -/
theorem translated {q : Query} {command : Value} (h : Command.translate q.toValue = .ok command) :
    (searchesTable q = false ∧
      ∃ string collection stages, command = pipelineDocument string collection stages) ∨
    (searchesTable q = true ∧
      ∃ base? parts string, command = FindParts.toValue parts string ∧ parts.Shown ∧
        Command.filterOf base? (optionalCondition q.condition?) = .ok parts.filter) := by
  have honly : ∀ {command}, RunsOnly joinOperators command →
      ∃ string collection stages, command = pipelineDocument string collection stages :=
    fun ⟨string, collection, stages, h, _⟩ => ⟨string, collection, stages, h⟩
  rw [translate_of] at h
  split at h
  · rename_i hasks
    refine .inl ⟨?_, honly (subquery_only (command_lift_ok.mp h))⟩
    unfold searchesTable
    cases q.source <;> simp [hasks]
  · rename_i hasks
    cases hs : q.source with
    | join a b on =>
      rw [hs] at h
      exact .inl ⟨by simp [searchesTable, hs], honly (clause_join_only hs h)⟩
    | tables a b more =>
      rw [hs] at h
      exact .inl ⟨by simp [searchesTable, hs], honly (comma_join_only hs h)⟩
    | table a =>
      rw [hs] at h
      dsimp only at h
      split at h
      · rename_i hgroups
        obtain ⟨string, collection, stages, hcommand, -⟩ := group_stages h
        exact .inl ⟨by simp [searchesTable, hs, hgroups], string, collection, stages, hcommand⟩
      · rename_i hgroups
        obtain ⟨parts, string, hcommand, hshown, hfilter, -⟩ := find_command_parts h
        exact .inr ⟨by simpa [searchesTable, hs, hasks] using hgroups, _, parts, string, hcommand,
          hshown, hfilter⟩

/-- The simplified command of a statement, if it has a filter. -/
structure FindOutcome (q : Query) (parts : FindParts) (command : Value) : Prop where
  shown : parts.Shown
  text : ∃ string text, Command.findCommandText (parts.toValue string) = .ok text ∧
    command = parts.toValue text
  filter : ∀ P : String → Prop, (∀ s, IsName s → P s) →
    (∀ c, q.condition? = some c → ∀ s, .text s ∈ literalsOf c → P s) → FilterValue P parts.filter

theorem find_outcome {schema command f : Value} {sql : String} {line : Nat}
    (h : Pipeline.outcome schema sql line = .ok command) (hf : command.entry "filter" = .ok f) :
    ∃ q parts, Sql.parse sql line = .ok q ∧ parts.filter = f ∧ FindOutcome q parts command := by
  obtain ⟨first, hfirst, hsimple⟩ := bind_ok.mp h
  obtain ⟨q, hq, -, htranslate⟩ := command_stages hfirst
  have hsimple := map_error_ok.mp hsimple
  rcases translated htranslate with
    ⟨-, string, collection, stages, rfl⟩ | ⟨-, base?, parts, string, rfl, hshown, hfilter⟩
  · exact absurd hf (simplified_pipeline hsimple f)
  · obtain ⟨g, r, text, hg, hr, htext, rfl⟩ := simplified_find hsimple
    obtain rfl : r = f := Except.ok.inj hf
    refine ⟨q, { parts with filter := r }, hq, rfl,
      ⟨⟨hshown.collection, hshown.projection, hshown.sort, hshown.limit⟩,
        ⟨string, text, htext, rfl⟩, fun P hnames hlits => ?_⟩⟩
    cases hc : q.condition? with
    | none =>
      have hempty : Value.dict [] = parts.filter := by
        rw [hc] at hfilter
        exact Except.ok.inj hfilter
      rw [← hempty] at hg
      obtain rfl : Value.dict [] = g := Except.ok.inj hg
      obtain rfl : Value.dict [] = r := Except.ok.inj hr
      exact ⟨[], rfl, fun hne => absurd rfl hne⟩
    | some c =>
      rw [hc, optionalCondition, filter_of_present] at hfilter
      have hcondition := condition_shape (parse_comb hq hc) hnames (hlits c hc) hfilter
      exact sort_filter_shape (simplify_filter_shape hcondition hg) hr

/-- No text in the condition of a statement breaks out of its quotes. -/
def KeepsQuotes (sql : String) (line : Nat) : Prop :=
  ∀ q c s, Sql.parse sql line = .ok q → q.condition? = some c → .text s ∈ literalsOf c →
    ¬BreaksOut s

instance (s : String) : Decidable (BreaksOut s) :=
  inferInstanceAs (Decidable (∃ stop ∈ valueEnds, '"' :: stop.toList <:+: s.toList))

theorem name_keeps_quotes {s : String} (h : IsName s) : ¬BreaksOut s := by
  rintro ⟨stop, -, hin⟩
  exact h.key_text.2 (hin.mem List.mem_cons_self)

theorem entry_elim (es : Entries) (key : String) : (Value.dict es).entry key =
    (Entries.get? es (.text key)).elim (.error (.noKey (Value.text key).keyText)) .ok := by
  simp only [Value.entry, Value.index, as_key_text, ok_bind]
  cases Entries.get? es (.text key) <;> rfl

/-- Commands with the same entries but for their filters have the same parts but for these. -/
theorem parts_but_filter {parts₁ parts₂ : FindParts} {text₁ text₂ : String}
    (h : ∀ key ∈ ["collection", "projection", "sort", "limit"],
      (parts₁.toValue text₁).entry key = (parts₂.toValue text₂).entry key) :
    parts₂ = { parts₁ with filter := parts₂.filter } := by
  have hsome : ∀ {e : Fault} {v? w? : Option Value},
      v?.elim (.error e) .ok = (w?.elim (.error e) .ok : Except Fault Value) → w? = v? := by
    intro e v? w? h
    cases v? <;> cases w? <;> cases h <;> rfl
  have hcollection : parts₁.collection = parts₂.collection :=
    Except.ok.inj (h "collection" (by simp))
  have hprojection : parts₁.projection = parts₂.projection :=
    Except.ok.inj (h "projection" (by simp))
  have hsort := h "sort" (by simp)
  have hlimit := h "limit" (by simp)
  rw [FindParts.to_value_entries, FindParts.to_value_entries, entry_elim, entry_elim]
    at hsort hlimit
  rw [FindParts.get_sort, FindParts.get_sort] at hsort
  rw [FindParts.get_limit, FindParts.get_limit] at hlimit
  cases parts₂
  simp only [FindParts.mk.injEq, true_and]
  exact ⟨hcollection.symm, hprojection.symm, hsome hsort, hsome hlimit⟩

/-- Commands that agree but for their filters have the same text just if the filters are equal or
one imitates the other. -/
theorem command_texts_alike {P : String → Prop} {parts₁ parts₂ : FindParts} {q₁ q₂ : Query}
    {command₁ command₂ : Value} (h₁ : FindOutcome q₁ parts₁ command₁)
    (h₂ : FindOutcome q₂ parts₂ command₂) (hf₁ : FilterValue P parts₁.filter)
    (hf₂ : FilterValue P parts₂.filter)
    (hrest : ∀ key ∈ ["collection", "projection", "sort", "limit"],
      command₁.entry key = command₂.entry key) :
    Pipeline.textOf command₁ = Pipeline.textOf command₂ ↔ parts₁.filter = parts₂.filter ∨
      Imitates parts₁.filter parts₂.filter ∨ Imitates parts₂.filter parts₁.filter := by
  obtain ⟨string₁, text₁, htext₁, rfl⟩ := h₁.text
  obtain ⟨string₂, text₂, htext₂, rfl⟩ := h₂.text
  obtain ⟨before, after, haround⟩ := find_text_around h₁.shown
  obtain ⟨s₁, hs₁, hchars₁⟩ := filter_text hf₁
  obtain ⟨s₂, hs₂, hchars₂⟩ := filter_text hf₂
  have hfirst : text₁ = before ++ s₁ ++ after :=
    Except.ok.inj (htext₁.symm.trans (haround parts₁.filter s₁ string₁ hs₁))
  have hsecond : text₂ = before ++ s₂ ++ after := by
    rw [parts_but_filter hrest] at htext₂
    exact Except.ok.inj (htext₂.symm.trans (haround parts₂.filter s₂ string₂ hs₂))
  have htexts : Pipeline.textOf (parts₁.toValue text₁) = Pipeline.textOf (parts₂.toValue text₂) ↔
      text₁ = text₂ :=
    ⟨fun h => Value.text.inj (Option.some.inj h), fun h => congrArg (some ∘ Value.text) h⟩
  rw [htexts, hfirst, hsecond, String.append_left_inj, String.append_right_inj,
    ← String.toList_inj, hchars₁, hchars₂]
  exact filters_alike hf₁ hf₂

theorem filter_same_self {P : String → Prop} {f : Value} (hf : FilterValue P f) :
    f.same f = true := by
  rcases filter_cases hf with rfl | hf
  · decide
  · exact same_self hf

/-- Different filters in commands that agree otherwise are printed differently, unless one of them
imitates the other. None does if no text in the conditions breaks out of its quotes. -/
theorem printed_filters_distinct {schema₁ schema₂ command₁ command₂ f₁ f₂ : Value}
    {sql₁ sql₂ : String} {line₁ line₂ : Nat}
    (h₁ : Pipeline.outcome schema₁ sql₁ line₁ = .ok command₁)
    (h₂ : Pipeline.outcome schema₂ sql₂ line₂ = .ok command₂)
    (hf₁ : command₁.entry "filter" = .ok f₁) (hf₂ : command₂.entry "filter" = .ok f₂)
    (hrest : ∀ key ∈ ["collection", "projection", "sort", "limit"],
      command₁.entry key = command₂.entry key) :
    ((f₁.same f₂ = false → Pipeline.textOf command₁ ≠ Pipeline.textOf command₂) ↔
      ¬(Imitates f₁ f₂ ∨ Imitates f₂ f₁)) ∧
    (KeepsQuotes sql₁ line₁ → KeepsQuotes sql₂ line₂ → f₁.same f₂ = false →
      Pipeline.textOf command₁ ≠ Pipeline.textOf command₂) := by
  obtain ⟨q₁, parts₁, hq₁, rfl, hfind₁⟩ := find_outcome h₁ hf₁
  obtain ⟨q₂, parts₂, hq₂, rfl, hfind₂⟩ := find_outcome h₂ hf₂
  -- Whether the texts are alike is decided for filters with any texts.
  have hany₁ := hfind₁.filter (fun _ => True) (fun _ _ => trivial) (fun _ _ _ _ => trivial)
  have hany₂ := hfind₂.filter (fun _ => True) (fun _ _ => trivial) (fun _ _ _ _ => trivial)
  have halike := command_texts_alike hfind₁ hfind₂ hany₁ hany₂ hrest
  have hexact : (parts₁.filter.same parts₂.filter = false →
      Pipeline.textOf command₁ ≠ Pipeline.textOf command₂) ↔
      ¬(Imitates parts₁.filter parts₂.filter ∨ Imitates parts₂.filter parts₁.filter) := by
    refine ⟨fun hclaim himitates => ?_, fun hnone hdiffer htexts => ?_⟩
    · exact hclaim (imitates_not_same hany₁ hany₂ himitates) (halike.mpr (.inr himitates))
    · rcases halike.mp htexts with heq | himitates
      · rw [← heq, filter_same_self hany₁] at hdiffer
        cases hdiffer
      · exact hnone himitates
  refine ⟨hexact, fun hkeep₁ hkeep₂ => hexact.mpr ?_⟩
  have hkept₁ := hfind₁.filter (fun s => ¬BreaksOut s) (fun _ => name_keeps_quotes)
    fun c hc s hs => hkeep₁ q₁ c s hq₁ hc hs
  have hkept₂ := hfind₂.filter (fun s => ¬BreaksOut s) (fun _ => name_keeps_quotes)
    fun c hc s hs => hkeep₂ q₂ c s hq₂ hc hs
  rintro (himitates | himitates)
  · exact filter_not_imitated hany₂ hkept₁ himitates
  · exact filter_not_imitated hany₁ hkept₂ himitates

theorem outcome_of_stages {schema tree command simple : Value} {sql : String} {line : Nat}
    {q : Query} (hq : Sql.parse sql line = .ok q)
    (htree : Pipeline.check schema q.toValue = .ok tree)
    (hcommand : Pipeline.translate tree = .ok command)
    (hsimple : Pipeline.simplify command = .ok simple) :
    Pipeline.outcome schema sql line = .ok simple := by
  rw [Pipeline.outcome, command_of_stages hq htree hcommand, ok_bind, hsimple]

def allUsersText : String := "SELECT * FROM users;"

def twoCitiesText : String := "SELECT * FROM users WHERE city IN ('a', 'b');"

def quotedCityText : String := "SELECT * FROM users WHERE city IN ('a\", \"b');"

/-- The query for the users of some cities. -/
def citiesQuery (city : String) (cities : List String) : Query :=
  usersWhere (.inList ⟨none, "city"⟩ (.text city) (cities.map .text))

def citiesFilter (cities : List String) : Value :=
  doc [("city", doc [("$in", .list (cities.map .text))])]

/-- A command that finds users. -/
def usersCommand (filter : Value) (text : String) : Value :=
  FindParts.toValue ⟨.text "users", filter, .null, none, none⟩ text

theorem users_command_rest (f g : Value) (s t : String) :
    ∀ key ∈ ["collection", "projection", "sort", "limit"],
      (usersCommand f s).entry key = (usersCommand g t).entry key := by
  intro key hkey
  simp only [List.mem_cons, List.not_mem_nil, or_false] at hkey
  rcases hkey with rfl | rfl | rfl | rfl <;> rfl

def citiesCommandText : String :=
  "db.users.find(\x7b city: \x7b $in: [ \"a\", \"b\" ] \x7d \x7d)"

theorem two_cities_parsed : Sql.parse twoCitiesText 1 = .ok (citiesQuery "a" ["b"]) := by
  rfl

theorem two_cities_outcome : Pipeline.outcome shopSchema twoCitiesText 1 =
    .ok (usersCommand (citiesFilter ["a", "b"]) citiesCommandText) :=
  outcome_of_stages two_cities_parsed rfl rfl rfl

/-- All users and the users of two cities. -/
theorem printed_filters_distinct_cities :
    Pipeline.outcome shopSchema allUsersText 1 =
      .ok (usersCommand (.dict []) "db.users.find(\x7b\x7d)") ∧
    Pipeline.outcome shopSchema twoCitiesText 1 =
      .ok (usersCommand (citiesFilter ["a", "b"]) citiesCommandText) ∧
    KeepsQuotes allUsersText 1 ∧ KeepsQuotes twoCitiesText 1 ∧
    Pipeline.textOf (usersCommand (.dict []) "db.users.find(\x7b\x7d)") ≠
      Pipeline.textOf (usersCommand (citiesFilter ["a", "b"]) citiesCommandText) := by
  have hparse : Sql.parse allUsersText 1 =
      .ok ⟨.all, .table "users", none, [], none, [], none⟩ := parse_spelled ⟨rfl, rfl⟩ rfl
  have hall : Pipeline.outcome shopSchema allUsersText 1 =
      .ok (usersCommand (.dict []) "db.users.find(\x7b\x7d)") :=
    outcome_of_stages hparse rfl rfl rfl
  have hkeeps : KeepsQuotes allUsersText 1 := by
    intro q c s hq hc
    obtain rfl := Except.ok.inj (hparse.symm.trans hq)
    cases hc
  have hkeeps' : KeepsQuotes twoCitiesText 1 := by
    intro q c s hq hc hs
    obtain rfl := Except.ok.inj (two_cities_parsed.symm.trans hq)
    obtain rfl := Option.some.inj hc
    have htext : s = "a" ∨ s = "b" := by simpa [literalsOf] using hs
    rcases htext with rfl | rfl <;> decide
  exact ⟨hall, two_cities_outcome, hkeeps, hkeeps',
    (printed_filters_distinct hall two_cities_outcome rfl rfl (users_command_rest _ _ _ _)).2
      hkeeps hkeeps' (by decide)⟩

/-- The city `a", "b` is printed as two cities. -/
theorem printed_filters_collide :
    ¬ ∀ (schema command₁ command₂ f₁ f₂ : Value) (sql₁ sql₂ : String),
      Pipeline.outcome schema sql₁ 1 = .ok command₁ →
      Pipeline.outcome schema sql₂ 1 = .ok command₂ →
      command₁.entry "filter" = .ok f₁ → command₂.entry "filter" = .ok f₂ →
      (∀ key ∈ ["collection", "projection", "sort", "limit"],
        command₁.entry key = command₂.entry key) →
      f₁.same f₂ = false → Pipeline.textOf command₁ ≠ Pipeline.textOf command₂ := by
  intro hall
  have hparse : Sql.parse quotedCityText 1 = .ok (citiesQuery "a\", \"b" []) :=
    parse_spelled ⟨rfl, rfl⟩ rfl
  have hquoted : Pipeline.outcome shopSchema quotedCityText 1 =
      .ok (usersCommand (citiesFilter ["a\", \"b"]) citiesCommandText) :=
    outcome_of_stages hparse rfl rfl rfl
  exact hall shopSchema _ _ _ _ _ _ two_cities_outcome hquoted rfl rfl (users_command_rest _ _ _ _)
    (by decide) rfl

end DocQuery.Proofs
