import DocQuery.Proofs.Scope

namespace DocQuery.Proofs

open Sql
open Number (Double)
open Value (doc)

/-- The comparisons of a condition, from left to right. -/
def comparisons : Condition → List Condition
  | .connect l _ r => comparisons l ++ comparisons r
  | c => [c]

/-- Whether a condition is true, given which of its comparisons are. -/
def truthBy (leaf : Condition → Bool) : Condition → Bool
  | .connect l w r =>
    if Keyword.ofWord? w.toList = some .andWord then truthBy leaf l && truthBy leaf r
    else truthBy leaf l || truthBy leaf r
  | c => leaf c

def numbersRelated : Relation → Double → Double → Bool
  | .eq, x, y => x.same y
  | .ne, x, y => !x.same y
  | .gt, x, y => y.less x
  | .lt, x, y => x.less y
  | .ge, x, y => y.less x || x.same y
  | .le, x, y => x.less y || x.same y

/-- Whether a number is in a relation with a literal. From a text it only differs. -/
def literalRelated (r : Relation) (x : Double) : Scalar → Bool
  | .int n => numbersRelated r x (.ofInt n)
  | .text _ => r = .ne

/-- Whether the test of a comparison is true of the value of a column. -/
def comparisonTrue (t : FieldTest) : Value → Bool
  | .int n => t.accepts (.int n)
  | .text s => t.accepts (.text s)
  | .real x =>
    match t with
    | .compare r v => literalRelated r x v
    | .between low high => literalRelated .ge x low && literalRelated .le x high
    | .among vs => vs.any (literalRelated .eq x)
  | _ => false

/-- Whether a comparison with literals is true of a row that holds `value c` in each column. -/
def columnTrue (value : ColumnRef → Value) : Condition → Bool
  | .compare c r (.literal l) => comparisonTrue (.compare r (scalarOf l)) (value c)
  | .between c low high =>
    comparisonTrue (.between (scalarOf low) (scalarOf high)) (value ⟨none, c⟩)
  | .inList c l ls => comparisonTrue (.among ((l :: ls).map scalarOf)) (value c)
  | _ => false

/-- The column that a comparison with literals is about. -/
def comparedColumn? : Condition → Option ColumnRef
  | .compare c _ (.literal _) | .inList c _ _ => some c
  | .between c _ _ => some ⟨none, c⟩
  | _ => none

/-- What a row holds in a column. -/
inductive Atom : Value → Prop where
  | null : Atom .null
  | int : Atom (.int n)
  | real (h : x ≠ .nan) : Atom (.real x)
  | text : Atom (.text s)

/-- The columns that a condition compares for difference. -/
def unequalColumns : Condition → List ColumnRef
  | .connect l _ r => unequalColumns l ++ unequalColumns r
  | .compare c .ne (.literal _) => [c]
  | _ => []

/-- The values of a type, if it is one of the three that are known. -/
def isOfType (type : String) (v : Value) : Bool :=
  match type with
  | "int" => v.kind == .int
  | "float" => v.kind == .int || v.kind == .real
  | "string" => v.kind == .text
  | _ => true

/-- A document as the row of a table: it holds plain values, and in each column a value of the
column's type or `null`. -/
structure RowOf (schema : Value) (table : String) (d : Entries) : Prop where
  plain : ∀ name, Atom (Entries.field d name)
  held : ∀ column, ColumnIn schema table column → ∃ v, Entries.get? d (.text column) = some v
  typed : ∀ column type, Check.typeOf schema (.text table) (.text column) = .ok (.text type) →
    Entries.field d column = .null ∨ isOfType type (Entries.field d column) = true

theorem compared_named {c : Condition} {r : ColumnRef} (ht : Term c)
    (hr : comparedColumn? c = some r) : NamedColumn r := by
  cases ht with
  | @compare c' _ x hn =>
    cases x with
    | column => cases hr
    | literal =>
      cases hr
      exact hn
  | aggregate => cases hr
  | between hn =>
    cases hr
    exact ⟨hn, by simp⟩
  | inList hn =>
    cases hr
    exact hn
  | inQuery => cases hr

theorem base_field {t : String} {c : ColumnRef} (h : c.table?.all (· == t) = true) :
    columnField (some (.text t)) c = c.name := by
  unfold columnField
  split
  · rename_i u hu
    obtain rfl : u = t := by simpa [hu] using h
    simp
  · rfl

theorem compared_literal {c : Condition}
    (h : ∀ d ∈ comparisons c, ∃ r, comparedColumn? d = some r) : isLiteral c = true := by
  match c with
  | .connect l _ r =>
    have hl := compared_literal fun d hd => h d (List.mem_append_left _ hd)
    have hr := compared_literal fun d hd => h d (List.mem_append_right _ hd)
    simp [isLiteral, hl, hr]
  | .compare _ _ (.literal _) | .between .. | .inList .. => rfl
  | .compare _ _ (.column _) | .aggregate .. | .inQuery .. =>
    obtain ⟨r, hr⟩ := h _ (List.mem_singleton_self _)
    cases hr

/-- Numbers and texts can be compared with literals. -/
def comparable : Value → Bool
  | .int _ | .real _ | .text _ => true
  | _ => false

theorem equals_real (x : Double) (s : Scalar) :
    equals (.real x) s.toValue = literalRelated .eq x s := by
  cases s <;> rfl

theorem before_real (x : Double) (s : Scalar) :
    before (.real x) s.toValue = literalRelated .lt x s := by
  cases s <;> rfl

theorem real_before (x : Double) (s : Scalar) :
    before s.toValue (.real x) = literalRelated .gt x s := by
  cases s <;> rfl

theorem related_real (r : Relation) (x : Double) (s : Scalar) :
    literalRelated r x s = (FieldTest.compare r s).holds (.real x) := by
  cases r <;> simp only [FieldTest.holds, equals_real, before_real, real_before] <;>
    cases s <;> simp [literalRelated, numbersRelated]

/-- What cannot be compared with literals is of another type. -/
theorem incomparable_apart {v : Value} (h : comparable v = false) (s : Scalar) :
    equals v s.toValue = false ∧ before v s.toValue = false ∧ before s.toValue v = false := by
  have htype : (orderType v == orderType s.toValue) = false := by
    cases v <;> cases s <;> first | rfl | cases h
  have htype' : (orderType s.toValue == orderType v) = false := by
    rw [BEq.comm, htype]
  rw [equals, before, before, htype, htype']
  exact ⟨rfl, rfl, rfl⟩

/-- A filter selects what a comparison is true of, but for what cannot be compared in a test for
difference. -/
theorem comparable_holds {t : FieldTest} {v : Value}
    (h : ∀ x, t = .compare .ne x → comparable v = true) : comparisonTrue t v = t.holds v := by
  cases hv : comparable v with
  | true =>
    cases v with
    | int => exact (FieldTest.holds_scalar (.int _) t).symm
    | text => exact (FieldTest.holds_scalar (.text _) t).symm
    | real x =>
      cases t with
      | compare r s => exact related_real r x s
      | between low high =>
        rw [comparisonTrue, related_real, related_real]
        rfl
      | among vs =>
        rw [comparisonTrue, FieldTest.holds]
        simp only [equals_real]
    | _ => cases hv
  | false =>
    have hapart := incomparable_apart hv
    have hfalse : comparisonTrue t v = false := by
      cases v <;> first | rfl | cases hv
    rw [hfalse]
    cases t with
    | compare r x =>
      cases r with
      | ne => rw [h x rfl] at hv; cases hv
      | _ => simp [FieldTest.holds, hapart]
    | between low high => simp [FieldTest.holds, hapart]
    | among vs => simp [FieldTest.holds, hapart]

theorem Atom.is_comparable {v : Value} (h : Atom v) (hne : v ≠ .null) : comparable v = true := by
  cases h with
  | null => exact absurd rfl hne
  | _ => rfl

theorem Atom.incomparable {v : Value} (h : Atom v) : (!comparable v) = (v.kind == .null) := by
  cases h <;> rfl

/-- A filter selects what a comparison is true of, but for `null` in a test for difference. -/
theorem comparison_holds {t : FieldTest} {v : Value} (hv : Atom v)
    (hne : ∀ x, t = .compare .ne x → v ≠ .null) : comparisonTrue t v = t.holds v :=
  comparable_holds fun x hx => hv.is_comparable (hne x hx)

/-- A filter selects what a comparison is true of, and what cannot be compared in a test for
difference. -/
theorem comparison_passes (r : Relation) (x : Scalar) (v : Value) :
    (FieldTest.compare r x).holds v =
      (comparisonTrue (.compare r x) v || (decide (r = .ne) && !comparable v)) := by
  by_cases hdiffers : r = .ne ∧ comparable v = false
  · obtain ⟨rfl, hv⟩ := hdiffers
    simp [FieldTest.holds, incomparable_apart hv, hv]
  · have htrue : comparisonTrue (.compare r x) v = (FieldTest.compare r x).holds v := by
      refine comparable_holds fun y hy => ?_
      cases hy
      simpa using hdiffers
    have hfalse : (decide (r = .ne) && !comparable v) = false := by
      simpa using hdiffers
    rw [htrue, hfalse, Bool.or_false]

theorem term_comparisons {c : Condition} (ht : Term c) : comparisons c = [c] := by
  cases ht <;> rfl

/-- The comparisons of a parsed condition are as they are read. -/
theorem comb_leaf {c : Condition} (hc : Comb c) : ∀ d ∈ comparisons c, Term d := by
  induction hc with
  | @term c ht =>
    intro d hd
    rw [term_comparisons ht] at hd
    rwa [List.mem_singleton.mp hd]
  | @connect l r w _ _ hr ih =>
    intro d hd
    rcases List.mem_append.mp hd with hd | hd
    · exact ih d hd
    · rw [term_comparisons hr] at hd
      rwa [List.mem_singleton.mp hd]

theorem unequal_leaf {c : Condition} {r : ColumnRef} {l : Sql.Literal}
    (h : .compare r .ne (.literal l) ∈ comparisons c) : r ∈ unequalColumns c := by
  match c with
  | .connect x _ y =>
    rcases List.mem_append.mp h with h | h
    · exact List.mem_append_left _ (unequal_leaf h)
    · exact List.mem_append_right _ (unequal_leaf h)
  | .compare .. =>
    cases List.mem_singleton.mp h
    exact List.mem_singleton_self r
  | .aggregate .. | .between .. | .inList .. | .inQuery .. => cases List.mem_singleton.mp h

/-- A comparison has a filter that tests its field. -/
theorem term_truth (base? : Option Value) {c : Condition} (ht : Term c)
    (hl : isLiteral c = true) :
    ∃ s : Selector, Command.filter base? c.toValue = .ok s.toValue ∧
      ∀ (field : String → Value) (leaf : Condition → Bool),
        (∀ d ∈ comparisons c, ∀ name t, literalTest? base? d = some (name, t) →
          leaf d = t.holds (field name)) → s.holds field = truthBy leaf c := by
  obtain ⟨name, t, hf, -, htests⟩ := filter_of_term base? ht hl
  refine ⟨.field name t, hf, fun field leaf hleaf => ?_⟩
  have htest : literalTest? base? c = some (name, t) := by
    cases ht <;> exact Option.toList_eq_singleton_iff.mp htests
  have hself : c ∈ comparisons c := by rw [term_comparisons ht]; exact List.mem_singleton_self c
  have htruth : truthBy leaf c = leaf c := by cases ht <;> rfl
  rw [htruth, hleaf c hself name t htest]
  rfl

/-- The filter of a condition selects by its comparisons. -/
theorem filter_truth (base? : Option Value) {c : Condition} (hc : Comb c)
    (hl : isLiteral c = true) :
    ∃ s : Selector, Command.filter base? c.toValue = .ok s.toValue ∧
      ∀ (field : String → Value) (leaf : Condition → Bool),
        (∀ d ∈ comparisons c, ∀ name t, literalTest? base? d = some (name, t) →
          leaf d = t.holds (field name)) → s.holds field = truthBy leaf c := by
  induction hc with
  | term ht => exact term_truth base? ht hl
  | @connect l r w _ hw hr ih =>
    simp only [isLiteral, Bool.and_eq_true] at hl
    obtain ⟨s, hs, hleft⟩ := ih hl.1
    obtain ⟨u, hu, hright⟩ := term_truth base? hr hl.2
    rcases hw with hw | hw
    · have hk := connective_of_word ⟨.both, w, keyword_spelled hw⟩
      refine ⟨.both s u, ?_, fun field leaf hleaf => ?_⟩
      · simp only [Condition.toValue, Command.filter, hs, hu, hk, ok_bind]
        rfl
      · have hl' := hleft field leaf (fun d hd => hleaf d (List.mem_append_left _ hd))
        have hr' := hright field leaf (fun d hd => hleaf d (List.mem_append_right _ hd))
        simp [Selector.holds, truthBy, hw, hl', hr']
    · have hk := connective_of_word ⟨.either, w, keyword_spelled hw⟩
      refine ⟨.either s u, ?_, fun field leaf hleaf => ?_⟩
      · simp only [Condition.toValue, Command.filter, hs, hu, hk, ok_bind]
        rfl
      · have hl' := hleft field leaf (fun d hd => hleaf d (List.mem_append_left _ hd))
        have hr' := hright field leaf (fun d hd => hleaf d (List.mem_append_right _ hd))
        simp [Selector.holds, truthBy, hw, hl', hr']

/-- A clause and its filter, which selects by the comparisons of the clause. -/
structure ClauseSelector (base? : Option Value) (c? : Option Condition) (s? : Option Selector) :
    Prop where
  filter : ClauseFilter base? c? (s?.map Selector.toValue)
  truth : ∀ (field : String → Value) (leaf : Condition → Bool),
    (∀ c, c? = some c → ∀ d ∈ comparisons c, ∀ name t, literalTest? base? d = some (name, t) →
      leaf d = t.holds (field name)) →
    (s?.map Selector.toValue).all (holds field) = c?.all (truthBy leaf)

/-- A condition stays true if more of its comparisons are. -/
theorem truth_mono {leaf leaf' : Condition → Bool} (h : ∀ c, leaf c = true → leaf' c = true)
    {c : Condition} (hc : truthBy leaf c = true) : truthBy leaf' c = true := by
  match c with
  | .connect l w r =>
    rw [truthBy] at hc ⊢
    split
    · rename_i hand
      rw [if_pos hand, Bool.and_eq_true] at hc
      rw [truth_mono h hc.1, truth_mono h hc.2, Bool.and_true]
    · rename_i hor
      rw [if_neg hor, Bool.or_eq_true] at hc
      rcases hc with hc | hc
      · rw [truth_mono h hc, Bool.true_or]
      · rw [truth_mono h hc, Bool.or_true]
  | .compare .. | .aggregate .. | .between .. | .inList .. | .inQuery .. => exact h _ hc

/-- A clause stays true if its comparisons may be true in another way, too. -/
theorem clause_true_or {c? : Option Condition} {leaf : Condition → Bool} (other : Condition → Bool)
    (h : c?.all (truthBy leaf) = true) : c?.all (truthBy fun c => leaf c || other c) = true := by
  cases c? with
  | none => rfl
  | some c => exact truth_mono (fun d hd => by rw [hd, Bool.true_or]) h

/-- Whether a comparison tests a column that holds nothing for being different. -/
def nullDiffers (value : ColumnRef → Value) : Condition → Bool
  | .compare c .ne (.literal _) => (value c).kind == .null
  | _ => false

/-- The test of a comparison holds if the comparison is true, and for `null` in a test for
difference. -/
theorem literal_test_holds {base? : Option Value} {c : Condition} {r : ColumnRef} {name : String}
    {t : FieldTest} {field : String → Value} {value : ColumnRef → Value}
    (hr : comparedColumn? c = some r) (ht : literalTest? base? c = some (name, t))
    (hfield : field (columnField base? r) = value r) (hatom : Atom (value r)) :
    t.holds (field name) = (columnTrue value c || nullDiffers value c) := by
  have hother : (∀ x, t ≠ .compare .ne x) → comparisonTrue t (value r) = t.holds (value r) :=
    fun hne => comparison_holds hatom fun x hx => absurd hx (hne x)
  cases c with
  | compare c' relation x =>
    cases x with
    | column => cases hr
    | literal l =>
      cases hr
      cases ht
      rw [hfield, comparison_passes, hatom.incomparable]
      cases relation <;> rfl
  | aggregate => cases hr
  | between c' low high =>
    cases hr
    cases ht
    have hname : field name = value ⟨none, name⟩ := hfield
    rw [hname, ← hother (by simp)]
    exact (Bool.or_false _).symm
  | inList c' l ls =>
    cases hr
    cases ht
    rw [hfield, ← hother (by simp)]
    exact (Bool.or_false _).symm
  | inQuery => cases hr
  | connect => cases hr

section

variable {base? : Option Value} {c? : Option Condition} {s? : Option Selector}
  (h : ClauseSelector base? c? s?) {field : String → Value} {value : ColumnRef → Value}
  (hcolumns : ∀ c, c? = some c → ∀ d ∈ comparisons c, ∃ r, comparedColumn? d = some r ∧
    field (columnField base? r) = value r ∧ Atom (value r))

include h hcolumns

/-- The filter of a clause selects a row by what its fields hold in the columns that the clause is
about. -/
theorem ClauseSelector.passes : (s?.map Selector.toValue).all (holds field) =
    c?.all (truthBy fun d => columnTrue value d || nullDiffers value d) := by
  refine h.truth field _ fun c hc d hd name t ht => ?_
  obtain ⟨r, hr, hfield, hatom⟩ := hcolumns c hc d hd
  exact (literal_test_holds hr ht hfield hatom).symm

end

/-- A clause of comparisons with literals always has a filter. -/
theorem clause_selector (base? : Option Value) {c? : Option Condition}
    (hc : ∀ c, c? = some c → Comb c) (hl : ∀ c, c? = some c → isLiteral c = true) :
    ∃ s?, ClauseSelector base? c? s? := by
  cases c? with
  | none => exact ⟨none, .none, fun _ _ _ => rfl⟩
  | some c =>
    obtain ⟨s, hs, htruth⟩ := filter_truth base? (hc c rfl) (hl c rfl)
    refine ⟨some s, .some hs, fun field leaf hleaf => ?_⟩
    simp only [Option.map_some, Option.all_some, holds_to_value]
    exact htruth field leaf (hleaf c rfl)

/-- What is looked up in a list of named fields. -/
theorem get_fields {α : Type} (fields : List (String × α)) (value : String × α → Value)
    (name : String) : Entries.get? (fields.map fun f => (.text f.1, value f)) (.text name) =
      (fields.find? (·.1 == name)).map value := by
  induction fields with
  | nil => rfl
  | cons f fields ih =>
    rw [List.map_cons, List.find?_cons]
    by_cases hf : f.1 = name
    · simp [Entries.get?, hf]
    · have hother : (f.1 == name) = false := by simpa using hf
      rw [hother, ← ih]
      simp [Entries.get?, hf]

/-- The row of a table, from the names and the types of its columns and what it holds in them. -/
theorem columns_row {schema : Value} {t : String} {fields : List (String × String × Value)}
    (hschema : schema.index (.text t) = .ok (doc (fields.map fun f => (f.1, .text f.2.1))))
    (hplain : ∀ f ∈ fields, Atom f.2.2)
    (htyped : ∀ f ∈ fields, f.2.2 = .null ∨ isOfType f.2.1 f.2.2 = true) :
    RowOf schema t (fields.map fun f => (.text f.1, f.2.2)) := by
  have hfield : ∀ name, Entries.field (fields.map fun f => (.text f.1, f.2.2)) name =
      ((fields.find? (·.1 == name)).map (·.2.2)).getD .null := by
    intro name
    rw [Entries.field, get_fields fields (·.2.2)]
  have htypes : ∀ name, Entries.get? (fields.map fun f => (.text f.1, .text f.2.1)) (.text name) =
      (fields.find? (·.1 == name)).map (.text ·.2.1) := get_fields fields (.text ·.2.1)
  have hdoc : doc (fields.map fun f => (f.1, .text f.2.1)) =
      .dict (fields.map fun f => (.text f.1, .text f.2.1)) := by
    rw [doc, List.map_map]
    rfl
  refine ⟨fun name => ?_, fun column => ?_, fun column type h => ?_⟩
  · rw [hfield]
    cases hf : fields.find? (·.1 == name) with
    | none => exact .null
    | some f => exact hplain f (List.mem_of_find?_eq_some hf)
  · rintro ⟨columns, hindex, hin⟩
    cases hschema.symm.trans hindex
    have hhas : Entries.has (fields.map fun f => (.text f.1, .text f.2.1)) (.text column) = true := by
      simpa [hdoc, Value.isIn] using hin
    rw [has_eq_get, htypes, Option.isSome_map, Option.isSome_iff_exists] at hhas
    obtain ⟨f, hf⟩ := hhas
    exact ⟨f.2.2, by rw [get_fields fields (·.2.2), hf]; rfl⟩
  · rw [Check.typeOf, hschema, hdoc, ok_bind] at h
    simp only [Value.index, as_key_text, ok_bind, htypes] at h
    rw [hfield]
    cases hf : fields.find? (·.1 == column) with
    | none =>
      rw [hf] at h
      cases h
    | some f =>
      rw [hf] at h
      cases h
      exact htyped f (List.mem_of_find?_eq_some hf)

/-- The rows of a table with two columns. -/
theorem two_column_row {schema : Value} {t c₁ c₂ type₁ type₂ : String} {v₁ v₂ : Value}
    (hschema : schema.index (.text t) = .ok (doc [(c₁, .text type₁), (c₂, .text type₂)]))
    (hv₁ : Atom v₁) (hv₂ : Atom v₂) (h₁ : v₁ = .null ∨ isOfType type₁ v₁ = true)
    (h₂ : v₂ = .null ∨ isOfType type₂ v₂ = true) :
    RowOf schema t [(.text c₁, v₁), (.text c₂, v₂)] :=
  @columns_row schema t [(c₁, type₁, v₁), (c₂, type₂, v₂)] hschema (by simp [hv₁, hv₂])
    (by simp [h₁, h₂])

/-- The name of a selected item in the result. -/
def itemName : SelectItem → String
  | .column c => c.name
  | .aggregate a => a.alias

/-- Documents that hold the values of rows under the names of the selected items. -/
def ShowsRows (q : Query) (docs : List Entries) (rows : List (List Value)) : Prop :=
  docs.map (fun d => (selectedItems q.items).map fun x => Entries.get? d (.text (itemName x))) =
    rows.map (·.map some)

theorem shows_rows_iff {q : Query} {docs : List Entries} {rows rows' : List (List Value)}
    (h : ShowsRows q docs rows) : ShowsRows q docs rows' ↔ rows = rows' := by
  have hsome : Function.Injective (some : Value → Option Value) := fun _ _ => Option.some.inj
  have hrows := List.map_injective_iff.mpr (List.map_injective_iff.mpr hsome)
  rw [ShowsRows, show docs.map _ = _ from h]
  exact hrows.eq_iff

/-- Two numbers of members, of which one is no less, are equal just if the tests agree. -/
theorem count_eq_iff {α : Type} {f g : α → Bool} (hle : ∀ x, f x = true → g x = true)
    (xs : List α) : xs.countP f = xs.countP g ↔ ∀ x ∈ xs, g x = true → f x = true := by
  induction xs with
  | nil => simp
  | cons x xs ih =>
    have hmono : xs.countP f ≤ xs.countP g := List.countP_mono_left fun x _ => hle x
    rw [List.forall_mem_cons, ← ih, List.countP_cons, List.countP_cons]
    cases hf : f x with
    | true =>
      have hg := hle x hf
      simp [hg]
    | false =>
      cases hg : g x with
      | true =>
        have hless : xs.countP f ≠ xs.countP g + 1 := by omega
        simpa using hless
      | false => simp

end DocQuery.Proofs
