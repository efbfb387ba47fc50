import DocQuery.Proofs.CommaJoins
import DocQuery.Proofs.Scope

namespace DocQuery.Proofs

open Sql
open Value (doc)

/-- The comparisons in a tree, from left to right. -/
def treeLeaves : Value → List Value
  | .logical l _ r => treeLeaves l ++ treeLeaves r
  | v => [v]

/-- How a comparison of two columns is described. -/
def joinNames : ColumnRef × Relation × ColumnRef → Value
  | (c, _, d) => doc [("left_table", optionalText c.table?), ("left_col", .text c.name),
      ("right_table", optionalText d.table?), ("right_col", .text d.name)]

/-- No text that a column is compared with has a dot. -/
def NoDots (w : Condition) : Prop :=
  ∀ c r s, .compare c r (.literal (.text s)) ∈ comparisons w → '.' ∉ s.toList

theorem column_of_ref (c : ColumnRef) :
    Check.columnOf c.toValue = .ok (some (optionalText c.table?, .text c.name)) :=
  rfl

theorem column_of_text {s : String} (h : '.' ∉ s.toList) : Check.columnOf (.text s) = .ok none := by
  rw [Check.columnOf, if_neg (by simpa [Value.hasDot] using h)]

/-- What is neither a column nor a dotted text joins nothing. -/
theorem join_of_none {i o v : Value} {left? : Option (Value × Value)}
    (hi : Check.columnOf i = .ok left?) (hv : left? = none ∨ Check.columnOf v = .ok none) :
    Check.joinOf (.comparison i o v) = .ok none := by
  rw [Check.joinOf, hi, ok_bind]
  cases left? with
  | none => rfl
  | some left =>
    rcases hv with hv | hv
    · cases hv
    · rw [hv]
      rfl

/-- A comparison joins two tables just if it is one of two columns. -/
theorem join_of_term {d : Condition} (hd : Term d) (hdots : NoDots d) :
    Check.joinOf d.toValue = .ok ((columnParts d).head?.map joinNames) := by
  cases hd with
  | @compare c r x =>
    rw [Condition.toValue]
    cases x with
    | column d => rfl
    | literal l =>
      refine join_of_none (column_of_ref c) (.inr ?_)
      cases l with
      | number n => rfl
      | text s => exact column_of_text (hdots c r s (by simp [comparisons]))
  | @aggregate a =>
    have ha : Check.columnOf a.toValue = .ok none := by cases a <;> rfl
    rw [Condition.toValue]
    exact join_of_none ha (.inl rfl)
  | between hc =>
    rw [Condition.toValue]
    exact join_of_none (column_of_text hc.no_dot) (.inl rfl)
  | inList =>
    rw [Condition.toValue]
    exact join_of_none (column_of_ref _) (.inr rfl)
  | @inQuery _ q =>
    obtain ⟨p, hp, -⟩ := statement_tree q
    rw [Condition.toValue, hp]
    exact join_of_none (column_of_ref _) (.inr rfl)

/-- A comparison is one of two columns, or one to be tested. -/
theorem term_parts {d : Condition} (hd : Term d) :
    (∃ c r e, d = .compare c r (.column e)) ∨ (columnParts d = [] ∧ filterParts d = [d]) := by
  cases hd with
  | @compare c r x =>
    cases x with
    | column e => exact .inl ⟨c, r, e, rfl⟩
    | literal l => exact .inr ⟨rfl, rfl⟩
  | aggregate | between | inList | inQuery => exact .inr ⟨rfl, rfl⟩

/-- What checking finds in a condition: the first comparison of two columns, and a tree of all other
comparisons. -/
def FindsParts (w : Condition) : Prop :=
  ∃ rest?, Check.splitJoin w.toValue = .ok ((columnParts w).head?.map joinTree, rest?) ∧
    rest?.elim [] treeLeaves = (filterParts w).map Condition.toValue

theorem term_finds_parts {d : Condition} (hd : Term d) (hdots : NoDots d) : FindsParts d := by
  have hjoin := join_of_term hd hdots
  obtain ⟨i, o, v, hvalue⟩ : ∃ i o v, d.toValue = .comparison i o v := by
    cases hd <;> rw [Condition.toValue] <;> exact ⟨_, _, _, rfl⟩
  rcases term_parts hd with ⟨c, r, e, rfl⟩ | ⟨hcolumns, hfilters⟩
  · refine ⟨none, ?_, rfl⟩
    rw [Condition.toValue]
    rfl
  · refine ⟨some d.toValue, ?_, ?_⟩
    · rw [hcolumns] at hjoin
      rw [hvalue] at hjoin ⊢
      rw [Check.splitJoin, hjoin, hcolumns]
      rfl
    · rw [hfilters, hvalue]
      simp [treeLeaves, hvalue]

theorem conjoin_leaves (left? right? : Option Value) :
    (Check.conjoin left? right?).elim [] treeLeaves =
      left?.elim [] treeLeaves ++ right?.elim [] treeLeaves := by
  cases left? <;> cases right? <;> simp [Check.conjoin, treeLeaves]

/-- What holds of comparisons as they are read, and of two conditions together if of each of them,
holds of every condition of such comparisons, in whatever way they are connected. -/
theorem connected_terms {P : Condition → Prop} (hterm : ∀ d, Term d → NoDots d → P d)
    (hconnect : ∀ l o r, P l → P r → P (.connect l o r)) {w : Condition}
    (hread : ∀ d ∈ comparisons w, Term d) (hdots : NoDots w) : P w := by
  match w with
  | .connect l o r =>
    obtain ⟨hl, hr⟩ := List.forall_mem_append.mp hread
    apply hconnect
    · exact connected_terms hterm hconnect hl fun c r s h => hdots c r s (List.mem_append_left _ h)
    · exact connected_terms hterm hconnect hr fun c r s h => hdots c r s (List.mem_append_right _ h)
  | .compare c r x => exact hterm _ (hread _ List.mem_cons_self) hdots
  | .aggregate a r l => exact hterm _ (hread _ List.mem_cons_self) hdots
  | .between c low high => exact hterm _ (hread _ List.mem_cons_self) hdots
  | .inList c l ls => exact hterm _ (hread _ List.mem_cons_self) hdots
  | .inQuery c q => exact hterm _ (hread _ List.mem_cons_self) hdots

theorem connect_finds_parts {l r : Condition} (o : String) (hl : FindsParts l) (hr : FindsParts r) :
    FindsParts (.connect l o r) := by
  obtain ⟨left?, hleft, hleaves⟩ := hl
  obtain ⟨right?, hright, hleaves'⟩ := hr
  refine ⟨Check.conjoin left? right?, ?_, ?_⟩
  · rw [Condition.toValue, Check.splitJoin, hleft, hright, columnParts, List.head?_append,
      Option.map_or]
    rfl
  · rw [conjoin_leaves, hleaves, hleaves', filterParts, List.map_append]

theorem join_of_connect {l r : Condition} (o : String)
    (hl : Check.joinOf l.toValue = .ok ((columnParts l).head?.map joinNames))
    (hr : Check.joinOf r.toValue = .ok ((columnParts r).head?.map joinNames)) :
    Check.joinOf (Condition.connect l o r).toValue =
      .ok ((columnParts (.connect l o r)).head?.map joinNames) := by
  rw [Condition.toValue, Check.joinOf, hl, columnParts, List.head?_append, Option.map_or, ok_bind]
  cases (columnParts l).head? with
  | none => exact hr
  | some found => rfl

/-- Checking and translating find the same join in a condition, the first comparison of two columns,
and leave the same comparisons in the same order. Its description is that of this join. -/
theorem join_splits_agree {w : Condition} (hread : ∀ d ∈ comparisons w, Term d) (hdots : NoDots w) :
    ∃ join? rest?, Check.splitJoin w.toValue = .ok (join?, rest?) ∧
      Command.splitConditions w.toValue = (join?, rest?.elim [] treeLeaves) ∧
      join? = (columnParts w).head?.map joinTree ∧
      rest?.elim [] treeLeaves = (filterParts w).map Condition.toValue ∧
      Check.joinOf w.toValue = .ok ((columnParts w).head?.map joinNames) := by
  have hfinds : FindsParts w := connected_terms (fun _ => term_finds_parts)
    (fun _ o _ => connect_finds_parts o) hread hdots
  have hjoin : Check.joinOf w.toValue = .ok ((columnParts w).head?.map joinNames) :=
    connected_terms
      (P := fun w => Check.joinOf w.toValue = .ok ((columnParts w).head?.map joinNames))
      (fun _ => join_of_term) (fun _ o _ => join_of_connect o) hread hdots
  obtain ⟨rest?, hsplit, hleaves⟩ := hfinds
  refine ⟨_, rest?, hsplit, ?_, rfl, hleaves, hjoin⟩
  rw [hleaves]
  exact split_condition_parts w

/-- Orders of young users, or anything in Rome. -/
def romeOrders : Condition :=
  .connect (.between "age" (.number 18) (.number 30)) "AND"
    (.connect (.compare ⟨some "users", "id"⟩ .eq (.column ⟨some "orders", "user_id"⟩)) "OR"
      (.compare ⟨none, "city"⟩ .eq (.literal (.text "Rome"))))

theorem join_splits_rome :
    (∀ d ∈ comparisons romeOrders, Term d) ∧ NoDots romeOrders ∧
      ∃ join rest, Check.splitJoin romeOrders.toValue = .ok (some join, some rest) ∧
        Command.splitConditions romeOrders.toValue = (some join, treeLeaves rest) ∧
        (treeLeaves rest).length = 2 := by
  have hid : NamedColumn ⟨some "users", "id"⟩ :=
    ⟨name_of_chars rfl rfl, by rintro _ ⟨⟩; exact name_of_chars rfl rfl⟩
  have huser : NamedColumn ⟨some "orders", "user_id"⟩ :=
    ⟨name_of_chars rfl rfl, by rintro _ ⟨⟩; exact name_of_chars rfl rfl⟩
  have hcity : NamedColumn ⟨none, "city"⟩ := ⟨name_of_chars rfl rfl, by rintro _ ⟨⟩⟩
  have hread : ∀ d ∈ comparisons romeOrders, Term d := by
    simp only [romeOrders, comparisons, List.cons_append, List.nil_append, List.forall_mem_cons]
    exact ⟨.between (name_of_chars rfl rfl), .compare hid (by rintro _ ⟨⟩; exact huser),
      .compare hcity (by rintro _ ⟨⟩), List.forall_mem_nil _⟩
  have hdots : NoDots romeOrders := by
    intro c r s hs
    simp [romeOrders, comparisons] at hs
    obtain ⟨-, -, rfl⟩ := hs
    decide
  obtain ⟨join?, rest?, hsplit, htranslated, hjoin, hrest, -⟩ := join_splits_agree hread hdots
  cases rest? with
  | none => cases hrest
  | some rest =>
    subst hjoin
    refine ⟨hread, hdots, _, rest, hsplit, htranslated, ?_⟩
    exact congrArg List.length hrest

end DocQuery.Proofs
