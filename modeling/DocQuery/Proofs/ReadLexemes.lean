import DocQuery.Proofs.Lexemes

namespace DocQuery.Proofs

open Sql

/-- The lexemes that a text can have. -/
def Writable : Lexeme → Prop
  | .keyword k w => Keyword.ofWord? w.toList = some k
  | .identifier a => IsName a ∧ Keyword.ofWord? a.toList = none
  | .number n => (Nat.toDigits 10 n).length ≤ Text.maxDigits
  | .text s => '\'' ∉ s.toList
  | .symbol _ => True

def AllWritable (ls : Lexemes) : Prop := ∀ l ∈ ls, Writable l

theorem all_writable_append {ls ls' : Lexemes} :
    AllWritable (ls ++ ls') ↔ AllWritable ls ∧ AllWritable ls' :=
  List.forall_mem_append

theorem all_writable_cons {l : Lexeme} {ls : Lexemes} :
    AllWritable (l :: ls) ↔ Writable l ∧ AllWritable ls :=
  List.forall_mem_cons

theorem all_writable_nil : AllWritable [] := by simp [AllWritable]

theorem word_writable (k : Keyword) : Writable (word k) := by
  cases k <;> exact rfl

def functionName : Func → String
  | .count => "count"
  | .min => "min"
  | .max => "max"
  | .avg => "avg"
  | .sum => "sum"

theorem call_alias (f : Func) (c : String) :
    (Aggregate.call f c).alias = functionName f ++ "_" ++ c := by
  have hlower : f.keyword.spelling.toLower = functionName f := by
    apply String.toList_injective
    change (f.keyword.spelling.map Char.toLower).toList = (functionName f).toList
    cases f <;> simp [Func.keyword, Keyword.spelling, functionName]
  rw [Aggregate.alias, hlower]

/-- The keywords have no underscores, so that the alias of an aggregate is none. -/
theorem alias_writable (f : Func) {c : String} (hc : IsName c) :
    Writable (.identifier (Aggregate.call f c).alias) := by
  have halias : (Aggregate.call f c).alias.toList = (functionName f).toList ++ '_' :: c.toList := by
    simp [call_alias]
  obtain ⟨d, ds, hd, hstart, hparts⟩ := hc
  constructor
  · obtain ⟨a, as, hf, ha, has⟩ : IsName (functionName f) := by
      cases f <;> exact ⟨_, _, rfl, rfl, List.all_eq_true.mp rfl⟩
    refine ⟨a, as ++ '_' :: d :: ds, by rw [halias, hf, hd]; rfl, ha, ?_⟩
    intro x hx
    rcases List.mem_append.mp hx with hx | hx
    · exact has x hx
    · rcases List.mem_cons.mp hx with rfl | hx
      · rfl
      · rcases List.mem_cons.mp hx with rfl | hx
        · exact word_start_part hstart
        · exact hparts x hx
  · cases hk : Keyword.ofWord? (Aggregate.call f c).alias.toList with
    | none => rfl
    | some k =>
      have hmem : '_' ∈ k.spelling.toList := by
        rw [← keyword_spelled hk, halias]
        exact List.mem_map.mpr ⟨'_', by simp, rfl⟩
      exact absurd hmem (by cases k <;> decide)

theorem more_writable {α : Type} {write : α → Lexemes} {xs : List α}
    (h : AllWritable (moreLexemes write xs)) : ∀ x ∈ xs, AllWritable (write x) := by
  intro x hx l hl
  exact h l (List.mem_flatMap.mpr ⟨x, hx, List.mem_cons_of_mem _ hl⟩)

theorem by_writable {α : Type} {k : Keyword} {write : α → Lexemes} {xs : List α}
    (h : AllWritable (byLexemes k write xs)) : ∀ x ∈ xs, AllWritable (write x) := by
  cases xs with
  | nil => simp
  | cons x xs =>
    simp only [byLexemes, all_writable_append, all_writable_cons] at h
    exact List.forall_mem_cons.mpr ⟨h.1.2.2, more_writable h.2⟩

/-- The parts of a statement that can be written can be written. -/
structure WritableParts (q : Query) : Prop where
  items : AllWritable (selectLexemes q.items)
  source : AllWritable (sourceLexemes q.source)
  condition : AllWritable (clauseLexemes .whereWord q.condition?)
  groupBy : AllWritable (byLexemes .group nameLexemes q.groupBy)
  having : AllWritable (clauseLexemes .having q.having?)
  orderBy : AllWritable (byLexemes .order orderLexemes q.orderBy)
  limit : AllWritable (limitLexemes q.limit?)

theorem writable_parts {q : Query} (h : AllWritable (statementLexemes q)) : WritableParts q := by
  obtain ⟨items, source, condition?, groupBy, having?, orderBy, limit?⟩ := q
  simp only [statementLexemes, all_writable_append, all_writable_cons] at h
  obtain ⟨⟨⟨⟨⟨⟨⟨-, hitems⟩, -, hsource⟩, hcondition⟩, hgroup⟩, hhaving⟩, horder⟩, hlimit⟩ := h
  exact ⟨hitems, hsource, hcondition, hgroup, hhaving, horder, hlimit⟩

theorem clause_writable {k : Keyword} {c? : Option Condition} {c : Condition}
    (h : AllWritable (clauseLexemes k c?)) (hc : c? = some c) :
    AllWritable (conditionLexemes c) := by
  rw [hc, clauseLexemes, all_writable_cons] at h
  exact h.2

theorem column_named {c : ColumnRef} (h : AllWritable (columnLexemes c)) : NamedColumn c := by
  obtain ⟨table?, name⟩ := c
  cases table? with
  | none =>
    simp only [columnLexemes, all_writable_cons] at h
    exact ⟨h.1.1, by simp⟩
  | some t =>
    simp only [columnLexemes, all_writable_cons] at h
    refine ⟨h.2.2.1.1, ?_⟩
    rintro _ ⟨⟩
    exact h.1.1

theorem item_named {x : SelectItem} (h : AllWritable (itemLexemes x)) : NamedItem x := by
  cases x with
  | column c => exact column_named h
  | aggregate a =>
    rintro f c rfl
    simp only [itemLexemes, aggregateLexemes, all_writable_cons] at h
    exact h.2.2.1.1

theorem names_named {names : List String} (h : ∀ a ∈ names, AllWritable (nameLexemes a)) :
    ∀ a ∈ names, IsName a :=
  fun a ha => (all_writable_cons.mp (h a ha)).1.1

/-- A comparison that can be written is as it is read. -/
theorem term_of_writable {c : Condition} (hc : isTerm c = true)
    (h : AllWritable (conditionLexemes c)) : Term c := by
  cases c with
  | compare c r x =>
    simp only [conditionLexemes, all_writable_append, all_writable_cons] at h
    refine .compare (column_named h.1) ?_
    rintro d rfl
    exact column_named h.2.2
  | aggregate a r l =>
    simp only [conditionLexemes, all_writable_append] at h
    exact .aggregate (@item_named (.aggregate a) h.1)
  | between c low high =>
    simp only [conditionLexemes, all_writable_cons] at h
    exact .between h.1.1
  | inList c l ls =>
    simp only [conditionLexemes, all_writable_append] at h
    exact .inList (column_named h.1.1.1)
  | inQuery c q =>
    simp only [conditionLexemes, all_writable_append] at h
    exact .inQuery (column_named h.1.1.1)
  | connect => cases hc

theorem comb_of_writable {c : Condition} (hc : IsComb c) (h : AllWritable (conditionLexemes c)) :
    Comb c := by
  induction hc with
  | term ht => exact .term (term_of_writable ht h)
  | @connect l r w _ _ hr ih =>
    simp only [conditionLexemes, all_writable_append, all_writable_cons] at h
    obtain ⟨hl, hw, hright⟩ := h
    refine .connect (ih hl) ?_ (term_of_writable hr hright)
    have hword : Keyword.ofWord? w.toList = some (connectiveOf w) := hw
    unfold connectiveOf at hword
    split at hword
    · exact .inr hword
    · exact .inl hword

theorem source_named {s : Source Condition} (hs : SourceComb s)
    (h : AllWritable (sourceLexemes s)) : NamedSource s := by
  cases s with
  | table a =>
    rw [sourceLexemes, all_writable_cons] at h
    exact h.1.1
  | join a b on =>
    rw [SourceComb] at hs
    simp only [sourceLexemes, all_writable_append, all_writable_cons] at h
    exact ⟨h.1.1.1, h.1.2.2.1.1, comb_of_writable hs.1 h.2⟩
  | tables a b more =>
    rw [sourceLexemes, all_writable_cons] at h
    exact List.forall_mem_cons.mpr ⟨h.1.1, names_named (more_writable h.2)⟩

theorem named_table {s : Source Condition} (h : NamedSource s) {t : String}
    (ht : sourceTable s = .text t) : IsName t := by
  cases s with
  | table a =>
    cases ht
    exact h
  | join a b on =>
    cases ht
    exact h.1
  | tables a b more => cases ht

theorem clause_comb {k : Keyword} {c? : Option Condition} (hc : ClauseComb c?)
    (h : AllWritable (clauseLexemes k c?)) : ∀ c, c? = some c → Comb c := by
  rintro c rfl
  rw [ClauseComb] at hc
  exact comb_of_writable hc.1 (clause_writable h rfl)

/-- A statement that can be written is as it is read. -/
theorem statement_named {q : Query} (hq : HasCombs q) (h : AllWritable (statementLexemes q)) :
    Named q := by
  have hparts := writable_parts h
  obtain ⟨items, source, condition?, groupBy, having?, orderBy, limit?⟩ := q
  obtain ⟨hsource, hcondition, hhaving⟩ :
      SourceComb source ∧ ClauseComb condition? ∧ ClauseComb having? := by
    simpa [HasCombs] using hq
  refine ⟨?_, source_named hsource hparts.source, clause_comb hcondition hparts.condition,
    names_named (by_writable hparts.groupBy), clause_comb hhaving hparts.having⟩
  intro x hx
  cases items with
  | all => cases hx
  | items y ys =>
    obtain ⟨hy, hys⟩ := all_writable_append.mp hparts.items
    rcases List.mem_cons.mp hx with rfl | hx
    · exact item_named hy
    · exact item_named (more_writable hys x hx)

/-- All that a reader gives of writable lexemes has a property. -/
def Gets {α : Type} (read : Reader α) (P : α → Prop) : Prop :=
  ∀ ⦃ls : Lexemes⦄ ⦃x : α⦄ ⦃rest : Lexemes⦄, AllWritable ls → read ls = .ok (x, rest) → P x

theorem rest_writable {α : Type} {read : Reader α} (h : Leaves read) {ls rest : Lexemes} {x : α}
    (hread : read ls = .ok (x, rest)) (hls : AllWritable ls) : AllWritable rest :=
  fun l hl => hls l ((h hread).mem hl)

theorem identifier_gets : Gets Read.identifier fun a => Writable (.identifier a) := by
  intro ls x rest hls h
  unfold Read.identifier at h
  split at h
  · cases h
    exact (all_writable_cons.mp hls).1
  · cases h

theorem name_gets : Gets Read.identifier fun a => AllWritable (nameLexemes a) :=
  fun _ _ _ hls h => all_writable_cons.mpr ⟨identifier_gets hls h, all_writable_nil⟩

theorem literal_gets : Gets Read.literal fun l => Writable (literalLexeme l) := by
  intro ls x rest hls h
  unfold Read.literal at h
  split at h
  · cases h
    exact (all_writable_cons.mp hls).1
  · cases h
    exact (all_writable_cons.mp hls).1
  · cases h

theorem number_gets : Gets Read.number fun n => Writable (.number n) := by
  intro ls x rest hls h
  unfold Read.number at h
  split at h
  · cases h
    exact (all_writable_cons.mp hls).1
  · cases h

theorem column_ref_gets : Gets Read.columnRef fun c => AllWritable (columnLexemes c) := by
  intro ls x rest hls h
  unfold Read.columnRef at h
  split at h
  · simp only [bind_ok, Prod.exists] at h
    obtain ⟨b, ls', hb, hx⟩ := h
    cases hx
    obtain ⟨ht, hls⟩ := all_writable_cons.mp hls
    have hname := identifier_gets (all_writable_cons.mp hls).2 hb
    simp only [columnLexemes, all_writable_cons]
    exact ⟨ht, trivial, hname, all_writable_nil⟩
  · cases h
    simp only [columnLexemes, all_writable_cons]
    exact ⟨(all_writable_cons.mp hls).1, all_writable_nil⟩
  · cases h

theorem operand_gets : Gets Read.operand fun x => AllWritable (operandLexemes x) := by
  intro ls x rest hls h
  unfold Read.operand at h
  split at h
  · simp only [bind_ok, Prod.exists] at h
    obtain ⟨c, ls', hc, hx⟩ := h
    cases hx
    exact column_ref_gets hls hc
  · simp only [bind_ok, Prod.exists] at h
    obtain ⟨l, ls', hl, hx⟩ := h
    cases hx
    exact all_writable_cons.mpr ⟨literal_gets hls hl, all_writable_nil⟩

/-- An aggregate that is read has lexemes that are writable, and a writable alias. -/
theorem aggregate_gets : Gets Read.aggregate fun a => AllWritable (aggregateLexemes a) ∧
    (a = .countAll ∨ Writable (.identifier a.alias)) := by
  intro ls x rest hls h
  unfold Read.aggregate at h
  split at h
  · split at h
    · rename_i f _
      simp only [bind_ok, Prod.exists] at h
      obtain ⟨_, ls', hp, h⟩ := h
      have hls' := rest_writable (symbol_leaves _) hp (all_writable_cons.mp hls).2
      unfold Read.argument at h
      split at h
      · split at h
        · simp only [bind_ok, Prod.exists] at h
          obtain ⟨_, _, _, hx⟩ := h
          cases hx
          refine ⟨?_, .inl rfl⟩
          simp only [aggregateLexemes, all_writable_cons]
          exact ⟨word_writable _, trivial, trivial, trivial, all_writable_nil⟩
        · cases h
      · simp only [bind_ok, Prod.exists] at h
        obtain ⟨b, ls'', hb, _, _, _, hx⟩ := h
        cases hx
        have hname := identifier_gets hls' hb
        refine ⟨?_, .inr (alias_writable f hname.1)⟩
        simp only [aggregateLexemes, all_writable_cons]
        exact ⟨word_writable _, trivial, hname, trivial, all_writable_nil⟩
    · cases h
  · cases h

theorem select_item_gets : Gets Read.selectItem fun x => AllWritable (itemLexemes x) := by
  intro ls x rest hls h
  unfold Read.selectItem at h
  split at h
  · simp only [bind_ok, Prod.exists] at h
    obtain ⟨a, ls', ha, hx⟩ := h
    cases hx
    exact (aggregate_gets hls ha).1
  · simp only [bind_ok, Prod.exists] at h
    obtain ⟨c, ls', hc, hx⟩ := h
    cases hx
    exact column_ref_gets hls hc

theorem more_items_gets {α : Type} {item : Reader α} {write : α → Lexemes} (hl : Leaves item)
    (hi : Gets item fun x => AllWritable (write x)) (n : Nat) :
    Gets (Read.moreItems item n) fun xs => AllWritable (moreLexemes write xs) := by
  intro ls xs rest hls h
  fun_induction Read.moreItems item n ls generalizing xs rest with
  | case1 n ls ih =>
    simp only [bind_ok, Prod.exists] at h
    obtain ⟨y, ls', hy, ys, ls'', hys, hx⟩ := h
    cases hx
    have hls := (all_writable_cons.mp hls).2
    have hcons : moreLexemes write (y :: ys) =
        .symbol .comma :: (write y ++ moreLexemes write ys) :=
      rfl
    rw [hcons, all_writable_cons, all_writable_append]
    exact ⟨trivial, hi hls hy, ih _ (rest_writable hl hy hls) hys⟩
  | case2 n ls hne =>
    cases h
    exact all_writable_nil

theorem select_list_gets : Gets Read.selectList fun l => AllWritable (selectLexemes l) := by
  intro ls x rest hls h
  unfold Read.selectList at h
  split at h
  · cases h
    exact all_writable_cons.mpr ⟨trivial, all_writable_nil⟩
  · simp only [bind_ok, Prod.exists] at h
    obtain ⟨y, ls', hy, ys, ls'', hys, hx⟩ := h
    cases hx
    have hls' := rest_writable select_item_leaves hy hls
    exact all_writable_append.mpr ⟨select_item_gets hls hy,
      more_items_gets select_item_leaves select_item_gets _ hls' hys⟩

/-- A condition as it is read. -/
def ReadCondition (c : Condition) : Prop :=
  (IsComb c ∧ NestedCombs c) ∧ AllWritable (conditionLexemes c)

def ReadStatement (q : Query) : Prop := HasCombs q ∧ AllWritable (statementLexemes q)

/-- A comparison is joined to a condition. -/
theorem connect_read {c d : Condition} {k : Keyword} {w : String} (hc : ReadCondition c)
    (hd : ReadCondition d ∧ isTerm d = true) (hk : connectiveOf w = k)
    (hw : Writable (.keyword k w)) : ReadCondition (.connect c w d) := by
  refine ⟨⟨hc.1.1.connect trivial hd.2, by simpa [NestedCombs] using ⟨hc.1.2, hd.1.1.2⟩⟩, ?_⟩
  simp only [conditionLexemes, all_writable_append, all_writable_cons, hk]
  exact ⟨hc.2, hw, hd.1.2⟩

section

variable {sub : Reader Query} (hsub : Gets sub ReadStatement)

include hsub

theorem members_gets {c : ColumnRef} (hc : AllWritable (columnLexemes c)) :
    Gets (Read.members sub c) fun d => ReadCondition d ∧ isTerm d = true := by
  intro ls x rest hls h
  simp only [Read.members, bind_ok, Prod.exists] at h
  obtain ⟨_, ls', hp, h⟩ := h
  have hls' := rest_writable (symbol_leaves _) hp hls
  split at h
  · simp only [bind_ok, Prod.exists] at h
    obtain ⟨q, ls'', hq, _, _, _, hx⟩ := h
    cases hx
    obtain ⟨hcombs, hlexemes⟩ := hsub hls' hq
    refine ⟨⟨⟨.term rfl, by simpa [NestedCombs] using hcombs⟩, ?_⟩, rfl⟩
    simp only [conditionLexemes, all_writable_append, all_writable_cons]
    exact ⟨⟨⟨hc, word_writable _, trivial, all_writable_nil⟩, hlexemes⟩, trivial, all_writable_nil⟩
  · simp only [bind_ok, Prod.exists] at h
    obtain ⟨l, l1, hl, more, l2, hmore, _, _, _, hx⟩ := h
    cases hx
    have hliterals : Gets Read.literal fun l => AllWritable [literalLexeme l] :=
      fun _ _ _ hls h => all_writable_cons.mpr ⟨literal_gets hls h, all_writable_nil⟩
    have hrest := more_items_gets literal_leaves hliterals _
      (rest_writable literal_leaves hl hls') hmore
    refine ⟨⟨⟨.term rfl, by simp [NestedCombs]⟩, ?_⟩, rfl⟩
    simp only [conditionLexemes, all_writable_append, all_writable_cons]
    exact ⟨⟨⟨hc, word_writable _, trivial, literal_gets hls' hl, all_writable_nil⟩, hrest⟩, trivial,
      all_writable_nil⟩

theorem comparison_gets :
    Gets (Read.comparison sub) fun d => ReadCondition d ∧ isTerm d = true := by
  intro ls x rest hls h
  unfold Read.comparison at h
  split at h
  · simp only [bind_ok, Prod.exists] at h
    obtain ⟨low, l1, hlow, _, l2, hand, high, l3, hhigh, hx⟩ := h
    cases hx
    obtain ⟨hname, hls⟩ := all_writable_cons.mp hls
    have hls := (all_writable_cons.mp hls).2
    have hls' := rest_writable (keyword_leaves _) hand (rest_writable literal_leaves hlow hls)
    refine ⟨⟨⟨.term rfl, by simp [NestedCombs]⟩, ?_⟩, rfl⟩
    simp only [conditionLexemes, all_writable_cons]
    exact ⟨hname, word_writable _, literal_gets hls hlow, word_writable _, literal_gets hls' hhigh,
      all_writable_nil⟩
  · simp only [bind_ok, Prod.exists] at h
    obtain ⟨c, l1, hc, h⟩ := h
    have hcolumn := column_ref_gets hls hc
    have hls' := rest_writable column_ref_leaves hc hls
    split at h
    · exact members_gets hsub hcolumn (all_writable_cons.mp hls').2 h
    · simp only [bind_ok, Prod.exists] at h
      obtain ⟨r, l2, hr, y, l3, hy, hx⟩ := h
      cases hx
      refine ⟨⟨⟨.term rfl, by simp [NestedCombs]⟩, ?_⟩, rfl⟩
      simp only [conditionLexemes, all_writable_append, all_writable_cons]
      exact ⟨hcolumn, trivial, operand_gets (rest_writable relation_leaves hr hls') hy⟩
  · simp only [bind_ok, Prod.exists] at h
    obtain ⟨a, l1, ha, r, l2, hr, l, l3, hl, hx⟩ := h
    cases hx
    have hls' := rest_writable relation_leaves hr (rest_writable aggregate_leaves ha hls)
    refine ⟨⟨⟨.term rfl, by simp [NestedCombs]⟩, ?_⟩, rfl⟩
    simp only [conditionLexemes, all_writable_append, all_writable_cons]
    exact ⟨(aggregate_gets hls ha).1, trivial, literal_gets hls' hl, all_writable_nil⟩

variable (hleaves : Leaves sub)

include hleaves

theorem connected_gets (n : Nat) {c : Condition} (hc : ReadCondition c) :
    Gets (Read.connected (Read.comparison sub) n c) ReadCondition := by
  intro ls x rest hls h
  fun_induction Read.connected (Read.comparison sub) n c ls with
  | case1 n c w ls ih =>
    simp only [bind_ok, Prod.exists] at h
    obtain ⟨d, ls', hd, h⟩ := h
    obtain ⟨hw, hls⟩ := all_writable_cons.mp hls
    have hword : Keyword.ofWord? w.toList = some .andWord := hw
    have hjoined := connect_read hc (comparison_gets hsub hls hd)
      (by simp [connectiveOf, hword]) hw
    exact ih _ _ hjoined (rest_writable (comparison_leaves hleaves) hd hls) h
  | case2 n c w ls ih =>
    simp only [bind_ok, Prod.exists] at h
    obtain ⟨d, ls', hd, h⟩ := h
    obtain ⟨hw, hls⟩ := all_writable_cons.mp hls
    have hword : Keyword.ofWord? w.toList = some .orWord := hw
    have hjoined := connect_read hc (comparison_gets hsub hls hd)
      (by simp [connectiveOf, hword]) hw
    exact ih _ _ hjoined (rest_writable (comparison_leaves hleaves) hd hls) h
  | case3 n c ls _ _ =>
    cases h
    exact hc

theorem condition_gets : Gets (Read.condition sub) ReadCondition := by
  intro ls x rest hls h
  simp only [Read.condition, bind_ok, Prod.exists] at h
  obtain ⟨d, ls', hd, h⟩ := h
  exact connected_gets hsub hleaves _ (comparison_gets hsub hls hd).1
    (rest_writable (comparison_leaves hleaves) hd hls) h

theorem source_gets :
    Gets (Read.source sub) fun s => SourceComb s ∧ AllWritable (sourceLexemes s) := by
  intro ls x rest hls h
  simp only [Read.source, bind_ok, Prod.exists] at h
  obtain ⟨a, l1, ha, h⟩ := h
  have hname := identifier_gets hls ha
  have hl1 := rest_writable identifier_leaves ha hls
  split at h
  · simp only [bind_ok, Prod.exists, pure_ok, ok_bind] at h
    obtain ⟨b, l3, hb, _, l4, hk, c, l5, hc, ts, l6, hts, hx⟩ := h
    cases hx
    have hl2 := (all_writable_cons.mp hl1).2
    have hl4 := rest_writable (keyword_leaves _) hk (rest_writable identifier_leaves hb hl2)
    obtain ⟨hcomb, hlexemes⟩ := condition_gets hsub hleaves hl4 hc
    have hmore := more_items_gets identifier_leaves name_gets _
      (rest_writable (condition_leaves hleaves) hc hl4) hts
    have hsecond := identifier_gets hl2 hb
    cases ts with
    | nil =>
      refine ⟨by simpa [Read.tablesAfter, SourceComb] using hcomb, ?_⟩
      simp only [Read.tablesAfter, sourceLexemes, all_writable_append, all_writable_cons]
      exact ⟨⟨hname, word_writable _, hsecond, word_writable _, all_writable_nil⟩, hlexemes⟩
    | cons t ts =>
      refine ⟨by simp [Read.tablesAfter, SourceComb], ?_⟩
      have hcons : sourceLexemes (.tables a b (t :: ts)) =
          .identifier a :: .symbol .comma :: .identifier b ::
            moreLexemes nameLexemes (t :: ts) := by
        rw [sourceLexemes]
        rfl
      simp only [Read.tablesAfter, hcons, all_writable_cons]
      exact ⟨hname, trivial, hsecond, hmore⟩
  · simp only [bind_ok, Prod.exists, pure_ok, ok_bind] at h
    obtain ⟨ts, l2, hts, hx⟩ := h
    cases hx
    have hmore := more_items_gets identifier_leaves name_gets _ hl1 hts
    cases ts with
    | nil =>
      refine ⟨by simp [Read.tablesAfter, SourceComb], ?_⟩
      simp only [Read.tablesAfter, sourceLexemes, all_writable_cons]
      exact ⟨hname, all_writable_nil⟩
    | cons t ts =>
      refine ⟨by simp [Read.tablesAfter, SourceComb], ?_⟩
      simp only [Read.tablesAfter, sourceLexemes, all_writable_cons]
      exact ⟨hname, hmore⟩

end

theorem order_item_gets : Gets Read.orderItem fun o => AllWritable (orderLexemes o) := by
  have hcount : AllWritable (aggregateLexemes .countAll) := by
    simp only [aggregateLexemes, all_writable_cons]
    exact ⟨word_writable _, trivial, trivial, trivial, all_writable_nil⟩
  have hitem : ∀ (c : String) (d : Direction), c = Aggregate.countAll.alias ∨
      Writable (.identifier c) → AllWritable (orderLexemes ⟨c, d⟩) := by
    intro c d hc
    have hdirection : AllWritable [word d.keyword] :=
      all_writable_cons.mpr ⟨word_writable _, all_writable_nil⟩
    unfold orderLexemes
    split
    · exact all_writable_append.mpr ⟨hcount, hdirection⟩
    · rename_i hne
      have hname := hc.resolve_left hne
      exact all_writable_append.mpr ⟨all_writable_cons.mpr ⟨hname, all_writable_nil⟩, hdirection⟩
  intro ls x rest hls h
  unfold Read.orderItem at h
  split at h
  · simp only [bind_ok, Prod.exists] at h
    obtain ⟨d, ls', hd, hx⟩ := h
    cases hx
    exact hitem _ d (.inr (all_writable_cons.mp hls).1)
  · simp only [bind_ok, Prod.exists] at h
    obtain ⟨a, ls', ha, d, ls'', hd, hx⟩ := h
    cases hx
    refine hitem _ d ?_
    rcases (aggregate_gets hls ha).2 with rfl | halias
    · exact .inl rfl
    · exact .inr halias

theorem optional_gets {α : Type} (k : Keyword) {body : Reader α} {P : α → Prop}
    (hb : Gets body P) : Gets (Read.optional k body) fun x? => ∀ x, x? = some x → P x := by
  intro ls x? rest hls h x hx
  subst hx
  unfold Read.optional at h
  split at h
  · split at h
    · simp only [bind_ok, Prod.exists] at h
      obtain ⟨y, ls', hy, hx⟩ := h
      cases hx
      exact hb (all_writable_cons.mp hls).2 hy
    · cases h
  · cases h

theorem clause_gets {sub : Reader Query} (hsub : Gets sub ReadStatement) (hleaves : Leaves sub)
    (k : Keyword) : Gets (Read.optional k (Read.condition sub)) fun c? =>
      ClauseComb c? ∧ AllWritable (clauseLexemes k c?) := by
  intro ls c? rest hls h
  have hread := optional_gets k (condition_gets hsub hleaves) hls h
  cases c? with
  | none =>
    rw [ClauseComb, clauseLexemes]
    exact ⟨trivial, all_writable_nil⟩
  | some c =>
    obtain ⟨hcomb, hlexemes⟩ := hread c rfl
    rw [ClauseComb, clauseLexemes, all_writable_cons]
    exact ⟨hcomb, word_writable k, hlexemes⟩

/-- A clause of two words and a list. -/
theorem by_gets {α : Type} (k : Keyword) {body : Reader (List α)} {item : Reader α}
    {write : α → Lexemes} (hbody : ∀ ls, body ls = Read.keyword .byWord ls >>= fun p =>
      item p.2 >>= fun r => Read.moreItems item r.2.length r.2 >>= fun t => .ok (r.1 :: t.1, t.2))
    (hleaves : Leaves item) (hitem : Gets item fun x => AllWritable (write x)) :
    Gets (Read.optional k body) fun xs? => AllWritable (byLexemes k write (xs?.getD [])) := by
  have hgets : Gets body fun xs => AllWritable (byLexemes k write xs) := by
    intro ls xs rest hls h
    simp only [hbody, bind_ok, Prod.exists] at h
    obtain ⟨_, l1, hk, x, l2, hx, more, l3, hmore, he⟩ := h
    cases he
    have hl1 := rest_writable (keyword_leaves _) hk hls
    have hrest := more_items_gets hleaves hitem _ (rest_writable hleaves hx hl1) hmore
    simp only [byLexemes, all_writable_append, all_writable_cons]
    exact ⟨⟨word_writable k, word_writable _, hitem hl1 hx⟩, hrest⟩
  intro ls xs? rest hls h
  cases xs? with
  | none => exact all_writable_nil
  | some xs => exact optional_gets k hgets hls h xs rfl

/-- What a statement is made of is read as a text can have it. -/
theorem statement_gets {sub : Reader Query} (hsub : Gets sub ReadStatement)
    (hleaves : Leaves sub) : Gets (Read.statement sub) ReadStatement := by
  intro ls q rest hls h
  simp only [Read.statement, bind_ok, Prod.exists] at h
  obtain ⟨_, l1, h1, items, l2, h2, _, l3, h3, source, l4, h4, c?, l5, h5, groups?, l6, h6,
    having?, l7, h7, orders?, l8, h8, limit?, l9, h9, hx⟩ := h
  cases hx
  have hl1 := rest_writable (keyword_leaves _) h1 hls
  have hl3 := rest_writable (keyword_leaves _) h3 (rest_writable select_list_leaves h2 hl1)
  have hl4 := rest_writable (source_leaves hleaves) h4 hl3
  have hl5 := rest_writable (optional_leaves _ (condition_leaves hleaves)) h5 hl4
  have hl6 := rest_writable (optional_leaves _ column_names_leaves) h6 hl5
  have hl7 := rest_writable (optional_leaves _ (condition_leaves hleaves)) h7 hl6
  have hl8 := rest_writable (optional_leaves _ order_items_leaves) h8 hl7
  obtain ⟨hsource, hsourceLexemes⟩ := source_gets hsub hleaves hl3 h4
  obtain ⟨hwhere, hwhereLexemes⟩ := clause_gets hsub hleaves _ hl4 h5
  obtain ⟨hhaving, hhavingLexemes⟩ := clause_gets hsub hleaves _ hl6 h7
  have hgroup := by_gets .group (fun _ => rfl) identifier_leaves name_gets hl5 h6
  have horder := by_gets .order (fun _ => rfl) order_item_leaves order_item_gets hl7 h8
  have hlimit : AllWritable (limitLexemes limit?) := by
    cases limit? with
    | none => exact all_writable_nil
    | some n =>
      have hnumber := optional_gets _ number_gets hl8 h9 n rfl
      simp only [limitLexemes, all_writable_cons]
      exact ⟨word_writable _, hnumber, all_writable_nil⟩
  refine ⟨by simpa [HasCombs] using ⟨hsource, hwhere, hhaving⟩, ?_⟩
  simp only [statementLexemes, all_writable_append, all_writable_cons]
  exact ⟨⟨⟨⟨⟨⟨⟨word_writable _, select_list_gets hl1 h2⟩, word_writable _, hsourceLexemes⟩,
    hwhereLexemes⟩, hgroup⟩, hhavingLexemes⟩, horder⟩, hlimit⟩

theorem nested_gets (n : Nat) : Gets (Read.nested n) ReadStatement := by
  induction n with
  | zero =>
    intro ls q rest _ h
    cases h
  | succ n ih => exact statement_gets ih (nested_leaves n)

/-- A statement that is read of writable lexemes is written with such. -/
theorem of_lexemes_read {ls : Lexemes} {q : Query} (hls : AllWritable ls)
    (h : Query.ofLexemes ls = .ok q) : HasCombs q ∧ AllWritable (queryLexemes q) := by
  simp only [Query.ofLexemes, bind_ok, Prod.exists] at h
  obtain ⟨q', ls', hread, _, ls'', _, hx⟩ := h
  split at hx
  · cases hx
    obtain ⟨hcombs, hlexemes⟩ := nested_gets _ hls hread
    exact ⟨hcombs, all_writable_append.mpr
      ⟨hlexemes, all_writable_cons.mpr ⟨trivial, all_writable_nil⟩⟩⟩
  · cases hx

end DocQuery.Proofs
