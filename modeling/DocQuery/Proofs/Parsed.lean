import DocQuery.Proofs.Values
import DocQuery.Sql.Parser
import DocQuery.Text.Word
import Mathlib.Data.List.TakeWhile

namespace DocQuery.Proofs

open Sql

/-- A word of letters, digits and underscores that no digit starts. -/
def IsName (s : String) : Prop :=
  ∃ c cs, s.toList = c :: cs ∧ isWordStart c = true ∧ ∀ d ∈ cs, isWordPart d = true

theorem name_of_chars {s : String} (hstart : s.toList.head?.any isWordStart = true)
    (hparts : s.toList.all isWordPart = true) : IsName s := by
  cases hs : s.toList with
  | nil =>
    rw [hs] at hstart
    cases hstart
  | cons c cs =>
    rw [hs] at hstart hparts
    exact ⟨c, cs, hs, hstart, fun d hd => List.all_eq_true.mp hparts d (List.mem_cons_of_mem c hd)⟩

theorem word_start_part {c : Char} (h : isWordStart c = true) : isWordPart c = true := by
  simp only [isWordStart, isWordPart, Char.isAlphanum, Bool.or_eq_true] at h ⊢
  exact h.imp_left .inl

theorem word_part_bounds {c : Char} (h : isWordPart c = true) : 48 ≤ c.toNat ∧ c.toNat ≤ 122 := by
  delta isWordPart Char.isAlphanum Char.isAlpha Char.isUpper Char.isLower Char.isDigit at h
  simp [UInt32.le_iff_toNat_le] at h
  rcases h with h | rfl
  · omega
  · decide

/-- What holds of all small characters holds of those in words. -/
theorem word_part_small {P : Char → Prop} (h : ∀ n < 128, P (Char.ofNat n)) {c : Char}
    (hc : isWordPart c = true) : P c := by
  have hbounds := word_part_bounds hc
  have hP := h c.toNat (by omega)
  rwa [Char.ofNat_toNat] at hP

theorem word_part_word {c : Char} (h : isWordPart c = true) : Text.isWord c = true :=
  word_part_small (P := fun c => isWordPart c = true → Text.isWord c = true) (by decide) h h

theorem IsName.parts {s : String} (h : IsName s) : ∀ c ∈ s.toList, isWordPart c = true := by
  obtain ⟨c, cs, hs, hc, hcs⟩ := h
  rw [hs]
  exact List.forall_mem_cons.mpr ⟨word_start_part hc, hcs⟩

theorem IsName.ne_empty {s : String} (h : IsName s) : s ≠ "" := by
  rintro rfl
  obtain ⟨x, xs, hx, -⟩ := h
  cases hx

/-- Names are words, and keywords are spelled in some letter case. -/
def Spelled : Lexeme → Prop
  | .identifier a => IsName a
  | .keyword k w => Keyword.ofWord? w.toList = some k
  | _ => True

theorem keyword_spelled {k : Keyword} {cs : List Char} (h : Keyword.ofWord? cs = some k) :
    cs.map Char.toUpper = k.spelling.toList := by
  have := List.find?_some h
  exact (eq_of_beq this).symm

theorem munch_word {cs used : List Char} (h : munch cs = some (.word, used)) :
    ∃ c rest, used = c :: rest ∧ isWordStart c = true ∧ ∀ d ∈ rest, isWordPart d = true := by
  unfold munch at h
  split at h
  · cases h
  · rename_i c rest
    split at h
    · rename_i hc
      cases h
      exact ⟨c, _, rfl, hc, fun d hd => List.mem_takeWhile_imp hd⟩
    · split at h
      · cases h
      · split at h
        · split at h <;> cases h
        · simp at h

theorem lexeme_spelled {cls : LexClass} {cs used : List Char} {l : Lexeme}
    (hm : munch cs = some (cls, used)) (hl : cls.lexeme used = .ok l) : Spelled l := by
  cases cls with
  | word =>
    simp only [LexClass.lexeme] at hl
    split at hl
    · rename_i k hk
      cases hl
      simpa [Spelled] using hk
    · cases hl
      obtain ⟨c, rest, rfl, hc, hrest⟩ := munch_word hm
      exact ⟨c, rest, by simp, hc, hrest⟩
  | numeral =>
    simp only [LexClass.lexeme] at hl
    split at hl
    · cases hl
      trivial
    · cases hl
  | quoted =>
    cases hl
    trivial
  | symbol s =>
    cases hl
    trivial

theorem step_spelled {c next : Cursor} {t : Token} (h : c.step = .token t next) :
    Spelled t.lexeme := by
  unfold Cursor.step at h
  split at h
  · cases h
  · split at h
    · cases h
    · split at h
      · cases h
      · split at h
        · cases h
        · rename_i cls used hm
          split at h
          · rename_i l hl
            cases h
            exact lexeme_spelled hm hl
          · cases h

theorem cursor_spelled (n : Nat) (c : Cursor) : ∀ t ∈ (c.scan n).tokens, Spelled t.lexeme := by
  induction n generalizing c with
  | zero => simp [Cursor.scan]
  | succ n ih =>
    unfold Cursor.scan
    cases hs : c.step with
    | skip next => exact ih next
    | token t next =>
      intro u hu
      rcases List.mem_cons.mp hu with rfl | hu
      · exact step_spelled hs
      · exact ih next u hu
    | fail e next => simp
    | done => simp

/-- Every lexeme of a scanned text is spelled as its kind asks. -/
theorem scan_spelled (text : String) (line : Nat) :
    ∀ l ∈ (scan text line).tokens.map (·.lexeme), Spelled l := by
  intro l hl
  obtain ⟨t, ht, rfl⟩ := List.mem_map.mp hl
  exact cursor_spelled _ _ t ht

/-- A reader leaves an end of its lexemes. -/
def Leaves {α : Type} (r : Reader α) : Prop :=
  ∀ {ls : Lexemes} {x : α} {rest : Lexemes}, r ls = .ok (x, rest) → rest <:+ ls

theorem symbol_leaves (s : Symbol) : Leaves (Read.symbol s) := by
  intro ls x rest h
  unfold Read.symbol at h
  split at h
  · split at h
    · cases h
      exact List.suffix_cons _ _
    · cases h
  · cases h

theorem keyword_leaves (k : Keyword) : Leaves (Read.keyword k) := by
  intro ls x rest h
  unfold Read.keyword at h
  split at h
  · split at h
    · cases h
      exact List.suffix_cons _ _
    · cases h
  · cases h

theorem identifier_leaves : Leaves Read.identifier := by
  intro ls x rest h
  unfold Read.identifier at h
  split at h
  · cases h
    exact List.suffix_cons _ _
  · cases h

theorem literal_leaves : Leaves Read.literal := by
  intro ls x rest h
  unfold Read.literal at h
  split at h
  · cases h
    exact List.suffix_cons _ _
  · cases h
    exact List.suffix_cons _ _
  · cases h

theorem relation_leaves : Leaves Read.relation := by
  intro ls x rest h
  unfold Read.relation at h
  split at h
  · split at h
    · cases h
      exact List.suffix_cons _ _
    · cases h
  · cases h

theorem column_ref_leaves : Leaves Read.columnRef := by
  intro ls x rest h
  unfold Read.columnRef at h
  split at h
  · simp only [bind_ok, Prod.exists] at h
    obtain ⟨b, ls', hb, hx⟩ := h
    cases hx
    exact (identifier_leaves hb).trans ((List.suffix_cons _ _).trans (List.suffix_cons _ _))
  · cases h
    exact List.suffix_cons _ _
  · cases h

theorem argument_leaves (f : Func) : Leaves (Read.argument f) := by
  intro ls x rest h
  unfold Read.argument at h
  split at h
  · split at h
    · simp only [bind_ok, Prod.exists] at h
      obtain ⟨_, ls', hs, hx⟩ := h
      cases hx
      exact (symbol_leaves _ hs).trans (List.suffix_cons _ _)
    · cases h
  · simp only [bind_ok, Prod.exists] at h
    obtain ⟨c, ls', hc, _, ls'', hs, hx⟩ := h
    cases hx
    exact (symbol_leaves _ hs).trans (identifier_leaves hc)

theorem aggregate_leaves : Leaves Read.aggregate := by
  intro ls x rest h
  unfold Read.aggregate at h
  split at h
  · split at h
    · simp only [bind_ok, Prod.exists] at h
      obtain ⟨_, ls', hs, ha⟩ := h
      exact ((argument_leaves _ ha).trans (symbol_leaves _ hs)).trans (List.suffix_cons _ _)
    · cases h
  · cases h

theorem select_item_leaves : Leaves Read.selectItem := by
  intro ls x rest h
  unfold Read.selectItem at h
  split at h
  · simp only [bind_ok, Prod.exists] at h
    obtain ⟨a, ls', ha, hx⟩ := h
    cases hx
    exact aggregate_leaves ha
  · simp only [bind_ok, Prod.exists] at h
    obtain ⟨c, ls', hc, hx⟩ := h
    cases hx
    exact column_ref_leaves hc

theorem more_items_leaves {α : Type} {item : Reader α} (hi : Leaves item) (n : Nat) :
    Leaves (Read.moreItems item n) := by
  intro ls x rest h
  fun_induction Read.moreItems item n ls generalizing x rest with
  | case1 n ls ih =>
    simp only [bind_ok, Prod.exists] at h
    obtain ⟨y, ls', hy, ys, ls'', hys, hx⟩ := h
    cases hx
    exact ((ih _ hys).trans (hi hy)).trans (List.suffix_cons _ _)
  | case2 n ls hne =>
    cases h
    exact List.suffix_rfl

theorem select_list_leaves : Leaves Read.selectList := by
  intro ls x rest h
  unfold Read.selectList at h
  split at h
  · cases h
    exact List.suffix_cons _ _
  · simp only [bind_ok, Prod.exists] at h
    obtain ⟨y, ls', hy, ys, ls'', hys, hx⟩ := h
    cases hx
    exact (more_items_leaves select_item_leaves _ hys).trans (select_item_leaves hy)

theorem operand_leaves : Leaves Read.operand := by
  intro ls x rest h
  unfold Read.operand at h
  split at h
  · simp only [bind_ok, Prod.exists] at h
    obtain ⟨c, ls', hc, hx⟩ := h
    cases hx
    exact column_ref_leaves hc
  · simp only [bind_ok, Prod.exists] at h
    obtain ⟨l, ls', hl, hx⟩ := h
    cases hx
    exact literal_leaves hl

theorem optional_leaves {α : Type} (k : Keyword) {body : Reader α} (hb : Leaves body) :
    Leaves (Read.optional k body) := by
  intro ls x rest h
  unfold Read.optional at h
  split at h
  · split at h
    · simp only [bind_ok, Prod.exists] at h
      obtain ⟨y, ls', hy, hx⟩ := h
      cases hx
      exact (hb hy).trans (List.suffix_cons _ _)
    · cases h
      exact List.suffix_rfl
  · cases h
    exact List.suffix_rfl

theorem column_names_leaves : Leaves Read.columnNames := by
  intro ls x rest h
  simp only [Read.columnNames, bind_ok, Prod.exists] at h
  obtain ⟨_, ls', hk, y, ls'', hy, ys, ls3, hys, hx⟩ := h
  cases hx
  exact ((more_items_leaves identifier_leaves _ hys).trans (identifier_leaves hy)).trans
    (keyword_leaves _ hk)

theorem direction_leaves : Leaves Read.direction := by
  intro ls x rest h
  unfold Read.direction at h
  split at h
  · cases h
    exact List.suffix_cons _ _
  · cases h
    exact List.suffix_cons _ _
  · cases h
    exact List.suffix_rfl

theorem order_item_leaves : Leaves Read.orderItem := by
  intro ls x rest h
  unfold Read.orderItem at h
  split at h
  · simp only [bind_ok, Prod.exists] at h
    obtain ⟨d, ls', hd, hx⟩ := h
    cases hx
    exact (direction_leaves hd).trans (List.suffix_cons _ _)
  · simp only [bind_ok, Prod.exists] at h
    obtain ⟨a, ls', ha, d, ls'', hd, hx⟩ := h
    cases hx
    exact (direction_leaves hd).trans (aggregate_leaves ha)

theorem order_items_leaves : Leaves Read.orderItems := by
  intro ls x rest h
  simp only [Read.orderItems, bind_ok, Prod.exists] at h
  obtain ⟨_, ls', hk, y, ls'', hy, ys, ls3, hys, hx⟩ := h
  cases hx
  exact ((more_items_leaves order_item_leaves _ hys).trans (order_item_leaves hy)).trans
    (keyword_leaves _ hk)

theorem number_leaves : Leaves Read.number := by
  intro ls x rest h
  unfold Read.number at h
  split at h
  · cases h
    exact List.suffix_cons _ _
  · cases h

theorem connected_leaves {term : Reader Condition} (ht : Leaves term) (n : Nat) (c : Condition) :
    Leaves (Read.connected term n c) := by
  intro ls x rest h
  fun_induction Read.connected term n c ls generalizing x rest with
  | case1 n c w ls ih =>
    simp only [bind_ok, Prod.exists] at h
    obtain ⟨d, ls', hd, h⟩ := h
    exact ((ih _ _ h).trans (ht hd)).trans (List.suffix_cons _ _)
  | case2 n c w ls ih =>
    simp only [bind_ok, Prod.exists] at h
    obtain ⟨d, ls', hd, h⟩ := h
    exact ((ih _ _ h).trans (ht hd)).trans (List.suffix_cons _ _)
  | case3 n c ls hand hor =>
    cases h
    exact List.suffix_rfl

section

variable {subquery : Reader Query} (hq : Leaves subquery)

include hq

theorem members_leaves (c : ColumnRef) : Leaves (Read.members subquery c) := by
  intro ls x rest h
  simp only [Read.members, bind_ok, Prod.exists] at h
  obtain ⟨_, ls', hp, h⟩ := h
  refine List.IsSuffix.trans ?_ (symbol_leaves _ hp)
  split at h
  · simp only [bind_ok, Prod.exists] at h
    obtain ⟨q, ls'', hs, _, ls3, hr, hx⟩ := h
    cases hx
    exact (symbol_leaves _ hr).trans (hq hs)
  · simp only [bind_ok, Prod.exists] at h
    obtain ⟨l, ls'', hl, more, ls3, hm, _, ls4, hr, hx⟩ := h
    cases hx
    exact ((symbol_leaves _ hr).trans (more_items_leaves literal_leaves _ hm)).trans
      (literal_leaves hl)

theorem comparison_leaves : Leaves (Read.comparison subquery) := by
  intro ls x rest h
  unfold Read.comparison at h
  split at h
  · simp only [bind_ok, Prod.exists] at h
    obtain ⟨low, ls', hl, _, ls'', hk, high, ls3, hh, hx⟩ := h
    cases hx
    exact (((literal_leaves hh).trans (keyword_leaves _ hk)).trans (literal_leaves hl)).trans
      ((List.suffix_cons _ _).trans (List.suffix_cons _ _))
  · simp only [bind_ok, Prod.exists] at h
    obtain ⟨c, ls', hc, h⟩ := h
    refine List.IsSuffix.trans ?_ (column_ref_leaves hc)
    split at h
    · exact (members_leaves hq c h).trans (List.suffix_cons _ _)
    · simp only [bind_ok, Prod.exists] at h
      obtain ⟨r, ls'', hr, y, ls3, hy, hx⟩ := h
      cases hx
      exact (operand_leaves hy).trans (relation_leaves hr)
  · simp only [bind_ok, Prod.exists] at h
    obtain ⟨a, ls', ha, r, ls'', hr, l, ls3, hl, hx⟩ := h
    cases hx
    exact ((literal_leaves hl).trans (relation_leaves hr)).trans (aggregate_leaves ha)

theorem condition_leaves : Leaves (Read.condition subquery) := by
  intro ls x rest h
  simp only [Read.condition, bind_ok, Prod.exists] at h
  obtain ⟨c, ls', hc, h⟩ := h
  exact (connected_leaves (comparison_leaves hq) _ c h).trans (comparison_leaves hq hc)

theorem source_leaves : Leaves (Read.source subquery) := by
  intro ls x rest h
  simp only [Read.source, bind_ok, Prod.exists] at h
  obtain ⟨a, ls', ha, h⟩ := h
  refine List.IsSuffix.trans ?_ (identifier_leaves ha)
  split at h
  · simp only [bind_ok, Prod.exists, pure_ok, ok_bind] at h
    obtain ⟨b, l1, hb, _, l2, hk, c, l3, hc, ts, l4, hts, hx⟩ := h
    cases hx
    exact (((more_items_leaves identifier_leaves _ hts).trans (condition_leaves hq hc)).trans
      ((keyword_leaves _ hk).trans (identifier_leaves hb))).trans (List.suffix_cons _ _)
  · simp only [bind_ok, Prod.exists, pure_ok, ok_bind] at h
    obtain ⟨ts, l1, hts, hx⟩ := h
    cases hx
    exact more_items_leaves identifier_leaves _ hts

theorem statement_leaves : Leaves (Read.statement subquery) := by
  intro ls x rest h
  simp only [Read.statement, bind_ok, Prod.exists] at h
  obtain ⟨_, l1, h1, _, l2, h2, _, l3, h3, _, l4, h4, _, l5, h5, _, l6, h6, _, l7, h7, _, l8, h8,
    _, l9, h9, hx⟩ := h
  cases hx
  have hwhere : l5 <:+ ls := (optional_leaves _ (condition_leaves hq) h5).trans
    ((source_leaves hq h4).trans ((keyword_leaves _ h3).trans
      ((select_list_leaves h2).trans (keyword_leaves _ h1))))
  have hhaving : l7 <:+ l5 :=
    (optional_leaves _ (condition_leaves hq) h7).trans (optional_leaves _ column_names_leaves h6)
  exact ((optional_leaves _ number_leaves h9).trans
    ((optional_leaves _ order_items_leaves h8).trans hhaving)).trans hwhere

end

theorem nested_leaves (n : Nat) : Leaves (Read.nested n) := by
  induction n with
  | zero =>
    intro ls x rest h
    cases h
  | succ n ih =>
    intro ls x rest h
    exact statement_leaves ih h

/-- The column and its table, if it names one, are words. -/
def NamedColumn (c : ColumnRef) : Prop := IsName c.name ∧ ∀ t, c.table? = some t → IsName t

/-- A comparison as it is read. -/
inductive Term : Condition → Prop where
  | compare {c : ColumnRef} {r : Relation} {x : Operand} (hc : NamedColumn c)
      (hx : ∀ d, x = .column d → NamedColumn d) : Term (.compare c r x)
  | aggregate (ha : ∀ f c, a = .call f c → IsName c) : Term (.aggregate a r l)
  | between (hc : IsName c) : Term (.between c low high)
  | inList (hc : NamedColumn c) : Term (.inList c l ls)
  | inQuery (hc : NamedColumn c) : Term (.inQuery c q)

/-- A condition joins one comparison to all those before it. -/
inductive CombOf (Leaf : Condition → Prop) (Word : String → Prop) : Condition → Prop where
  | term {c : Condition} (ht : Leaf c) : CombOf Leaf Word c
  | connect {l r : Condition} {w : String} (hl : CombOf Leaf Word l) (hw : Word w) (hr : Leaf r) :
      CombOf Leaf Word (.connect l w r)

/-- A condition as it is read. -/
abbrev Comb : Condition → Prop :=
  CombOf Term fun w => Keyword.ofWord? w.toList = some .andWord ∨
    Keyword.ofWord? w.toList = some .orWord

/-- The items of a select list, none where all columns are selected. -/
def selectedItems : SelectList → List SelectItem
  | .all => []
  | .items x xs => x :: xs

/-- A selected item whose names are words. -/
def NamedItem : SelectItem → Prop
  | .column c => NamedColumn c
  | .aggregate a => ∀ f c, a = .call f c → IsName c

/-- Tables whose names are words, joined by a condition as it is read. -/
def NamedSource : Source Condition → Prop
  | .table a => IsName a
  | .join a b on => IsName a ∧ IsName b ∧ Comb on
  | .tables a b more => ∀ t ∈ a :: b :: more, IsName t

/-- A statement as it is read: its names are words, and its conditions are combs. -/
structure Named (q : Query) : Prop where
  items : ∀ x ∈ selectedItems q.items, NamedItem x
  source : NamedSource q.source
  condition : ∀ c, q.condition? = some c → Comb c
  groupBy : ∀ c ∈ q.groupBy, IsName c
  having : ∀ c, q.having? = some c → Comb c

end DocQuery.Proofs
