import DocQuery.Proofs.FilterTexts
import DocQuery.Proofs.QuotedForms

namespace DocQuery.Proofs

open Sql

/-- Starts every line but the first with blanks. -/
def tab (n : Nat) (cs : List Char) : List Char :=
  cs.flatMap fun c => if c = '\n' then c :: List.replicate n ' ' else [c]

theorem indent_chars (n : Nat) (s : String) : (Value.indent n s).toList = tab n s.toList :=
  String.toList_ofList

theorem tab_append (n : Nat) (cs ds : List Char) : tab n (cs ++ ds) = tab n cs ++ tab n ds :=
  List.flatMap_append

theorem tab_line {cs : List Char} (h : '\n' ∉ cs) (n : Nat) : tab n cs = cs := by
  induction cs with
  | nil => rfl
  | cons c cs ih =>
    obtain ⟨hc, hcs⟩ := not_or.mp (List.mem_cons.not.mp h)
    have hsame : tab n cs = cs := ih hcs
    rw [tab, List.flatMap_cons, if_neg (Ne.symm hc)]
    exact congrArg (c :: ·) hsame

theorem tab_cons (n : Nat) (c : Char) (cs : List Char) : ∃ ds, tab n (c :: cs) = c :: ds := by
  by_cases hc : c = '\n' <;> simp [tab, hc]

theorem tab_tab (m n : Nat) (cs : List Char) : tab n (tab m cs) = tab (n + m) cs := by
  induction cs with
  | nil => rfl
  | cons c cs ih =>
    have hone : tab n (tab m [c]) = tab (n + m) [c] := by
      by_cases hc : c = '\n'
      · have hblanks : tab n (List.replicate m ' ') = List.replicate m ' ' :=
          tab_line (by simp) n
        have hbreak : tab m [c] = [c] ++ List.replicate m ' ' := by simp [tab, hc]
        rw [hbreak, tab_append, hblanks]
        simp [tab, hc]
      · simp [tab, hc]
    rw [← List.singleton_append, tab_append, tab_append, hone, ih, ← tab_append]

/-- Two runs of characters of a kind, each up to one of another kind, are equal. -/
theorem runs_equal {p : Char → Prop} {s t x y : List Char} {c d : Char} (hs : ∀ a ∈ s, p a)
    (ht : ∀ a ∈ t, p a) (hc : ¬p c) (hd : ¬p d) (h : s ++ c :: x = t ++ d :: y) :
    s = t ∧ c = d ∧ x = y := by
  induction s generalizing t with
  | nil =>
    cases t with
    | nil =>
      obtain ⟨rfl, rfl⟩ := List.cons.inj h
      exact ⟨rfl, rfl, rfl⟩
    | cons b t => exact absurd ((List.cons.inj h).1 ▸ ht b List.mem_cons_self) hc
  | cons a s ih =>
    cases t with
    | nil => exact absurd ((List.cons.inj h).1 ▸ hs a List.mem_cons_self) hd
    | cons b t =>
      obtain ⟨rfl, hrest⟩ := List.cons.inj h
      obtain ⟨rfl, hend⟩ :=
        ih (List.forall_mem_cons.mp hs).2 (List.forall_mem_cons.mp ht).2 hrest
      exact ⟨rfl, hend⟩

/-- A text in quotes ends with its closing quote. -/
theorem quoted_equal {s t : String} {x y : List Char}
    (h : Text.quoteChars s.toList ++ x = Text.quoteChars t.toList ++ y) : s = t ∧ x = y := by
  obtain ⟨q, body, -, hbody, hs⟩ := (quote_form s).form
  obtain ⟨r, body', -, hbody', ht⟩ := (quote_form t).form
  rw [hs, ht] at h
  simp only [List.cons_append, List.append_assoc, List.nil_append] at h
  obtain ⟨rfl, hrest⟩ := List.cons.inj h
  have hread := hbody.unquotes x _ (Nat.lt_succ_self _)
  rw [hrest, hbody'.unquotes y _ (Nat.lt_succ_self _)] at hread
  obtain ⟨hst, hyx⟩ := Prod.mk.inj (Option.some.inj hread)
  exact ⟨(String.toList_inj.mp hst).symm, hyx.symm⟩

/-- What follows does not go on with a number. -/
def NoDigit (cs : List Char) : Prop := ∀ c ∈ cs.head?, c.isDigit = false

/-- What is written can be told from other writings, whatever follows. -/
def Told {α : Type} (write : α → List Char) (P : α → Prop) (a : α) : Prop :=
  ∀ {b : α} {x y : List Char}, P b → NoDigit x → NoDigit y → write a ++ x = write b ++ y →
    a = b ∧ x = y

/-- A label inside a tree starts with no digit, wherever it is moved. -/
theorem label_no_digit {label : List Char} {c : Char} (hlabel : label.head? = some c)
    (hc : c.isDigit = false) (n : Nat) (x : List Char) : NoDigit (tab n label ++ x) := by
  obtain ⟨cs, rfl⟩ := List.head?_eq_some_iff.mp hlabel
  obtain ⟨ds, hds⟩ := tab_cons n c cs
  rw [hds]
  rintro d hd
  cases hd
  exact hc

/-- What stands for an empty list, and what stands before, between and after items. -/
structure ListStyle where
  empty : List Char
  start : List Char
  between : List Char
  stop : List Char

namespace ListStyle

/-- The items after the first one. -/
def more {α : Type} (st : ListStyle) (write : α → List Char) (xs : List α) : List Char :=
  xs.flatMap fun x => st.between ++ write x

def write {α : Type} (st : ListStyle) (write : α → List Char) : List α → List Char
  | [] => st.empty
  | x :: xs => st.start ++ (write x ++ (st.more write xs ++ st.stop))

def tab (st : ListStyle) (n : Nat) : ListStyle :=
  ⟨Proofs.tab n st.empty, Proofs.tab n st.start, Proofs.tab n st.between, Proofs.tab n st.stop⟩

theorem tab_write {α : Type} (st : ListStyle) (n : Nat) (write : α → List Char) (xs : List α) :
    Proofs.tab n (st.write write xs) = (st.tab n).write (fun x => Proofs.tab n (write x)) xs := by
  have hmore : ∀ xs, Proofs.tab n (st.more write xs) =
      (st.tab n).more (fun x => Proofs.tab n (write x)) xs := by
    intro xs
    induction xs with
    | nil => rfl
    | cons x xs ih =>
      simp only [more, List.flatMap_cons, tab_append] at ih ⊢
      rw [ih]
      rfl
  cases xs with
  | nil => rfl
  | cons x xs =>
    simp only [ListStyle.write, tab_append, hmore]
    rfl

/-- What goes on with a list can be told from what ends it, and neither is a digit. -/
structure Marked (st : ListStyle) : Prop where
  between : ∃ c cs, st.between = c :: cs ∧ c.isDigit = false
  stop : ∃ c cs, st.stop = c :: cs ∧ c.isDigit = false
  differ : st.between.head? ≠ st.stop.head?

theorem Marked.tab {st : ListStyle} (h : st.Marked) (n : Nat) : (st.tab n).Marked := by
  obtain ⟨⟨c, cs, hbetween, hc⟩, ⟨d, ds, hstop, hd⟩, hdiffer⟩ := h
  obtain ⟨cs', hcs'⟩ := tab_cons n c cs
  obtain ⟨ds', hds'⟩ := tab_cons n d ds
  have hbetween' : (st.tab n).between = c :: cs' := by rw [ListStyle.tab, hbetween, hcs']
  have hstop' : (st.tab n).stop = d :: ds' := by rw [ListStyle.tab, hstop, hds']
  refine ⟨⟨c, cs', hbetween', hc⟩, ⟨d, ds', hstop', hd⟩, ?_⟩
  rw [hbetween, hstop] at hdiffer
  rwa [hbetween', hstop']

section Told
variable {α : Type} {st : ListStyle} {write : α → List Char} {P : α → Prop}

theorem more_no_digit (hst : st.Marked) (xs : List α) (x : List Char) :
    NoDigit (st.more write xs ++ (st.stop ++ x)) := by
  obtain ⟨⟨c, cs, hbetween, hc⟩, ⟨d, ds, hstop, hd⟩, -⟩ := hst
  cases xs with
  | nil =>
    simp [more, hstop, NoDigit, hd]
  | cons a xs => simp [more, hbetween, NoDigit, hc]

theorem more_told (hst : st.Marked) {xs ys : List α} {u v : List Char}
    (hxs : ∀ x ∈ xs, Told write P x) (hys : ∀ y ∈ ys, P y)
    (h : st.more write xs ++ (st.stop ++ u) = st.more write ys ++ (st.stop ++ v)) :
    xs = ys ∧ u = v := by
  have hends : ∀ (a : α) (zs : List α) (u v : List Char),
      st.stop ++ u ≠ st.more write (a :: zs) ++ (st.stop ++ v) := by
    intro a zs u v he
    obtain ⟨⟨c, cs, hbetween, -⟩, ⟨d, ds, hstop, -⟩, hdiffer⟩ := hst
    rw [hbetween, hstop] at hdiffer
    simp [more, hbetween, hstop] at he
    exact hdiffer (by rw [he.1]; rfl)
  induction xs generalizing ys with
  | nil =>
    cases ys with
    | nil => exact ⟨rfl, List.append_cancel_left h⟩
    | cons b ys => exact absurd h (hends b ys u v)
  | cons a xs ih =>
    cases ys with
    | nil => exact absurd h.symm (hends a xs v u)
    | cons b ys =>
      obtain ⟨ha, hmore⟩ := List.forall_mem_cons.mp hxs
      obtain ⟨hb, hmore'⟩ := List.forall_mem_cons.mp hys
      simp only [more, List.flatMap_cons, List.append_assoc] at h
      obtain ⟨rfl, hrest⟩ := ha hb (more_no_digit hst xs u) (more_no_digit hst ys v)
        (List.append_cancel_left h)
      obtain ⟨rfl, hend⟩ := ih hmore hmore' hrest
      exact ⟨rfl, hend⟩

/-- A list is told from others item by item. -/
theorem write_told (hst : st.Marked)
    (hempty : ∀ a u v, P a → st.empty ++ u ≠ st.start ++ (write a ++ v)) {xs ys : List α}
    {u v : List Char} (hxs : ∀ x ∈ xs, Told write P x ∧ P x) (hys : ∀ y ∈ ys, P y)
    (h : st.write write xs ++ u = st.write write ys ++ v) : xs = ys ∧ u = v := by
  cases xs with
  | nil =>
    cases ys with
    | nil => exact ⟨rfl, List.append_cancel_left h⟩
    | cons b ys =>
      simp only [ListStyle.write, List.append_assoc] at h
      exact absurd h (hempty b u _ (hys b List.mem_cons_self))
  | cons a xs =>
    obtain ⟨⟨ha, ha'⟩, hmore⟩ := List.forall_mem_cons.mp hxs
    cases ys with
    | nil =>
      simp only [ListStyle.write, List.append_assoc] at h
      exact absurd h.symm (hempty a v _ ha')
    | cons b ys =>
      obtain ⟨hb, hmore'⟩ := List.forall_mem_cons.mp hys
      simp only [ListStyle.write, List.append_assoc] at h
      obtain ⟨rfl, hrest⟩ := ha hb (more_no_digit hst xs u) (more_no_digit hst ys v)
        (List.append_cancel_left h)
      obtain ⟨rfl, hend⟩ := more_told hst (fun x hx => (hmore x hx).1) hmore' hrest
      exact ⟨rfl, hend⟩

end Told

end ListStyle

/-- Lists inside brackets, on one line. -/
def rowStyle : ListStyle := ⟨"[]".toList, "[".toList, ", ".toList, "]".toList⟩

/-- Lists inside brackets, with a line for each item. -/
def blockStyle : ListStyle :=
  ⟨"[]".toList, "[\n        ".toList, ",\n        ".toList, "\n    ]".toList⟩

theorem row_marked : rowStyle.Marked := ⟨⟨_, _, rfl, rfl⟩, ⟨_, _, rfl, rfl⟩, by decide⟩

theorem block_marked : blockStyle.Marked := ⟨⟨_, _, rfl, rfl⟩, ⟨_, _, rfl, rfl⟩, by decide⟩

/-- A text that stands in quotes as it is. -/
def Bare (s : String) : Prop := ∀ c ∈ s.toList, c ≠ '\'' ∧ c ≠ '\n'

/-- What can stand in quotes without escapes: a name, or what does not look like one. -/
def NameLike : Value → Prop
  | .text s => IsName s
  | .list _ | .dict _ | .aggregate .. => True
  | _ => False

/-- A text as it is, or the text of another value. -/
def rawText (v : Value) (cs : List Char) : List Char :=
  match v with
  | .text s => s.toList
  | _ => cs

def columnText (table column : List Char) : List Char :=
  "\x7b'table': ".toList ++ (table ++ (", 'column': ".toList ++ (column ++ "\x7d".toList)))

def pairText (a b : List Char) : List Char :=
  "(".toList ++ (a ++ (", ".toList ++ (b ++ ")".toList)))

def aggregateText (func column : List Char) : List Char :=
  "Aggregate(\n    func='".toList ++ (func ++ ("',\n    column='".toList ++
    (column ++ "'\n)".toList)))

def orderText (column direction : List Char) : List Char :=
  "OrderByItem(\n    column='".toList ++ (column ++ ("',\n    direction='".toList ++
    (direction ++ "'\n)".toList)))

def comparisonText (identifier operator value : List Char) : List Char :=
  "Comparison(\n    identifier='".toList ++ (identifier ++ ("',\n    operator='".toList ++
    (operator ++ ("',\n    value=".toList ++ (value ++ "\n)".toList)))))

def logicalText (left operator right : List Char) : List Char :=
  "LogicalCondition(\n    left=".toList ++ (left ++ (",\n    operator='".toList ++
    (operator ++ ("',\n    right=".toList ++ (right ++ "\n)".toList)))))

def selectText (columns table condition groups having orders limit : List Char) : List Char :=
  "SelectQuery(\n    columns=".toList ++ (columns ++ (",\n    table='".toList ++
    (table ++ ("',\n    where=".toList ++ (condition ++ (",\n    group_by=".toList ++
    (groups ++ (",\n    having=".toList ++ (having ++ (",\n    order_by=".toList ++
    (orders ++ (",\n    limit=".toList ++ (limit ++ ",\n    offset=None\n)".toList)))))))))))))

/-- What a condition is, or what stands for none. -/
def OptionalNode (v : Value) : Prop := v = .null ∨ v.present = true

/-- A tree without joins, and its text. -/
inductive TreeText : Value → List Char → Prop where
  | null : TreeText .null "None".toList
  | number (n : Nat) : TreeText (.int n) (Nat.toDigits 10 n)
  | text (s : String) : TreeText (.text s) (Text.quoteChars s.toList)
  | column {t c : Value} {ts cs : List Char} (ht : TreeText t ts) (hc : TreeText c cs) :
      TreeText (.dict [(.text "table", t), (.text "column", c)]) (columnText ts cs)
  | list {ps : List (Value × List Char)} (h : ∀ p ∈ ps, TreeText p.1 p.2) :
      TreeText (.list (ps.map Prod.fst)) (rowStyle.write Prod.snd ps)
  | pair {a b : Value} {as bs : List Char} (ha : TreeText a as) (hb : TreeText b bs) :
      TreeText (.tuple [a, b]) (pairText as bs)
  | aggregate {f c : String} (hf : Bare f) (hc : Bare c) :
      TreeText (.aggregate f (.text c)) (aggregateText f.toList c.toList)
  | orderItem {c d : String} (hc : Bare c) (hd : Bare d) :
      TreeText (.orderItem (.text c) d) (orderText c.toList d.toList)
  | comparison {i v : Value} {o : String} {is vs : List Char} (hi : TreeText i is)
      (hname : NameLike i) (ho : Bare o) (hv : TreeText v vs) :
      TreeText (.comparison i (.text o) v) (comparisonText (rawText i is) o.toList vs)
  | logical {l r : Value} {o : String} {ls rs : List Char} (hl : TreeText l ls) (ho : Bare o)
      (hr : TreeText r rs) :
      TreeText (.logical l (.text o) r) (logicalText (tab 4 ls) o.toList (tab 4 rs))
  | select {columns table condition having limit : Value}
      {groups orders : List (Value × List Char)} {cs ts ws hs ns : List Char}
      (hcolumns : TreeText columns cs) (hitems : columns.kind = .list)
      (htable : TreeText table ts) (hname : NameLike table)
      (hcondition : TreeText condition ws) (hwhere : OptionalNode condition)
      (hgroups : ∀ p ∈ groups, TreeText p.1 p.2)
      (hhaving : TreeText having hs) (hfilter : OptionalNode having)
      (horders : ∀ p ∈ orders, TreeText p.1 p.2)
      (hlimit : TreeText limit ns) (hnumber : limit.kind ≠ .text) :
      TreeText (.select ⟨columns, table, .list [], condition, .list (groups.map Prod.fst), having,
          .list (orders.map Prod.fst), limit, .null, none, none, none⟩)
        (selectText cs (rawText table ts) (tab 4 ws) (blockStyle.write Prod.snd groups) (tab 4 hs)
          (blockStyle.write (fun p => tab 8 p.2) orders) ns)

theorem intercalate_more (sep t : String) (ts : List String) :
    (sep.intercalate (t :: ts)).toList =
      t.toList ++ ts.flatMap fun u => sep.toList ++ u.toList := by
  induction ts generalizing t with
  | nil => simp
  | cons u ts ih =>
    rw [String.intercalate_cons_cons, String.toList_append, String.toList_append, ih]
    simp

theorem row_text {α : Type} (f : α → String) (xs : List α) :
    Value.commaList "[" "]" (xs.map f) =
      String.ofList (rowStyle.write (fun x => (f x).toList) xs) := by
  apply String.toList_inj.mp
  cases xs with
  | nil => rfl
  | cons x xs =>
    rw [List.map_cons, Value.commaList, String.toList_append, String.toList_append,
      intercalate_more, List.flatMap_map]
    simp only [ListStyle.write, ListStyle.more, rowStyle, String.toList_ofList, List.append_assoc]

theorem block_text {α : Type} (g : α → Value) (f : α → String) (xs : List α) :
    Value.block (.list (xs.map g)) (.ok (xs.map f)) =
      .ok (String.ofList (blockStyle.write (fun x => (f x).toList) xs)) := by
  cases xs with
  | nil => rfl
  | cons x xs =>
    have hpresent : (Value.list ((x :: xs).map g)).present = true := rfl
    rw [Value.block, hpresent, if_pos rfl]
    refine congrArg Except.ok (String.toList_inj.mp ?_)
    rw [List.map_cons, String.toList_append, String.toList_append, intercalate_more,
      List.flatMap_map]
    simp only [ListStyle.write, ListStyle.more, blockStyle, String.toList_ofList,
      List.append_assoc]

theorem literals_text {ps : List (Value × List Char)}
    (h : ∀ p ∈ ps, p.1.literal = .ok (String.ofList p.2)) :
    Value.literals (ps.map Prod.fst) = .ok (ps.map fun p => String.ofList p.2) := by
  induction ps with
  | nil => rfl
  | cons p ps ih =>
    obtain ⟨hp, hrest⟩ := List.forall_mem_cons.mp h
    rw [List.map_cons, Value.literals, hp, ih hrest]
    rfl

theorem raw_literal {v : Value} {cs : List Char} (h : v.literal = .ok (String.ofList cs)) :
    Value.plain v v.literal = .ok (String.ofList (rawText v cs)) := by
  cases v with
  | text s => exact congrArg Except.ok String.ofList_toList.symm
  | _ => exact h

theorem plain_other {v : Value} (h : v.kind ≠ .text) (r : Except Kind String) :
    Value.plain v r = r := by
  cases v with
  | text s => exact absurd rfl h
  | _ => rfl

theorem clause_literal {v : Value} {cs : List Char} (ht : TreeText v cs)
    (h : v.literal = .ok (String.ofList cs)) (hpresent : OptionalNode v) :
    Value.clause v v.literal = .ok (String.ofList (tab 4 cs)) := by
  rcases hpresent with rfl | hpresent
  · cases ht
    rfl
  · rw [Value.clause, if_pos hpresent, h]
    refine congrArg Except.ok (String.toList_inj.mp ?_)
    rw [indent_chars, String.toList_ofList, String.toList_ofList]

theorem toString_text (s : String) : toString s = s := rfl

/-- A tree is printed as its text. -/
theorem tree_literal {v : Value} {cs : List Char} (h : TreeText v cs) :
    v.literal = .ok (String.ofList cs) := by
  induction h with
  | null => rfl
  | number n =>
    rw [Value.literal]
    exact congrArg Except.ok (String.toList_inj.mp (by rw [print_int_chars, String.toList_ofList]))
  | text s => rfl
  | column ht hc iht ihc =>
    simp only [Value.literal, Value.literalEntries, iht, ihc, ok_bind, pure_ok]
    refine congrArg Except.ok (String.toList_inj.mp ?_)
    rw [Value.commaList, String.toList_append, String.toList_append, intercalate_more]
    have htable : (Text.quote "table").toList = "'table'".toList := rfl
    have hcolumn : (Text.quote "column").toList = "'column'".toList := rfl
    unfold columnText
    simp [htable, hcolumn]
  | list h ih =>
    rw [Value.literal, literals_text ih]
    refine congrArg Except.ok ((row_text _ _).trans ?_)
    simp only [String.toList_ofList]
  | pair ha hb iha ihb =>
    simp only [Value.literal, Value.literals, iha, ihb, ok_bind, pure_ok]
    refine congrArg Except.ok (String.toList_inj.mp ?_)
    rw [Value.commaList, String.toList_append, String.toList_append, intercalate_more]
    unfold pairText
    simp
  | aggregate hf hc =>
    refine congrArg Except.ok (String.toList_inj.mp ?_)
    unfold aggregateText
    simp only [String.toList_append, String.toList_ofList, toString_text, List.append_assoc]
  | orderItem hc hd =>
    refine congrArg Except.ok (String.toList_inj.mp ?_)
    unfold orderText
    simp only [String.toList_append, String.toList_ofList, toString_text, List.append_assoc]
  | comparison hi hname ho hv ihi ihv =>
    simp only [Value.literal, raw_literal ihi, ihv, ok_bind, pure_ok]
    refine congrArg Except.ok (String.toList_inj.mp ?_)
    unfold comparisonText
    simp only [String.toList_append, String.toList_ofList, toString_text, List.append_assoc]
  | logical hl ho hr ihl ihr =>
    simp only [Value.literal, ihl, ihr, ok_bind, pure_ok]
    refine congrArg Except.ok (String.toList_inj.mp ?_)
    unfold logicalText
    simp only [String.toList_append, String.toList_ofList, toString_text, List.append_assoc,
      indent_chars]
  | select hcolumns hitems htable hname hcondition hwhere hgroups hhaving hfilter horders hlimit
      hnumber ihcolumns ihtable ihcondition ihgroups ihhaving ihorders ihlimit =>
    have hlist : Kind.list ≠ .text := by decide
    have hend : ",\n    offset=".toList ++ ("None".toList ++ "\n)".toList) =
        ",\n    offset=None\n)".toList := rfl
    simp only [Value.literal, Value.literalSelect, Value.literalItems,
      clause_literal hcondition ihcondition hwhere, clause_literal hhaving ihhaving hfilter,
      literals_text ihgroups, literals_text ihorders, raw_literal ihtable, block_text, Except.map,
      List.map_map, plain_other (hitems ▸ hlist), ihcolumns, plain_other hnumber, ihlimit,
      plain_other (v := .null) (by decide), ok_bind, pure_ok]
    refine congrArg Except.ok (String.toList_inj.mp ?_)
    unfold selectText
    simp only [String.toList_append, toString_text, List.append_assoc, hend]
    simp only [String.toList_ofList, indent_chars, Function.comp_apply]

/-- The kind of a tree by the first character of its text. -/
def kindOfLead (c : Char) : Kind :=
  match c with
  | 'N' => .null
  | '\'' | '"' => .text
  | '[' => .list
  | '(' => .tuple
  | '\x7b' => .dict
  | 'A' => .aggregate
  | 'O' => .orderItem
  | 'C' => .comparison
  | 'L' => .logical
  | 'S' => .select
  | _ => .int

theorem digit_lead {c : Char} (h : c.isDigit = true) : kindOfLead c = .int ∧ c ≠ ']' := by
  constructor
  · unfold kindOfLead
    split <;> first | rfl | exact absurd h (by decide)
  · rintro rfl
    exact absurd h (by decide)

theorem tree_lead {v : Value} {cs : List Char} (h : TreeText v cs) :
    ∃ c rest, cs = c :: rest ∧ kindOfLead c = v.kind ∧ c ≠ ']' := by
  cases h with
  | number n =>
    obtain ⟨c, rest, hdigits⟩ := List.exists_cons_of_ne_nil (@Nat.toDigits_ne_nil n 10)
    have hc : c.isDigit = true :=
      Nat.isDigit_of_mem_toDigits (by decide) (by decide) (hdigits ▸ List.mem_cons_self)
    exact ⟨c, rest, hdigits, digit_lead hc⟩
  | text s =>
    obtain ⟨c, rest, hcs, hc⟩ := quoted_start (quote_form s)
    refine ⟨c, rest, hcs, ?_⟩
    rcases hc with rfl | rfl <;> exact ⟨rfl, by decide⟩
  | @list ps h => cases ps <;> exact ⟨_, _, rfl, rfl, by decide⟩
  | _ => exact ⟨_, _, rfl, rfl, by decide⟩

theorem same_kind {v w : Value} {cs ds x y : List Char} {n : Nat} (hv : TreeText v cs)
    (hw : TreeText w ds) (h : tab n cs ++ x = tab n ds ++ y) : v.kind = w.kind := by
  obtain ⟨c, rest, rfl, hc, -⟩ := tree_lead hv
  obtain ⟨d, rest', rfl, hd, -⟩ := tree_lead hw
  obtain ⟨cs, hcs⟩ := tab_cons n c rest
  obtain ⟨ds, hds⟩ := tab_cons n d rest'
  rw [hcs, hds] at h
  rw [← hc, ← hd, (List.cons.inj h).1]

/-- A tree can be told from others by its text, wherever it is moved and whatever follows. -/
def TreeTold (v : Value) (cs : List Char) : Prop :=
  ∀ {n : Nat} {w : Value} {ds x y : List Char}, TreeText w ds → NoDigit x → NoDigit y →
    tab n cs ++ x = tab n ds ++ y → v = w ∧ cs = ds ∧ x = y

section Parts
variable {n : Nat} {c : Char} {label x y : List Char}

/-- A tree before a label. -/
theorem TreeTold.part {v w : Value} {cs ds : List Char} {k : Nat} (h : TreeTold v cs)
    (hw : TreeText w ds) (hlabel : label.head? = some c) (hc : c.isDigit = false)
    (heq : tab k cs ++ (tab n label ++ x) = tab k ds ++ (tab n label ++ y)) :
    v = w ∧ cs = ds ∧ x = y := by
  obtain ⟨hvw, hcs, hrest⟩ := h hw (label_no_digit hlabel hc n x) (label_no_digit hlabel hc n y) heq
  exact ⟨hvw, hcs, List.append_cancel_left hrest⟩

theorem Bare.tab {s : String} (h : Bare s) (n : Nat) : Proofs.tab n s.toList = s.toList :=
  tab_line (fun hbreak => (h _ hbreak).2 rfl) n

/-- A text as it is, up to a quote. -/
theorem bare_equal {s t : String} (hs : Bare s) (ht : Bare t) (hlabel : label.head? = some '\'')
    (h : tab n s.toList ++ (tab n label ++ x) = tab n t.toList ++ (tab n label ++ y)) :
    s = t ∧ x = y := by
  obtain ⟨rest, rfl⟩ := List.head?_eq_some_iff.mp hlabel
  obtain ⟨rest', hrest⟩ := tab_cons n '\'' rest
  rw [hs.tab, ht.tab, hrest] at h
  obtain ⟨hst, -, hend⟩ := runs_equal (p := (· ≠ '\'')) (fun a ha => (hs a ha).1)
    (fun a ha => (ht a ha).1) (by simp) (by simp) h
  exact ⟨String.toList_inj.mp hst, List.append_cancel_left hend⟩

theorem name_bare {s : String} (h : IsName s) : Bare s := by
  intro c hc
  have hpart := h.parts c hc
  constructor
  · rintro rfl
    exact absurd hpart (by decide)
  · rintro rfl
    exact absurd hpart (by decide)

/-- The text of what is no name ends a word, if it starts with one, by something else than a
quote. -/
theorem other_start {v : Value} {cs : List Char} (h : TreeText v cs) (hname : NameLike v)
    (hkind : v.kind ≠ .text) (n : Nat) :
    ∃ word d rest, tab n cs = word ++ d :: rest ∧ (∀ a ∈ word, isWordPart a = true) ∧
      isWordPart d = false ∧ d ≠ '\'' := by
  cases h with
  | column => exact ⟨[], '\x7b', _, rfl, by simp, rfl, by decide⟩
  | @list ps _ => cases ps <;> exact ⟨[], '[', _, rfl, by simp, rfl, by decide⟩
  | aggregate =>
    exact ⟨"Aggregate".toList, '(', _, rfl, List.all_eq_true.mp rfl, rfl, by decide⟩
  | text => exact absurd rfl hkind
  | _ => cases hname

/-- A name in quotes is the text of nothing else. -/
theorem name_only {s : String} {j : Value} {js : List Char} (hs : IsName s) (hj : TreeText j js)
    (hname : NameLike j) (hkind : j.kind ≠ .text) (hlabel : label.head? = some '\'') :
    tab n s.toList ++ (tab n label ++ x) ≠ tab n js ++ y := by
  intro h
  obtain ⟨rest, rfl⟩ := List.head?_eq_some_iff.mp hlabel
  obtain ⟨rest', hrest⟩ := tab_cons n '\'' rest
  obtain ⟨word, d, more, hjs, hword, hd, hquote⟩ := other_start hj hname hkind n
  rw [(name_bare hs).tab, hrest, hjs, List.append_assoc] at h
  have hmark : ¬isWordPart '\'' = true := by decide
  obtain ⟨-, heq, -⟩ := runs_equal hs.parts hword hmark (by simp [hd]) h
  exact hquote heq.symm

theorem raw_other {v : Value} (h : v.kind ≠ .text) (cs : List Char) : rawText v cs = cs := by
  cases v with
  | text s => exact absurd rfl h
  | _ => rfl

/-- A name, or another text as it is, up to a quote. -/
theorem raw_equal {i j : Value} {is js : List Char} (hi : TreeText i is) (htold : TreeTold i is)
    (hname : NameLike i) (hj : TreeText j js) (hname' : NameLike j)
    (hlabel : label.head? = some '\'')
    (h : tab n (rawText i is) ++ (tab n label ++ x) = tab n (rawText j js) ++ (tab n label ++ y)) :
    i = j ∧ is = js ∧ x = y := by
  by_cases hkind : i.kind = .text
  · cases hi with
    | text s =>
      by_cases hkind' : j.kind = .text
      · cases hj with
        | text t =>
          obtain ⟨rfl, hrest⟩ := bare_equal (name_bare hname) (name_bare hname') hlabel h
          exact ⟨rfl, rfl, hrest⟩
        | _ => cases hkind'
      · rw [raw_other hkind'] at h
        exact absurd h (name_only hname hj hname' hkind' hlabel)
    | _ => cases hkind
  · rw [raw_other hkind] at h
    by_cases hkind' : j.kind = .text
    · cases hj with
      | text t => exact absurd h.symm (name_only hname' hi hname hkind hlabel)
      | _ => cases hkind'
    · rw [raw_other hkind'] at h
      exact htold.part hj hlabel (by decide) h

/-- A list of trees, moved or not. -/
theorem list_equal {st : ListStyle} (hst : st.Marked) {write : Value × List Char → List Char}
    {k : Nat} (hwrite : ∀ p, tab n (write p) = tab k p.2)
    (hempty : ∀ v cs u r, TreeText v cs → tab n st.empty ++ u ≠ tab n st.start ++ (tab k cs ++ r))
    {ps qs : List (Value × List Char)} (hps : ∀ p ∈ ps, TreeText p.1 p.2 ∧ TreeTold p.1 p.2)
    (hqs : ∀ q ∈ qs, TreeText q.1 q.2)
    (h : tab n (st.write write ps) ++ x = tab n (st.write write qs) ++ y) : ps = qs ∧ x = y := by
  have hsame : (fun p => tab n (write p)) = fun p => tab k p.2 := funext hwrite
  rw [ListStyle.tab_write, ListStyle.tab_write, hsame] at h
  refine @ListStyle.write_told (Value × List Char) (st.tab n) (fun p => tab k p.2)
    (fun p => TreeText p.1 p.2) (hst.tab n) (fun p u r hp => hempty p.1 p.2 u r hp) _ _ _ _
    (fun p hp => ⟨?_, (hps p hp).1⟩) hqs h
  intro q u r hq hu hr heq
  obtain ⟨hv, hcs, hrest⟩ := (hps p hp).2 hq hu hr heq
  exact ⟨Prod.ext hv hcs, hrest⟩

theorem row_equal {ps qs : List (Value × List Char)}
    (hps : ∀ p ∈ ps, TreeText p.1 p.2 ∧ TreeTold p.1 p.2) (hqs : ∀ q ∈ qs, TreeText q.1 q.2)
    (h : tab n (rowStyle.write Prod.snd ps) ++ x = tab n (rowStyle.write Prod.snd qs) ++ y) :
    ps = qs ∧ x = y := by
  refine list_equal row_marked (fun _ => rfl) (fun v cs u r hv he => ?_) hps hqs h
  obtain ⟨c, rest, rfl, -, hc⟩ := tree_lead hv
  obtain ⟨more, hmore⟩ := tab_cons n c rest
  rw [hmore] at he
  exact hc (List.cons.inj (List.cons.inj he).2).1.symm

theorem block_equal {write : Value × List Char → List Char} {k : Nat}
    (hwrite : ∀ p, tab n (write p) = tab k p.2) {ps qs : List (Value × List Char)}
    (hps : ∀ p ∈ ps, TreeText p.1 p.2 ∧ TreeTold p.1 p.2) (hqs : ∀ q ∈ qs, TreeText q.1 q.2)
    (h : tab n (blockStyle.write write ps) ++ x = tab n (blockStyle.write write qs) ++ y) :
    ps = qs ∧ x = y := by
  refine list_equal block_marked hwrite (fun v cs u r hv he => ?_) hps hqs h
  exact absurd (List.cons.inj (List.cons.inj he).2).1 (by decide)

end Parts

theorem NoDigit.stop {x : List Char} (h : NoDigit x) :
    ∃ c rest, x ++ ['\n'] = c :: rest ∧ ¬c.isDigit = true := by
  cases x with
  | nil => exact ⟨'\n', [], rfl, by decide⟩
  | cons c x => exact ⟨c, x ++ ['\n'], rfl, by simp [h c rfl]⟩

theorem number_told (n : Nat) : TreeTold (.int n) (Nat.toDigits 10 n) := by
  intro k w ds x y hw hx hy h
  have hkind := same_kind (.number n) hw h
  have hdigits (m : Nat) : ∀ c ∈ Nat.toDigits 10 m, c.isDigit = true :=
    fun c hc => Nat.isDigit_of_mem_toDigits (by decide) (by decide) hc
  have hline (m : Nat) : tab k (Nat.toDigits 10 m) = Nat.toDigits 10 m :=
    tab_line (fun hbreak => absurd (hdigits m _ hbreak) (by decide)) k
  cases hw with
  | number m =>
    rw [hline, hline] at h
    -- A line break after both texts ends the digits where nothing else does.
    obtain ⟨c, rest, hx, hc⟩ := hx.stop
    obtain ⟨d, rest', hy, hd⟩ := hy.stop
    have hlines := congrArg (· ++ ['\n']) h
    simp only [List.append_assoc, hx, hy] at hlines
    obtain ⟨hsame, rfl, rfl⟩ := runs_equal (hdigits n) (hdigits m) hc hd hlines
    obtain rfl : n = m := by rw [← numeral_digits n, ← numeral_digits m, hsame]
    exact ⟨rfl, rfl, List.append_cancel_right (hx.trans hy.symm)⟩
  | _ => cases hkind

theorem text_told (s : String) : TreeTold (.text s) (Text.quoteChars s.toList) := by
  intro k w ds x y hw hx hy h
  have hkind := same_kind (.text s) hw h
  have hline (t : String) : tab k (Text.quoteChars t.toList) = Text.quoteChars t.toList :=
    tab_line (fun hbreak => ((quote_form t).line _ hbreak).1 rfl) k
  cases hw with
  | text t =>
    rw [hline, hline] at h
    obtain ⟨rfl, hrest⟩ := quoted_equal h
    exact ⟨rfl, rfl, hrest⟩
  | _ => cases hkind

theorem column_told {t c : Value} {ts cs : List Char} (ht : TreeText t ts) (hc : TreeText c cs)
    (iht : TreeTold t ts) (ihc : TreeTold c cs) :
    TreeTold (.dict [(.text "table", t), (.text "column", c)]) (columnText ts cs) := by
  intro k w ds x y hw hx hy h
  have hkind := same_kind (.column ht hc) hw h
  cases hw with
  | column ht' hc' =>
    unfold columnText at h
    simp only [tab_append, List.append_assoc] at h
    obtain ⟨rfl, rfl, hcolumn⟩ := iht.part ht' rfl (by decide) (List.append_cancel_left h)
    obtain ⟨rfl, rfl, hrest⟩ := ihc.part hc' rfl (by decide) hcolumn
    exact ⟨rfl, rfl, hrest⟩
  | _ => cases hkind

theorem pair_told {a b : Value} {as bs : List Char} (ha : TreeText a as) (hb : TreeText b bs)
    (iha : TreeTold a as) (ihb : TreeTold b bs) : TreeTold (.tuple [a, b]) (pairText as bs) := by
  intro k w ds x y hw hx hy h
  have hkind := same_kind (.pair ha hb) hw h
  cases hw with
  | pair ha' hb' =>
    unfold pairText at h
    simp only [tab_append, List.append_assoc] at h
    obtain ⟨rfl, rfl, hsecond⟩ := iha.part ha' rfl (by decide) (List.append_cancel_left h)
    obtain ⟨rfl, rfl, hrest⟩ := ihb.part hb' rfl (by decide) hsecond
    exact ⟨rfl, rfl, hrest⟩
  | _ => cases hkind

theorem aggregate_told {f c : String} (hf : Bare f) (hc : Bare c) :
    TreeTold (.aggregate f (.text c)) (aggregateText f.toList c.toList) := by
  intro k w ds x y hw hx hy h
  have hkind := same_kind (.aggregate hf hc) hw h
  cases hw with
  | aggregate hf' hc' =>
    unfold aggregateText at h
    simp only [tab_append, List.append_assoc] at h
    obtain ⟨rfl, hcolumn⟩ := bare_equal hf hf' rfl (List.append_cancel_left h)
    obtain ⟨rfl, hrest⟩ := bare_equal hc hc' rfl hcolumn
    exact ⟨rfl, rfl, hrest⟩
  | _ => cases hkind

theorem order_told {c d : String} (hc : Bare c) (hd : Bare d) :
    TreeTold (.orderItem (.text c) d) (orderText c.toList d.toList) := by
  intro k w ds x y hw hx hy h
  have hkind := same_kind (.orderItem hc hd) hw h
  cases hw with
  | orderItem hc' hd' =>
    unfold orderText at h
    simp only [tab_append, List.append_assoc] at h
    obtain ⟨rfl, hdirection⟩ := bare_equal hc hc' rfl (List.append_cancel_left h)
    obtain ⟨rfl, hrest⟩ := bare_equal hd hd' rfl hdirection
    exact ⟨rfl, rfl, hrest⟩
  | _ => cases hkind

theorem comparison_told {i v : Value} {o : String} {is vs : List Char} (hi : TreeText i is)
    (hname : NameLike i) (ho : Bare o) (hv : TreeText v vs) (ihi : TreeTold i is)
    (ihv : TreeTold v vs) :
    TreeTold (.comparison i (.text o) v) (comparisonText (rawText i is) o.toList vs) := by
  intro k w ds x y hw hx hy h
  have hkind := same_kind (.comparison hi hname ho hv) hw h
  cases hw with
  | comparison hi' hname' ho' hv' =>
    unfold comparisonText at h
    simp only [tab_append, List.append_assoc] at h
    obtain ⟨rfl, rfl, hoperator⟩ :=
      raw_equal hi ihi hname hi' hname' rfl (List.append_cancel_left h)
    obtain ⟨rfl, hvalue⟩ := bare_equal ho ho' rfl hoperator
    obtain ⟨rfl, rfl, hrest⟩ := ihv.part hv' rfl (by decide) hvalue
    exact ⟨rfl, rfl, hrest⟩
  | _ => cases hkind

theorem logical_told {l r : Value} {o : String} {ls rs : List Char} (hl : TreeText l ls)
    (ho : Bare o) (hr : TreeText r rs) (ihl : TreeTold l ls) (ihr : TreeTold r rs) :
    TreeTold (.logical l (.text o) r) (logicalText (tab 4 ls) o.toList (tab 4 rs)) := by
  intro k w ds x y hw hx hy h
  have hkind := same_kind (.logical hl ho hr) hw h
  cases hw with
  | logical hl' ho' hr' =>
    unfold logicalText at h
    simp only [tab_append, tab_tab, List.append_assoc] at h
    obtain ⟨rfl, rfl, hoperator⟩ := ihl.part hl' rfl (by decide) (List.append_cancel_left h)
    obtain ⟨rfl, hright⟩ := bare_equal ho ho' rfl hoperator
    obtain ⟨rfl, rfl, hrest⟩ := ihr.part hr' rfl (by decide) hright
    exact ⟨rfl, rfl, hrest⟩
  | _ => cases hkind

/-- Trees are told apart by their texts: by the first character, and then part by part. -/
theorem tree_told {v : Value} {cs : List Char} (h : TreeText v cs) : TreeTold v cs := by
  induction h with
  | null =>
    intro k w ds x y hw hx hy h
    have hkind := same_kind .null hw h
    cases hw with
    | null => exact ⟨rfl, rfl, List.append_cancel_left h⟩
    | _ => cases hkind
  | number n => exact number_told n
  | text s => exact text_told s
  | column ht hc iht ihc => exact column_told ht hc iht ihc
  | list hps ih =>
    intro k w ds x y hw hx hy h
    have hkind := same_kind (.list hps) hw h
    cases hw with
    | list hqs =>
      obtain ⟨rfl, hrest⟩ := row_equal (fun p hp => ⟨hps p hp, ih p hp⟩) hqs h
      exact ⟨rfl, rfl, hrest⟩
    | _ => cases hkind
  | pair ha hb iha ihb => exact pair_told ha hb iha ihb
  | aggregate hf hc => exact aggregate_told hf hc
  | orderItem hc hd => exact order_told hc hd
  | comparison hi hname ho hv ihi ihv => exact comparison_told hi hname ho hv ihi ihv
  | logical hl ho hr ihl ihr => exact logical_told hl ho hr ihl ihr
  | select hcolumns hitems htable hname hcondition hwhere hgroups hhaving hfilter horders hlimit
      hnumber ihcolumns ihtable ihcondition ihgroups ihhaving ihorders ihlimit =>
    intro k w ds x y hw hx hy h
    have hkind := same_kind (.select hcolumns hitems htable hname hcondition hwhere hgroups hhaving
      hfilter horders hlimit hnumber) hw h
    cases hw with
    | select hcolumns' _ htable' hname' hcondition' _ hgroups' hhaving' _ horders' hlimit' _ =>
      unfold selectText at h
      simp only [tab_append, tab_tab, List.append_assoc] at h
      obtain ⟨rfl, rfl, atTable⟩ :=
        ihcolumns.part hcolumns' rfl (by decide) (List.append_cancel_left h)
      obtain ⟨rfl, rfl, atWhere⟩ := raw_equal htable ihtable hname htable' hname' rfl atTable
      obtain ⟨rfl, rfl, atGroups⟩ := ihcondition.part hcondition' rfl (by decide) atWhere
      obtain ⟨rfl, afterGroups⟩ := block_equal (fun p => rfl)
        (fun p hp => ⟨hgroups p hp, ihgroups p hp⟩) hgroups' atGroups
      obtain ⟨rfl, rfl, atOrders⟩ :=
        ihhaving.part hhaving' rfl (by decide) (List.append_cancel_left afterGroups)
      obtain ⟨rfl, afterOrders⟩ := block_equal (fun p => tab_tab 8 k p.2)
        (fun p hp => ⟨horders p hp, ihorders p hp⟩) horders' atOrders
      obtain ⟨rfl, rfl, hrest⟩ :=
        ihlimit.part hlimit' rfl (by decide) (List.append_cancel_left afterOrders)
      exact ⟨rfl, rfl, hrest⟩
    | _ => cases hkind

/-- Trees without joins that are printed alike are equal. -/
theorem tree_text_injective {v w : Value} {cs : List Char} (hv : TreeText v cs)
    (hw : TreeText w cs) : v = w := by
  have hend : NoDigit [] := by simp [NoDigit]
  exact (tree_told hv hw hend hend (n := 0) rfl).1

end DocQuery.Proofs
