import DocQuery.Proofs.Groupings
import DocQuery.Proofs.Phrases
import Mathlib.Data.List.Induction

namespace DocQuery.Proofs

open Sql
open Value (doc)

/-- The derivations of a part, whose values a reader gives in typed form. -/
def partPhrase {α : Type} (p : Part) (first : List Part) (nullable : Bool) (next : List Part)
    (value : α → Value) : Phrase α where
  Tree := Derivation p
  yield := Derivation.yield
  means d x := d.value = value x
  first := first
  nullable := nullable
  next := next

def keywordPhrase (k : Keyword) : Phrase Unit where
  Tree := Derivation (.keyword k)
  yield := Derivation.yield
  means _ _ := True
  first := [.keyword k]
  nullable := false
  next := []

def symbolPhrase (s : Symbol) : Phrase Unit where
  Tree := Derivation (.symbol s)
  yield := Derivation.yield
  means _ _ := True
  first := [.symbol s]
  nullable := false
  next := []

def keywordIn? (k : Keyword) : Lexeme → Option Unit
  | .keyword j _ => if j = k then some () else none
  | _ => none

theorem keyword_exact (n : Nat) (k : Keyword) :
    Exact n (keywordPhrase k) (Read.keyword k) := by
  refine Exact.one (keywordIn? k) ?_ ?_ ?_ ?_
  · rintro (_ | ⟨j | _ | _ | _ | _, ls⟩) <;> try rfl
    by_cases hj : j = k <;> simp [Read.keyword, takeOne, keywordIn?, hj]
  · intro t
    cases t with
    | keyword _ w => exact ⟨.keyword k w, (), rfl, List.mem_singleton_self _, if_pos rfl⟩
  · intro l x _ hl
    cases l with
    | keyword j w =>
      obtain ⟨rfl, -⟩ := Option.ite_none_right_eq_some.mp hl
      exact ⟨.keyword _ w, rfl, trivial⟩
    | _ => cases hl
  · intro t u he
    cases t
    cases u
    cases he
    rfl

theorem starts_with_keyword {k : Keyword} {ls : Lexemes}
    (h : startsWith [.keyword k] ls = true) : ∃ w rest, ls = .keyword k w :: rest := by
  rcases ls with _ | ⟨_ | _ | _ | _ | _, ls⟩ <;> simp [startsWith, lexemePart] at h
  subst h
  exact ⟨_, _, rfl⟩

def symbolIn? (s : Symbol) : Lexeme → Option Unit
  | .symbol t => if t = s then some () else none
  | _ => none

theorem symbol_exact (n : Nat) (s : Symbol) : Exact n (symbolPhrase s) (Read.symbol s) := by
  refine Exact.one (symbolIn? s) ?_ ?_ ?_ ?_
  · rintro (_ | ⟨_ | _ | _ | _ | t, ls⟩) <;> try rfl
    by_cases ht : t = s <;> simp [Read.symbol, takeOne, symbolIn?, ht]
  · intro t
    cases t
    exact ⟨.symbol s, (), rfl, List.mem_singleton_self _, if_pos rfl⟩
  · intro l x _ hl
    cases l with
    | symbol t =>
      obtain ⟨rfl, -⟩ := Option.ite_none_right_eq_some.mp hl
      exact ⟨.symbol _, rfl, trivial⟩
    | _ => cases hl
  · intro t u _
    cases t
    cases u
    rfl

def identifierPhrase : Phrase String := partPhrase .identifier [.identifier] false [] .text

def identifierIn? : Lexeme → Option String
  | .identifier a => some a
  | _ => none

theorem identifier_exact (n : Nat) : Exact n identifierPhrase Read.identifier := by
  refine Exact.one identifierIn? ?_ ?_ ?_ ?_
  · rintro (_ | ⟨_ | _ | _ | _ | _, ls⟩) <;> rfl
  · intro t
    cases t with
    | identifier a => exact ⟨.identifier a, a, rfl, List.mem_singleton_self _, rfl⟩
  · intro l x _ hl
    cases l <;> cases hl
    exact ⟨.identifier x, rfl, rfl⟩
  · intro t u he
    cases t
    cases u
    cases he
    rfl

def numberPhrase : Phrase Nat := partPhrase .number [.number] false [] fun n => .int n

def numberIn? : Lexeme → Option Nat
  | .number m => some m
  | _ => none

theorem number_exact (n : Nat) : Exact n numberPhrase Read.number := by
  refine Exact.one numberIn? ?_ ?_ ?_ ?_
  · rintro (_ | ⟨_ | _ | _ | _ | _, ls⟩) <;> rfl
  · intro t
    cases t with
    | number m => exact ⟨.number m, m, rfl, List.mem_singleton_self _, rfl⟩
  · intro l x _ hl
    cases l <;> cases hl
    exact ⟨.number x, rfl, rfl⟩
  · intro t u he
    cases t
    cases u
    cases he
    rfl

def literalPhrase : Phrase Sql.Literal :=
  partPhrase .literal [.number, .text] false [] Literal.toValue

def literalIn? : Lexeme → Option Sql.Literal
  | .number m => some (.number m)
  | .text s => some (.text s)
  | _ => none

theorem literal_exact (n : Nat) : Exact n literalPhrase Read.literal := by
  refine Exact.one literalIn? ?_ ?_ ?_ ?_
  · rintro (_ | ⟨_ | _ | _ | _ | _, ls⟩) <;> rfl
  · intro t
    cases t with
    | numberLiteral a =>
      cases a with
      | number m => exact ⟨.number m, .number m, rfl, List.mem_cons_self, rfl⟩
    | textLiteral a =>
      cases a with
      | text s => exact ⟨.text s, .text s, rfl, List.mem_cons_of_mem _ List.mem_cons_self, rfl⟩
  · intro l x _ hl
    cases l with
    | number m =>
      cases hl
      exact ⟨.numberLiteral (.number m), rfl, rfl⟩
    | text s =>
      cases hl
      exact ⟨.textLiteral (.text s), rfl, rfl⟩
    | _ => cases hl
  · intro t u he
    cases t with
    | numberLiteral a =>
      cases a
      cases u with
      | numberLiteral b => cases b; cases he; rfl
      | textLiteral b => cases b; cases he
    | textLiteral a =>
      cases a
      cases u with
      | numberLiteral b => cases b; cases he
      | textLiteral b => cases b; cases he; rfl

def relationPhrase : Phrase Relation :=
  partPhrase .operator
    [.symbol .eq, .symbol .ne, .symbol .gt, .symbol .lt, .symbol .ge, .symbol .le] false []
    Relation.toValue

theorem symbol_relation (r : Relation) : Relation.ofSymbol? r.symbol = some r := by
  cases r <;> rfl

theorem relation_symbol {s : Symbol} {r : Relation} (h : Relation.ofSymbol? s = some r) :
    r.symbol = s := by
  cases s <;> cases h <;> rfl

def relationIn? : Lexeme → Option Relation
  | .symbol s => Relation.ofSymbol? s
  | _ => none

theorem relation_exact (n : Nat) : Exact n relationPhrase Read.relation := by
  refine Exact.one relationIn? ?_ ?_ ?_ ?_
  · rintro (_ | ⟨_ | _ | _ | _ | s, ls⟩) <;> try rfl
    cases s <;> rfl
  · intro t
    cases t with
    | operator r a =>
      cases a
      refine ⟨.symbol r.symbol, r, rfl, ?_, symbol_relation r⟩
      cases r <;> decide
  · intro l r _ hl
    cases l with
    | symbol s =>
      obtain rfl := relation_symbol hl
      exact ⟨.operator r (.symbol _), rfl, rfl⟩
    | _ => cases hl
  · intro t u he
    cases t with
    | operator r a =>
      cases u with
      | operator s b =>
        cases a
        cases b
        have hr := symbol_relation r
        rw [Lexeme.symbol.inj (List.singleton_injective he), symbol_relation] at hr
        cases hr
        rfl

def columnRefPhrase : Phrase ColumnRef :=
  partPhrase .columnRef [.identifier] false [.symbol .dot] ColumnRef.toValue

def columnRefOf :
    Derivation .identifier × Option (Derivation (.symbol .dot) × Derivation .identifier) →
      Derivation .columnRef
  | (a, none) => .columnRef a
  | (t, some (dot, a)) => .qualified t dot a

def columnNamed : String × Option (Unit × String) → ColumnRef
  | (a, none) => ⟨none, a⟩
  | (t, some (_, a)) => ⟨some t, a⟩

theorem column_ref_exact (n : Nat) : Exact n columnRefPhrase Read.columnRef := by
  refine ((identifier_exact n).pair
    (((symbol_exact n .dot).pair (identifier_exact n) rfl).optional rfl) rfl).map
    columnRefOf columnNamed ?_ ?_ ?_ ?_ rfl
  · intro ls
    rw [and_then_bind]
    rcases ls with _ | ⟨l, ls⟩
    · rfl
    · cases l <;> try rfl
      rename_i a
      change _ = optionally _ _ ls >>= _
      rw [optionally_bind]
      rcases ls with _ | ⟨l, ls⟩
      · rfl
      · cases l <;> try rfl
        rename_i s
        cases s <;> try rfl
        simp only [and_then_bind]
        rfl
  · rintro ⟨a, _ | ⟨dot, b⟩⟩
    · exact (List.append_nil _).symm
    · rfl
  · intro u
    cases u with
    | columnRef a => exact ⟨(a, none), rfl⟩
    | qualified t dot a => exact ⟨(t, some (dot, a)), rfl⟩
  · rintro ⟨a, _⟩ ⟨x, _⟩ ⟨ha, hb⟩
    cases hb with
    | none => exact congrArg (columnValue .null) ha
    | some hb => exact congrArg₂ columnValue ha hb.2

/-- A family of keywords, of which one tells by its index. -/
structure Words (ι : Type) where
  keyword : ι → Keyword
  ofKeyword? : Keyword → Option ι
  all : List ι
  mem_all : ∀ i, i ∈ all
  of_keyword : ∀ i, ofKeyword? (keyword i) = some i
  keyword_of : ∀ {k i}, ofKeyword? k = some i → keyword i = k

def wordsPhrase {ι : Type} (ws : Words ι) : Phrase (ι × String) where
  Tree := Σ i, Derivation (.keyword (ws.keyword i))
  yield t := t.2.yield
  means t x := t = ⟨x.1, .keyword _ x.2⟩ ∧ Keyword.ofWord? x.2.toList = some (ws.keyword x.1)
  first := ws.all.map fun i => .keyword (ws.keyword i)
  nullable := false
  next := []

def readWord {ι : Type} (ws : Words ι) : Reader (ι × String) :=
  takeOne fun | .keyword k w => (ws.ofKeyword? k).map (·, w) | _ => none

theorem words_exact {ι : Type} (n : Nat) (ws : Words ι) :
    Exact n (wordsPhrase ws) (readWord ws) := by
  refine Exact.one _ (fun _ => rfl) ?_ ?_ ?_
  · rintro ⟨i, a⟩
    cases a with
    | keyword _ w =>
      exact ⟨.keyword (ws.keyword i) w, (i, w), rfl, List.mem_map_of_mem (ws.mem_all i),
        congrArg (Option.map (·, w)) (ws.of_keyword i)⟩
  · intro l x hs hl
    cases l with
    | keyword k w =>
      obtain ⟨i, hk, rfl⟩ := Option.map_eq_some_iff.mp hl
      obtain rfl := ws.keyword_of hk
      exact ⟨⟨i, .keyword _ w⟩, rfl, rfl, hs⟩
    | _ => cases hl
  · rintro ⟨i, a⟩ ⟨j, b⟩ he
    cases a with
    | keyword _ v =>
      cases b with
      | keyword _ w =>
        obtain ⟨hk, rfl⟩ := Lexeme.keyword.inj (List.singleton_injective he)
        have hi := ws.of_keyword i
        rw [hk, ws.of_keyword] at hi
        cases hi
        rfl

/-- A keyword in upper case is its spelling. -/
theorem upper_spelled {w : String} {k : Keyword} (h : Keyword.ofWord? w.toList = some k) :
    Text.upper w = k.spelling := by
  have hspell := keyword_spelled h
  rw [upper_of_ascii, hspell, String.ofList_toList]
  intro c hc
  have hmem : c.toUpper ∈ k.spelling.toList := hspell ▸ List.mem_map_of_mem hc
  have hascii : ∀ d ∈ k.spelling.toList, d.toNat < 128 := by cases k <;> simp [Keyword.spelling]
  exact hascii _ hmem

def aggregatePhrase : Phrase Aggregate where
  Tree := Derivation .aggregate
  yield := Derivation.yield
  means d x := d.value = x.toValue ∧ NamedItem (.aggregate x)
  first := [.keyword .count, .keyword .min, .keyword .max, .keyword .avg, .keyword .sum]
  nullable := false
  next := []

theorem keyword_func {k : Keyword} {f : Func} (h : Func.ofKeyword? k = some f) :
    f.keyword = k := by
  cases k <;> cases h <;> rfl

theorem func_keyword (f : Func) : Func.ofKeyword? f.keyword = some f := by
  cases f <;> rfl

theorem aggregate_cases (d : Derivation .aggregate) :
    (∃ w, d = .count (.keyword _ w) (.symbol _) (.symbol _) (.symbol _)) ∨
      ∃ f w c, d = .call f (.keyword _ w) (.symbol _) (.identifier c) (.symbol _) := by
  cases d with
  | count a b c d =>
    cases a; cases b; cases c; cases d
    exact .inl ⟨_, rfl⟩
  | call f a b c d =>
    cases a; cases b; cases c; cases d
    exact .inr ⟨_, _, _, rfl⟩

/-- What is read after the name of a function and its parenthesis ends an aggregate. -/
theorem argument_sound {f : Func} {w : String} {ls rest : Lexemes} {x : Aggregate}
    (hw : Text.upper w = f.keyword.spelling) (hs : ∀ l ∈ ls, Spelled l)
    (hr : Read.argument f ls = .ok (x, rest)) :
    ∃ d : Derivation .aggregate,
      .keyword f.keyword w :: .symbol .lparen :: ls = d.yield ++ rest ∧ d.value = x.toValue ∧
        NamedItem (.aggregate x) := by
  unfold Read.argument at hr
  split at hr
  · split at hr
    · rename_i hf
      subst hf
      simp only [bind_ok, Prod.exists] at hr
      obtain ⟨_, _, hclose, he⟩ := hr
      cases he
      obtain ⟨c, rfl, -⟩ := (symbol_exact 0 .rparen).sound
        (fun l hl => hs l (List.mem_cons_of_mem _ hl)) hclose
      refine ⟨.count (.keyword _ w) (.symbol _) (.symbol _) c, rfl,
        congrArg (Value.aggregate · (.text "*")) hw, ?_⟩
      rintro _ _ ⟨⟩
    · cases hr
  · simp only [bind_ok, Prod.exists] at hr
    obtain ⟨c, ls₁, hc, _, _, hclose, he⟩ := hr
    cases he
    obtain ⟨b, rfl, hb⟩ := (identifier_exact 0).sound hs hc
    obtain ⟨d, rfl, -⟩ := (symbol_exact 0 .rparen).sound
      (fun l hl => hs l (List.mem_append_right _ hl)) hclose
    refine ⟨.call f (.keyword _ w) (.symbol _) b d, ?_, congrArg₂ Value.aggregate hw hb, ?_⟩
    · cases b; rfl
    · rintro _ _ ⟨⟩
      cases b
      cases hb
      exact hs (.identifier c) List.mem_cons_self

theorem aggregate_exact (n : Nat) : Exact n aggregatePhrase Read.aggregate where
  starts d := by
    rcases aggregate_cases d with ⟨w, rfl⟩ | ⟨f, w, c, rfl⟩
    · exact .inl ⟨.keyword .count w, _, rfl, List.mem_cons_self⟩
    · refine .inl ⟨.keyword f.keyword w, _, rfl, ?_⟩
      change Part.keyword f.keyword ∈ aggregatePhrase.first
      cases f <;> decide
  sound := by
    intro ls x rest hs hr
    unfold Read.aggregate at hr
    split at hr
    · rename_i k w ls
      split at hr
      · rename_i f hk
        obtain rfl := keyword_func hk
        simp only [bind_ok, Prod.exists] at hr
        obtain ⟨_, ls₁, hopen, hr⟩ := hr
        have hs₁ : ∀ l ∈ ls, Spelled l := fun l hl => hs l (List.mem_cons_of_mem _ hl)
        obtain ⟨a, rfl, -⟩ := (symbol_exact n .lparen).sound hs₁ hopen
        cases a
        exact argument_sound (upper_spelled (hs _ List.mem_cons_self))
          (fun l hl => hs₁ l (List.mem_append_right _ hl)) hr
      · cases hr
    · cases hr
  complete t rest _ _ := by
    rcases aggregate_cases t with ⟨w, rfl⟩ | ⟨f, w, c, rfl⟩
    · exact ⟨.countAll, rfl⟩
    · refine ⟨.call f c, ?_⟩
      change Read.aggregate (.keyword f.keyword w :: _) = _
      rw [Read.aggregate, func_keyword]
      rfl
  unique := by
    intro t u _ he
    rcases aggregate_cases t with ⟨v, rfl⟩ | ⟨f, v, b, rfl⟩ <;>
      rcases aggregate_cases u with ⟨w, rfl⟩ | ⟨g, w, c, rfl⟩
    · cases he
      rfl
    · cases g <;> cases he
    · cases f <;> cases he
    · obtain ⟨hfirst, hrest⟩ := List.cons.inj he
      obtain ⟨hk, rfl⟩ := Lexeme.keyword.inj hfirst
      have hf := func_keyword f
      rw [hk, func_keyword] at hf
      cases hf
      cases hrest
      rfl

def selectItemPhrase : Phrase SelectItem :=
  partPhrase .column (aggregatePhrase.first ++ [.identifier]) false [.symbol .dot]
    SelectItem.toValue

def columnOf : Derivation .aggregate ⊕ Derivation .columnRef → Derivation .column
  | .inl (.count f a b c) => .columnCount f a b c
  | .inl (.call g f a b c) => .columnCall g f a b c
  | .inr c => .column c

theorem select_item_exact (n : Nat) : Exact n selectItemPhrase Read.selectItem := by
  refine ((aggregate_exact n).choice (column_ref_exact n) rfl rfl (by decide)).map columnOf
    (Sum.elim .aggregate .column) ?_ ?_ ?_ ?_ rfl
  · intro ls
    rw [choose_bind]
    rcases ls with _ | ⟨l, ls⟩
    · rfl
    · cases l with
      | keyword k w => cases k <;> rfl
      | _ => rfl
  · rintro (a | c)
    · cases a <;> rfl
    · rfl
  · intro u
    cases u with
    | column c => exact ⟨.inr c, rfl⟩
    | columnCount f a b c => exact ⟨.inl (.count f a b c), rfl⟩
    | columnCall g f a b c => exact ⟨.inl (.call g f a b c), rfl⟩
  · rintro (a | c) x hm
    · obtain ⟨ha, -⟩ | _ := hm
      cases a <;> exact ha
    · obtain _ | hc := hm
      exact hc

/-- Items with commas between them: a first one, then others. -/
def readItems {α : Type} (item : Reader α) : Reader (α × List α) :=
  andThen item fun ls => Read.moreItems item ls.length ls

theorem more_items_repeated {α : Type} (item : Reader α) (fuel : Nat) (ls : Lexemes) :
    Read.moreItems item fuel ls =
      repeated [.symbol .comma] (andThen (Read.symbol .comma) item) fuel ls >>=
        fun p => .ok (p.1.map Prod.snd, p.2) := by
  induction fuel generalizing ls with
  | zero => rcases ls with _ | ⟨_ | _ | _ | _ | s, ls⟩ <;> rfl
  | succ fuel ih =>
    rcases ls with _ | ⟨_ | _ | _ | _ | s, ls⟩ <;> try rfl
    cases s <;> try rfl
    rw [repeated_bind]
    change _ = andThen _ _ _ >>= _
    rw [and_then_bind, Read.moreItems]
    simp only [ih, bind_assoc]
    rfl

theorem spine_items {α : Type} (x : α) (us : List (Unit × α)) :
    us.foldl (fun xs u => (xs.1, xs.2 ++ [u.2])) (x, []) = (x, us.map Prod.snd) := by
  induction us using List.reverseRecOn with
  | nil => rfl
  | append_singleton us u ih => simp [ih]

def listValue {α : Type} (value : α → Value) (xs : α × List α) : Value :=
  .list ((xs.1 :: xs.2).map value)

def listPhrase {α : Type} (i : Items) (first next : List Part) (value : α → Value) :
    Phrase (α × List α) :=
  partPhrase (.list i) first false (.symbol .comma :: next) (listValue value)

theorem list_exact {α : Type} {n : Nat} (i : Items) {first next : List Part} {value : α → Value}
    {item : Reader α} (h : Exact n (partPhrase i.item first false next value) item)
    (hcomma : .symbol .comma ∉ next) :
    Exact n (listPhrase i first next value) (readItems item) := by
  have hnext : (symbolPhrase .comma).before (partPhrase i.item first false next value) = true := by
    simp [Phrase.before, symbolPhrase]
  refine h.leftRecursive ((symbol_exact n .comma).pair h hnext) (.one i)
    (fun d u => .more i d u.1 u.2) (fun x => (x, [])) (fun xs u => (xs.1, xs.2 ++ [u.2])) rfl
    ?_ ?_ ?_ ?_ ?_ ?_ ?_ ?_ ?_
  · simpa [Phrase.before, Phrase.many, Phrase.pair, symbolPhrase, partPhrase] using hcomma
  · simpa [Phrase.before, Phrase.pair, symbolPhrase, partPhrase] using hcomma
  · intro ls
    simp only [readItems, andThen, more_items_repeated, bind_assoc, spine_items]
    rfl
  · intro t
    rfl
  · intro d u
    rfl
  · intro d
    cases d with
    | one _ x => exact .inl ⟨x, rfl⟩
    | more _ d c x => exact .inr ⟨d, (c, x), rfl⟩
  · intro t x hx
    exact congrArg (fun v => Value.list [v]) hx
  · intro d u y x hd hu
    refine (congrArg₂ appended hd hu.2).trans ?_
    simp [appended, listValue]
  · simp +contextual [Phrase.within, listPhrase, Phrase.pair, partPhrase, Phrase.many,
      symbolPhrase]

def selectListPhrase : Phrase SelectList :=
  partPhrase .selectList (.symbol .star :: selectItemPhrase.first) false
    [.symbol .comma, .symbol .dot] SelectList.toValue

def selectListOf : Derivation (.symbol .star) ⊕ Derivation (.list .columns) → Derivation .selectList
  | .inl star => .allColumns star
  | .inr columns => .someColumns columns

def selectedOf : Unit ⊕ (SelectItem × List SelectItem) → SelectList
  | .inl _ => .all
  | .inr (x, xs) => .items x xs

theorem select_list_exact (n : Nat) : Exact n selectListPhrase Read.selectList := by
  refine ((symbol_exact n .star).choice (list_exact .columns (select_item_exact n) (by decide))
    rfl rfl (by decide)).map selectListOf selectedOf ?_ ?_ ?_ ?_ rfl
  · intro ls
    simp only [choose_bind, readItems, and_then_bind]
    rcases ls with _ | ⟨_ | _ | _ | _ | s, ls⟩ <;> try rfl
    cases s <;> rfl
  · rintro (star | columns) <;> rfl
  · intro u
    cases u with
    | allColumns star => exact ⟨.inl star, rfl⟩
    | someColumns columns => exact ⟨.inr columns, rfl⟩
  · rintro (star | columns) x hm
    · obtain _ | _ := hm
      cases star
      rfl
    · obtain _ | hc := hm
      exact hc

def directions : Words Direction where
  keyword := Direction.keyword
  ofKeyword?
    | .asc => some .asc
    | .desc => some .desc
    | _ => none
  all := [.asc, .desc]
  mem_all := by
    intro d
    cases d <;> decide
  of_keyword := by
    intro d
    cases d <;> rfl
  keyword_of := by
    intro k d h
    cases k <;> cases h <;> rfl

theorem direction_optional (ls : Lexemes) :
    Read.direction ls = optionally (wordsPhrase directions).first (readWord directions) ls >>=
      fun p => .ok (p.1.elim .asc Prod.fst, p.2) := by
  rw [optionally_bind]
  rcases ls with _ | ⟨k | _ | _ | _ | _, ls⟩ <;> try rfl
  cases k <;> rfl

def orderItemPhrase : Phrase OrderItem :=
  partPhrase .orderItem (.identifier :: aggregatePhrase.first) false
    (wordsPhrase directions).first OrderItem.toValue

def orderItemOf :
    (Derivation .identifier ⊕ Derivation .aggregate) ×
        Option (Σ d : Direction, Derivation (.keyword d.keyword)) →
      Derivation .orderItem
  | (.inl a, none) => .orderColumn a
  | (.inr a, none) => .orderAggregate a
  | (.inl a, some ⟨d, w⟩) => .orderColumnBy d a w
  | (.inr a, some ⟨d, w⟩) => .orderAggregateBy d a w

def orderedOf (x : (String ⊕ Aggregate) × Option (Direction × String)) : OrderItem :=
  ⟨x.1.elim id Aggregate.alias, x.2.elim .asc Prod.fst⟩

theorem ordered_by_alias {a : Aggregate} (h : NamedItem (.aggregate a)) :
    orderedBy a.toValue = .text a.alias := by
  rw [alias_name h]
  cases a with
  | countAll => rfl
  | call f c =>
    have hname := h f c rfl
    rw [aggregate_name_call hname, ← lower_function, Aggregate.toValue]
    unfold orderedBy
    split
    · rename_i he
      injection he with _ hc
      exact absurd (Value.text.inj hc) hname.not_star
    · rename_i he
      cases he
      rfl
    · rename_i he
      exact (he _ _ rfl).elim

theorem order_item_exact (n : Nat) : Exact n orderItemPhrase Read.orderItem := by
  refine (((identifier_exact n).choice (aggregate_exact n) rfl rfl (by decide)).pair
    ((words_exact n directions).optional rfl) rfl).map orderItemOf orderedOf ?_ ?_ ?_ ?_ rfl
  · intro ls
    simp only [and_then_bind, choose_bind]
    rcases ls with _ | ⟨_ | _ | _ | _ | _, ls⟩ <;>
      simp only [Read.orderItem, direction_optional, bind_assoc] <;> rfl
  · rintro ⟨a | a, _ | ⟨d, w⟩⟩
    · exact (List.append_nil _).symm
    · rfl
    · exact (List.append_nil _).symm
    · rfl
  · intro u
    cases u with
    | orderColumn a => exact ⟨(.inl a, none), rfl⟩
    | orderAggregate a => exact ⟨(.inr a, none), rfl⟩
    | orderColumnBy d a w => exact ⟨(.inl a, some ⟨d, w⟩), rfl⟩
    | orderAggregateBy d a w => exact ⟨(.inr a, some ⟨d, w⟩), rfl⟩
  · rintro ⟨a, d⟩ ⟨x, e⟩ ⟨ha, hd⟩
    have hname : orderedBy (Sum.elim Derivation.value Derivation.value a) =
        .text (x.elim id Aggregate.alias) := by
      cases ha with
      | inl ha => exact congrArg orderedBy ha
      | inr ha => exact (congrArg orderedBy ha.1).trans (ordered_by_alias ha.2)
    cases hd with
    | none => cases a <;> exact congrArg (Value.orderItem · "ASC") hname
    | some hd =>
      obtain ⟨rfl, hw⟩ := hd
      cases a <;> exact congrArg₂ Value.orderItem hname (upper_spelled hw)

end DocQuery.Proofs
