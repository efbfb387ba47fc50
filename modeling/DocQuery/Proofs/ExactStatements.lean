import DocQuery.Proofs.ExactReaders
import DocQuery.Proofs.Lexemes

namespace DocQuery.Proofs

open Sql
open Value (doc)

def subqueryPhrase : Phrase Query :=
  partPhrase .subquery [.keyword .select] false
    [.keyword .join, .symbol .comma, .symbol .dot, .keyword .andWord, .keyword .orWord,
      .keyword .whereWord, .keyword .group, .keyword .having, .keyword .order, .keyword .asc,
      .keyword .desc, .keyword .limit] Statement.toValue

/-- What may stand in the parentheses of a membership. -/
def memberOf (c : ColumnRef) : Query ⊕ (Sql.Literal × List Sql.Literal) → Condition
  | .inl q => .inQuery c q
  | .inr (l, ls) => .inList c l ls

theorem members_chosen (sub : Reader Query) (c : ColumnRef) (ls : Lexemes) :
    Read.members sub c ls =
      andThen (Read.symbol .lparen)
        (andThen (choose (startsWith subqueryPhrase.first) sub (readItems Read.literal))
          (Read.symbol .rparen)) ls >>=
        fun p => .ok (memberOf c p.1.2.1, p.2) := by
  simp only [Read.members, and_then_bind, choose_bind]
  congr 1
  funext p
  rcases p with ⟨_, _ | ⟨k | _ | _ | _ | _, ls⟩⟩ <;>
    simp only [readItems, and_then_bind] <;> try rfl
  cases k <;> rfl

theorem operand_chosen (ls : Lexemes) :
    Read.operand ls = choose (startsWith columnRefPhrase.first) Read.columnRef Read.literal ls >>=
      fun p => .ok (p.1.elim .column .literal, p.2) := by
  rw [choose_bind]
  rcases ls with _ | ⟨_ | _ | _ | _ | _, ls⟩ <;> rfl

def comparisonPhrase : Phrase Condition :=
  partPhrase .comparison (.identifier :: aggregatePhrase.first) false [.symbol .dot]
    Condition.toValue

def isBetween : Lexemes → Bool
  | .identifier _ :: .keyword .between _ :: _ => true
  | _ => false

def comparisonOf :
    (Derivation .identifier × Derivation (.keyword .between) × Derivation .literal ×
        Derivation (.keyword .andWord) × Derivation .literal) ⊕
      (Derivation .columnRef ×
          ((Derivation (.keyword .inWord) × Derivation (.symbol .lparen) ×
              (Derivation .subquery ⊕ Derivation (.list .literals)) ×
              Derivation (.symbol .rparen)) ⊕
            (Derivation .operator × (Derivation .columnRef ⊕ Derivation .literal)))) ⊕
        (Derivation .aggregate × Derivation .operator × Derivation .literal) →
      Derivation .comparison
  | .inl (a, b, low, w, high) => .between a b low w high
  | .inr (.inl (c, .inl (w, o, .inl q, e))) => .inQuery c w o q e
  | .inr (.inl (c, .inl (w, o, .inr xs, e))) => .inList c w o xs e
  | .inr (.inl (c, .inr (r, .inl d))) => .compareColumns c r d
  | .inr (.inl (c, .inr (r, .inr l))) => .compareLiteral c r l
  | .inr (.inr (a, r, l)) => .compareAggregate a r l

def comparedOf :
    (String × Unit × Sql.Literal × Unit × Sql.Literal) ⊕
      (ColumnRef × ((Unit × Unit × (Query ⊕ (Sql.Literal × List Sql.Literal)) × Unit) ⊕
          (Relation × (ColumnRef ⊕ Sql.Literal)))) ⊕
        (Aggregate × Relation × Sql.Literal) →
      Condition
  | .inl (a, _, low, _, high) => .between a low high
  | .inr (.inl (c, .inl (_, _, m, _))) => memberOf c m
  | .inr (.inl (c, .inr (r, x))) => .compare c r (x.elim .column .literal)
  | .inr (.inr (a, r, l)) => .aggregate a r l

/-- A membership, or an operator and an operand. -/
def comparedWith (sub : Reader Query) :=
  choose (startsWith [.keyword .inWord])
    (andThen (Read.keyword .inWord) (andThen (Read.symbol .lparen)
      (andThen (choose (startsWith subqueryPhrase.first) sub (readItems Read.literal))
        (Read.symbol .rparen))))
    (andThen Read.relation
      (choose (startsWith columnRefPhrase.first) Read.columnRef Read.literal))

theorem compared_with_chosen (sub : Reader Query) (c : ColumnRef) (ls : Lexemes) :
    (match ls with
      | .keyword .inWord _ :: ls => Read.members sub c ls
      | ls => Read.relation ls >>= fun p => Read.operand p.2 >>= fun q =>
          .ok (.compare c p.1 q.1, q.2)) =
      comparedWith sub ls >>= fun p => .ok (comparedOf (.inr (.inl (c, p.1))), p.2) := by
  rw [comparedWith, choose_bind]
  cases hin : startsWith [.keyword .inWord] ls with
  | true =>
    obtain ⟨w, rest, rfl⟩ := starts_with_keyword hin
    rw [if_pos rfl, and_then_bind]
    exact members_chosen sub c rest
  | false =>
    simp only [operand_chosen, and_then_bind, bind_assoc]
    split
    · cases hin
    · rfl

theorem comparison_column (sub : Reader Query) {a : String} {ls : Lexemes}
    (h : isBetween (.identifier a :: ls) = false) :
    Read.comparison sub (.identifier a :: ls) =
      andThen Read.columnRef (comparedWith sub) (.identifier a :: ls) >>=
        fun p => .ok (comparedOf (.inr (.inl p.1)), p.2) := by
  rw [and_then_bind]
  simp only [← compared_with_chosen]
  unfold Read.comparison
  split
  · rename_i he
    cases he
    cases h
  · rename_i he
    cases he
    rfl
  · rename_i hne
    exact (hne _ _ rfl).elim

/-- A column is followed by the word for a range only if it has no table. -/
theorem not_between (c : Derivation .columnRef) {ls : Lexemes}
    (h : Stops [.keyword .between] ls) : isBetween (c.yield ++ ls) = false := by
  cases c with
  | columnRef a =>
    cases a with
    | identifier a =>
      change isBetween (.identifier a :: ls) = false
      unfold isBetween
      split
      · rename_i he
        cases he
        exact absurd List.mem_cons_self (h _ rfl)
      · rfl
  | qualified t dot a =>
    cases t
    cases dot
    rfl

def connectives : Words Connective where
  keyword
    | .both => .andWord
    | .either => .orWord
  ofKeyword?
    | .andWord => some .both
    | .orWord => some .either
    | _ => none
  all := [.both, .either]
  mem_all := by
    intro k
    cases k <;> decide
  of_keyword := by
    intro k
    cases k <;> rfl
  keyword_of := by
    intro k c h
    cases k <;> cases h <;> rfl

def conditionPhrase : Phrase Condition :=
  partPhrase .condition comparisonPhrase.first false
    (.symbol .dot :: (wordsPhrase connectives).first) Condition.toValue

def connectOf (d : Derivation .condition) :
    (Σ k, Derivation (.keyword (connectives.keyword k))) × Derivation .comparison →
      Derivation .condition
  | (⟨.both, w⟩, c) => .both d w (.comparison c)
  | (⟨.either, w⟩, c) => .either d w (.comparison c)

theorem connected_repeated (term : Reader Condition) (fuel : Nat) (c : Condition) (ls : Lexemes) :
    Read.connected term fuel c ls =
      repeated (wordsPhrase connectives).first (andThen (readWord connectives) term) fuel ls >>=
        fun p => .ok (p.1.foldl (fun c u => .connect c u.1.2 u.2) c, p.2) := by
  induction fuel generalizing c ls with
  | zero => rcases ls with _ | ⟨k | _ | _ | _ | _, ls⟩ <;> rfl
  | succ fuel ih =>
    rw [repeated_bind]
    rcases ls with _ | ⟨k | _ | _ | _ | _, ls⟩ <;> try rfl
    cases k <;> try rfl
    case andWord | orWord =>
      change _ = andThen _ _ _ >>= _
      rw [and_then_bind, Read.connected]
      simp only [ih]
      rfl

/-- The tables of a statement, as far as they are read. -/
def sourceValue : Source Condition → Value
  | .table a => tableValue (.text a) []
  | .join a b c => tableValue (.text a) [doc [("table", .text b), ("condition", c.toValue)]]
  | .tables a b more => textList (a :: b :: more)

def sourcePhrase : Phrase (Source Condition) :=
  partPhrase .tableList [.identifier] false
    (.keyword .join :: .symbol .comma :: conditionPhrase.next) sourceValue

def firstTableOf :
    Derivation .identifier × Option (Derivation (.keyword .join) × Derivation .identifier ×
        Derivation (.keyword .on) × Derivation .condition) →
      Derivation .tableList
  | (a, none) => .table a
  | (a, some (w, b, v, c)) => .join a w b v c

def firstSource : String × Option (Unit × String × Unit × Condition) → Source Condition
  | (a, none) => .table a
  | (a, some (_, b, _, c)) => .join a b c

theorem tables_after_one (x : Source Condition) (t : String) (ts : List String) :
    Read.tablesAfter (Read.tablesAfter x [t]) ts = Read.tablesAfter x (t :: ts) := by
  cases x <;> cases ts <;> simp [Read.tablesAfter]

theorem tables_after_spine (x : Source Condition) (us : List (Unit × String)) :
    us.foldl (fun x u => Read.tablesAfter x [u.2]) x = Read.tablesAfter x (us.map Prod.snd) := by
  induction us generalizing x with
  | nil => rfl
  | cons u us ih => rw [List.foldl_cons, ih, tables_after_one, List.map_cons]

theorem source_value_after (x : Source Condition) (t : String) :
    tablesWith (sourceValue x) (.text t) = sourceValue (Read.tablesAfter x [t]) := by
  cases x with
  | table a => rfl
  | join a b c => rfl
  | tables a b more => simp [sourceValue, textList, tablesWith, appended, Read.tablesAfter]

section

variable {n : Nat} {sub : Reader Query}

theorem comparison_exact (hsub : Exact n subqueryPhrase sub) :
    Exact n comparisonPhrase (Read.comparison sub) := by
  have hbetween := (identifier_exact n).pair ((keyword_exact n .between).pair
    ((literal_exact n).pair ((keyword_exact n .andWord).pair (literal_exact n) rfl) rfl) rfl) rfl
  have hmembers := (keyword_exact n .inWord).pair ((symbol_exact n .lparen).pair
    ((hsub.choice (list_exact .literals (literal_exact n) (by decide)) rfl rfl (by decide)).pair
      (symbol_exact n .rparen) rfl) rfl) rfl
  have hcompare := (relation_exact n).pair
    ((column_ref_exact n).choice (literal_exact n) rfl rfl (by decide)) rfl
  have hcolumn := (column_ref_exact n).pair (hmembers.choice hcompare rfl rfl (by decide)) rfl
  have haggregate := (aggregate_exact n).pair ((relation_exact n).pair (literal_exact n) rfl) rfl
  refine (hbetween.either (hcolumn.choice haggregate rfl rfl (by decide)) isBetween ?_ ?_).map
    comparisonOf comparedOf ?_ ?_ ?_ ?_ rfl
  · rintro ⟨a, b, _⟩ rest _
    cases a
    cases b
    rfl
  · rintro (⟨c, m⟩ | ⟨a, _⟩) rest _
    · have hstops : Stops [.keyword .between] (_ ++ rest) :=
        (hmembers.choice hcompare rfl rfl (by decide)).stops m (by decide) nofun
      rw [← not_between c hstops, ← List.append_assoc]
      rfl
    · cases a with
      | count f => cases f; rfl
      | call _ f => cases f; rfl
  · intro ls
    rw [choose_bind, choose_bind]
    cases hb : isBetween ls with
    | true =>
      unfold isBetween at hb
      split at hb
      · simp only [and_then_bind]
        rfl
      · cases hb
    | false =>
      rcases ls with _ | ⟨_ | a | _ | _ | _, ls⟩
      case cons.identifier => exact comparison_column sub hb
      all_goals
        simp only [and_then_bind]
        rfl
  · rintro (_ | ⟨c, ⟨w, o, q | xs, e⟩ | ⟨r, d | l⟩⟩ | _) <;> rfl
  · intro u
    cases u with
    | between a b low w high => exact ⟨.inl (a, b, low, w, high), rfl⟩
    | inQuery c w o q e => exact ⟨.inr (.inl (c, .inl (w, o, .inl q, e))), rfl⟩
    | inList c w o xs e => exact ⟨.inr (.inl (c, .inl (w, o, .inr xs, e))), rfl⟩
    | compareColumns c r d => exact ⟨.inr (.inl (c, .inr (r, .inl d))), rfl⟩
    | compareLiteral c r l => exact ⟨.inr (.inl (c, .inr (r, .inr l))), rfl⟩
    | compareAggregate a r l => exact ⟨.inr (.inr (a, r, l)), rfl⟩
  · rintro t x (⟨ha, -, hlow, -, hhigh⟩ | @⟨⟨c, t⟩, ⟨y, x⟩, ⟨hc, hm⟩⟩ | ⟨ha, hr, hl⟩)
    · exact congrArg₂ (Value.comparison · (.text "BETWEEN") ·) ha
        (congrArg₂ (fun v w => Value.tuple [v, w]) hlow hhigh)
    · rcases hm with @⟨⟨w, o, m, e⟩, ⟨_, _, v, _⟩, ⟨-, -, hm, -⟩⟩ | @⟨⟨r, o⟩, ⟨s, v⟩, ⟨hr, ho⟩⟩
      · rcases hm with hq | hxs
        · exact congrArg₂ (Value.comparison · (.text "IN_SUBQUERY") ·) hc hq
        · exact congrArg₂ (Value.comparison · (.text "IN") ·) hc hxs
      · have hleft := congrArg₂ Value.comparison hc hr
        rcases ho with hd | hl
        · exact congr hleft hd
        · exact congr hleft hl
    · exact congr (congrArg₂ Value.comparison ha.1 hr) hl

theorem condition_exact (hsub : Exact n subqueryPhrase sub) :
    Exact n conditionPhrase (Read.condition sub) := by
  have hcomparison := comparison_exact hsub
  refine hcomparison.leftRecursive ((words_exact n connectives).pair hcomparison rfl)
    (fun c => .term (.comparison c)) connectOf id (fun c u => .connect c u.1.2 u.2) rfl rfl rfl
    ?_ ?_ ?_ ?_ ?_ ?_ rfl
  · intro ls
    rw [and_then_bind]
    simp only [Read.condition, connected_repeated]
    rfl
  · intro t
    rfl
  · rintro d ⟨⟨_ | _, w⟩, c⟩ <;> rfl
  · intro d
    cases d with
    | term t =>
      cases t with
      | comparison c => exact .inl ⟨c, rfl⟩
    | both d w t =>
      cases t with
      | comparison c => exact .inr ⟨d, (⟨.both, w⟩, c), rfl⟩
    | either d w t =>
      cases t with
      | comparison c => exact .inr ⟨d, (⟨.either, w⟩, c), rfl⟩
  · intro t x hx
    exact hx
  · rintro d ⟨_, c⟩ y ⟨⟨k, w⟩, x⟩ hd ⟨⟨rfl, -⟩, hc⟩
    cases k <;> exact congrArg₂ (Value.logical · (.text w) ·) hd hc

theorem source_exact (hsub : Exact n subqueryPhrase sub) :
    Exact n sourcePhrase (Read.source sub) := by
  have hjoin := (keyword_exact n .join).pair ((identifier_exact n).pair
    ((keyword_exact n .on).pair (condition_exact hsub) rfl) rfl) rfl
  refine ((identifier_exact n).pair (hjoin.optional rfl) rfl).leftRecursive
    ((symbol_exact n .comma).pair (identifier_exact n) rfl) firstTableOf
    (fun d u => .moreTables d u.1 u.2) firstSource (fun x u => Read.tablesAfter x [u.2]) rfl rfl
    rfl ?_ ?_ ?_ ?_ ?_ ?_ rfl
  · intro ls
    simp only [and_then_bind, optionally_bind, Read.source, more_items_repeated, bind_assoc,
      tables_after_spine]
    congr 1
    funext p
    change _ = if startsWith [.keyword .join] p.2 = true then _ else _
    cases hstart : startsWith [.keyword .join] p.2 with
    | true =>
      obtain ⟨w, rest, hrest⟩ := starts_with_keyword hstart
      rw [hrest]
      rfl
    | false =>
      split
      · rename_i hrest
        rw [hrest] at hstart
        cases hstart
      · rfl
  · rintro ⟨a, _ | _⟩
    · exact (List.append_nil _).symm
    · rfl
  · intro d u
    rfl
  · intro d
    cases d with
    | table a => exact .inl ⟨(a, none), rfl⟩
    | join a w b v c => exact .inl ⟨(a, some (w, b, v, c)), rfl⟩
    | moreTables d c a => exact .inr ⟨d, (c, a), rfl⟩
  · rintro ⟨a, _⟩ ⟨x, _⟩ ⟨ha, hb⟩
    cases hb with
    | none => exact congrArg (tableValue · []) ha
    | some hb =>
      obtain ⟨-, hb, -, hc⟩ := hb
      exact congrArg₂ tableValue ha
        (congrArg₂ (fun t c => [doc [("table", t), ("condition", c)]]) hb hc)
  · intro d u y x hd hu
    exact (congrArg₂ tablesWith hd hu.2).trans (source_value_after y x.2)

theorem optional_chosen {α : Type} (k : Keyword) (body : Reader α) (ls : Lexemes) :
    Read.optional k body ls = optionally [.keyword k] (andThen (Read.keyword k) body) ls >>=
      fun p => .ok (p.1.map Prod.snd, p.2) := by
  rw [optionally_bind]
  cases hstart : startsWith [.keyword k] ls with
  | true =>
    obtain ⟨w, rest, rfl⟩ := starts_with_keyword hstart
    simp only [and_then_bind, Read.optional, Read.keyword, ↓reduceIte]
    rfl
  | false =>
    unfold Read.optional
    split
    · rename_i j w rest
      have hj : j ≠ k := by
        rintro rfl
        simp [startsWith, lexemePart] at hstart
      simp [hj]
    · rfl

def clausePhrase {α : Type} (c : Clause) (next : List Part) (value : α → Value) :
    Phrase (Option α) :=
  partPhrase (.clause c) [.keyword c.keyword] true (.keyword c.keyword :: next)
    fun x => x.elim .null value

def clauseOf (c : Clause) :
    Option (Derivation (.keyword c.keyword) × Derivation c.body) → Derivation (.clause c)
  | none => .noClause c .empty
  | some (w, body) => .clause c w body

theorem clause_exact {α : Type} (c : Clause) {first next : List Part} {value : α → Value}
    {body : Reader α} (h : Exact n (partPhrase c.body first false next value) body) :
    Exact n (clausePhrase c next value) (Read.optional c.keyword body) := by
  have hbefore : (keywordPhrase c.keyword).before (partPhrase c.body first false next value) =
      true := by
    simp [Phrase.before, keywordPhrase]
  refine (((keyword_exact n c.keyword).pair h hbefore).optional rfl).map (clauseOf c)
    (Option.map Prod.snd) (optional_chosen c.keyword body) ?_ ?_ ?_ ?_
  · rintro (_ | ⟨w, b⟩) <;> rfl
  · intro u
    cases u with
    | noClause _ e =>
      cases e
      exact ⟨none, rfl⟩
    | clause _ w b => exact ⟨some (w, b), rfl⟩
  · intro t x hm
    cases hm with
    | none => rfl
    | some hm => exact hm.2
  · simp +contextual [Phrase.within, Phrase.optional, Phrase.pair, keywordPhrase, clausePhrase,
      partPhrase]

def byClausePhrase {α : Type} (c : ByClause) (next : List Part) (value : α → Value) :
    Phrase (Option (List α)) :=
  partPhrase (.byClause c) [.keyword c.keyword] true
    (.keyword c.keyword :: .symbol .comma :: next) fun x => .list ((x.getD []).map value)

def byClauseOf (c : ByClause) :
    Option (Derivation (.keyword c.keyword) × Derivation (.keyword .byWord) ×
        Derivation (.list c.items)) →
      Derivation (.byClause c)
  | none => .noByClause c .empty
  | some (w, v, items) => .byClause c w v items

theorem by_clause_exact {α : Type} (c : ByClause) {first next : List Part} {value : α → Value}
    {item : Reader α} {items : Reader (List α)}
    (h : Exact n (listPhrase c.items first next value) (readItems item))
    (hread : ∀ ls, items ls = andThen (Read.keyword .byWord) (readItems item) ls >>=
      fun p => .ok (p.1.2.1 :: p.1.2.2, p.2)) :
    Exact n (byClausePhrase c next value) (Read.optional c.keyword items) := by
  have hby : (keywordPhrase .byWord).before (listPhrase c.items first next value) = true := by
    simp [Phrase.before, keywordPhrase]
  have hword : (keywordPhrase c.keyword).before
      ((keywordPhrase .byWord).pair (listPhrase c.items first next value)) = true := by
    simp [Phrase.before, keywordPhrase]
  refine (((keyword_exact n c.keyword).pair ((keyword_exact n .byWord).pair h hby)
    hword).optional rfl).map (byClauseOf c)
    (Option.map fun x => x.2.2.1 :: x.2.2.2) ?_ ?_ ?_ ?_ ?_
  · intro ls
    rw [optional_chosen, optionally_bind, optionally_bind]
    simp only [and_then_bind, hread, bind_assoc]
    rfl
  · rintro (_ | ⟨w, v, b⟩) <;> rfl
  · intro u
    cases u with
    | noByClause _ e =>
      cases e
      exact ⟨none, rfl⟩
    | byClause _ w v b => exact ⟨some (w, v, b), rfl⟩
  · intro t x hm
    cases hm with
    | none => rfl
    | some hm => exact hm.2.2
  · simp +contextual [Phrase.within, Phrase.optional, Phrase.pair, keywordPhrase, byClausePhrase,
      listPhrase, partPhrase]

theorem column_names_read (ls : Lexemes) :
    Read.columnNames ls = andThen (Read.keyword .byWord) (readItems Read.identifier) ls >>=
      fun p => .ok (p.1.2.1 :: p.1.2.2, p.2) := by
  simp only [readItems, and_then_bind]
  rfl

theorem order_items_read (ls : Lexemes) :
    Read.orderItems ls = andThen (Read.keyword .byWord) (readItems Read.orderItem) ls >>=
      fun p => .ok (p.1.2.1 :: p.1.2.2, p.2) := by
  simp only [readItems, and_then_bind]
  rfl

def statementOf :
    Derivation (.keyword .select) × Derivation .selectList × Derivation (.keyword .fromWord) ×
        Derivation .tableList × Derivation (.clause .condition) × Derivation (.byClause .group) ×
        Derivation (.clause .having) × Derivation (.byClause .order) ×
        Derivation (.clause .limit) →
      Derivation .subquery
  | (a, b, c, d, e, f, g, h, i) => .subquery a b c d e f g h i

def statementRead :
    Unit × SelectList × Unit × Source Condition × Option Condition × Option (List String) ×
        Option Condition × Option (List OrderItem) × Option Nat →
      Query
  | (_, items, _, source, condition, groupBy, having, orderBy, limit) =>
    ⟨items, source, condition, groupBy.getD [], having, orderBy.getD [], limit⟩

theorem select_value_source (columns condition groupBy having orderBy limit : Value)
    (x : Source Condition) :
    selectValue columns (sourceValue x) condition groupBy having orderBy limit =
      .select {
        columns, condition, groupBy, having, orderBy, limit
        table := sourceTable x
        joins := sourceJoins x
        offset := .null
        join? := none
        filter? := none
        resolved? := none } := by
  cases x <;> rfl

/-- The first keyword leaves fewer lexemes to what may hold other statements. -/
theorem statement_exact (hsub : Exact n subqueryPhrase sub) :
    Exact (n + 1) subqueryPhrase (Read.statement sub) := by
  have hlimit := clause_exact .limit (number_exact n)
  have horder := by_clause_exact .order (list_exact .orderItems (order_item_exact n) (by decide))
    order_items_read
  have hgroup := by_clause_exact .group (list_exact .names (identifier_exact n) (by decide))
    column_names_read
  have hhaving := clause_exact .having (condition_exact hsub)
  have hwhere := clause_exact .condition (condition_exact hsub)
  have hrest := (select_list_exact n).pair ((keyword_exact n .fromWord).pair
    ((source_exact hsub).pair (hwhere.pair (hgroup.pair (hhaving.pair (horder.pair hlimit
      rfl) rfl) rfl) rfl) rfl) rfl) rfl
  refine ((keyword_exact (n + 1) .select).pairWithin hrest rfl ?_).map statementOf statementRead
    ?_ ?_ ?_ ?_ rfl
  · intro t u hb
    cases t
    rw [Nat.add_comm] at hb
    exact Nat.le_of_succ_le_succ hb
  · intro ls
    simp only [and_then_bind]
    rfl
  · intro t
    rfl
  · intro u
    cases u with
    | subquery a b c d e f g h i => exact ⟨(a, b, c, d, e, f, g, h, i), rfl⟩
  · rintro ⟨a, b, c, d, e, f, g, h, i⟩ ⟨_, items, _, x, w, gs, v, os, l⟩
      ⟨-, hb, -, hd, he, hf, hg, hh, hi⟩
    change b.value = _ at hb
    change d.value = _ at hd
    change e.value = _ at he
    change f.value = _ at hf
    change g.value = _ at hg
    change h.value = _ at hh
    change i.value = _ at hi
    change selectValue b.value d.value e.value f.value g.value h.value i.value = _
    rw [hb, hd, he, hf, hg, hh, hi, select_value_source]
    cases w <;> cases v <;> cases l <;> rfl

end

theorem nested_exact (depth : Nat) : Exact depth subqueryPhrase (Read.nested depth) := by
  induction depth with
  | zero =>
    have hcons : ∀ t, ∃ l ls, subqueryPhrase.yield t = l :: ls ∧
        lexemePart l ∈ subqueryPhrase.first := by
      intro t
      cases t with
      | subquery a b c d e f g h i =>
        cases a with
        | keyword _ w => exact ⟨.keyword .select w, _, rfl, List.mem_cons_self⟩
    have hlength : ∀ t, ¬ (subqueryPhrase.yield t).length ≤ 0 := by
      intro t hb
      obtain ⟨l, ls, hl, -⟩ := hcons t
      rw [hl] at hb
      exact Nat.not_succ_le_zero _ hb
    constructor
    case starts => exact fun t => .inl (hcons t)
    case sound =>
      intro ls x rest _ hr
      cases hr
    case complete => exact fun t _ hb => absurd hb (hlength t)
    case unique => exact fun hb => absurd hb (hlength _)
  | succ depth ih => exact statement_exact ih

def queryPhrase : Phrase Query :=
  partPhrase .query [.keyword .select] false [] Statement.toValue

def queryOf : Derivation .subquery × Derivation (.symbol .semicolon) → Derivation .query
  | (.subquery a b c d e f g h i, j) => .query a b c d e f g h i j

def readQuery (depth : Nat) : Reader Query := fun ls =>
  andThen (Read.nested depth) (Read.symbol .semicolon) ls >>= fun p => .ok (p.1.1, p.2)

theorem query_exact (depth : Nat) : Exact depth queryPhrase (readQuery depth) := by
  refine ((nested_exact depth).pair (symbol_exact depth .semicolon) rfl).map queryOf Prod.fst
    (fun _ => rfl) ?_ ?_ ?_ rfl
  · rintro ⟨q, j⟩
    cases q with
    | subquery a b c d e f g h i =>
      change _ = (a.yield ++ (b.yield ++ (c.yield ++ (d.yield ++ (e.yield ++ (f.yield ++ (g.yield ++
        (h.yield ++ i.yield)))))))) ++ j.yield
      simp only [List.append_assoc]
      rfl
  · intro u
    cases u with
    | query a b c d e f g h i j => exact ⟨(.subquery a b c d e f g h i, j), rfl⟩
  · rintro ⟨q, j⟩ x ⟨hq, -⟩
    cases q
    exact hq

/-- A statement is read if nothing is left after it. -/
theorem of_lexemes_ok {ls : Lexemes} {q : Query} :
    Query.ofLexemes ls = .ok q ↔ readQuery (ls.length + 1) ls = .ok (q, []) := by
  have hread : Query.ofLexemes ls = readQuery (ls.length + 1) ls >>= fun p =>
      if p.2.isEmpty then .ok p.1 else Read.stuck p.2 := by
    simp only [readQuery, bind_assoc, and_then_bind]
    rfl
  rw [hread, bind_ok]
  constructor
  · rintro ⟨⟨q', rest⟩, hp, hq⟩
    cases rest with
    | nil =>
      cases hq
      exact hp
    | cons l rest => cases hq
  · intro h
    exact ⟨(q, []), h, rfl⟩

/-- Lexemes that are read come from a derivation. -/
theorem of_lexemes_sound {ls : Lexemes} {q : Query} (hs : ∀ l ∈ ls, Spelled l)
    (h : Query.ofLexemes ls = .ok q) :
    ∃ d : Derivation .query, d.yield = ls ∧ d.value = q.toValue := by
  obtain ⟨d, hd, hvalue⟩ := (query_exact _).sound hs (of_lexemes_ok.mp h)
  rw [List.append_nil] at hd
  exact ⟨d, hd.symm, hvalue⟩

theorem of_lexemes_complete (d : Derivation .query) : ∃ q, Query.ofLexemes d.yield = .ok q := by
  obtain ⟨q, hq⟩ := (query_exact (d.yield.length + 1)).complete d (Nat.le_succ _) (Stops.nil _)
  rw [List.append_nil] at hq
  exact ⟨q, of_lexemes_ok.mpr hq⟩

theorem derivation_unique {d e : Derivation .query} (h : d.yield = e.yield) : d = e :=
  (query_exact d.yield.length).unique le_rfl h

/-- A scan that is no statement is at fault with one of its tokens, or ends too soon. -/
theorem parse_fails {s : Scan} (hscan : s.error? = none) {left : Nat}
    (h : Query.ofLexemes (s.tokens.map (·.lexeme)) = .error left) :
    (∃ t ∈ s.tokens, s.parse = .error (.unexpected t)) ∨ s.parse = .error .unexpectedEnd := by
  unfold Scan.parse
  rw [h]
  simp only
  split
  · rename_i t rest hdrop
    have hmem : t ∈ s.tokens.drop (s.tokens.length - left) := hdrop ▸ List.mem_cons_self
    exact .inl ⟨t, List.mem_of_mem_drop hmem, rfl⟩
  · simp [Scan.atEnd, hscan]

/-- The parser takes exactly the token sequences that the grammar derives. There is one derivation
of each, and the statement is its value; all other sequences are syntax errors. -/
theorem parse_derivations_exact (s : Scan) (hs : ∀ l ∈ s.tokens.map (·.lexeme), Spelled l)
    (hscan : s.error? = none) :
    ((∃ q, s.parse = .ok q) ↔ ∃ d : Derivation .query, d.yield = s.tokens.map (·.lexeme)) ∧
    (∀ d e : Derivation .query, d.yield = s.tokens.map (·.lexeme) →
      e.yield = s.tokens.map (·.lexeme) → d = e) ∧
    (∀ d : Derivation .query, d.yield = s.tokens.map (·.lexeme) →
      ∃ q, s.parse = .ok q ∧ q.toValue = d.value) ∧
    ((∀ d : Derivation .query, d.yield ≠ s.tokens.map (·.lexeme)) →
      (∃ t ∈ s.tokens, s.parse = .error (.unexpected t)) ∨ s.parse = .error .unexpectedEnd) := by
  have hread : ∀ {q}, Query.ofLexemes (s.tokens.map (·.lexeme)) = .ok q → s.parse = .ok q := by
    intro q hq
    simp only [Scan.parse, hq, hscan]
  have hvalue : ∀ d : Derivation .query, d.yield = s.tokens.map (·.lexeme) →
      ∃ q, s.parse = .ok q ∧ q.toValue = d.value := by
    intro d hd
    obtain ⟨q, hq⟩ := of_lexemes_complete d
    rw [hd] at hq
    obtain ⟨e, he, hv⟩ := of_lexemes_sound hs hq
    rw [derivation_unique (hd.trans he.symm)]
    exact ⟨q, hread hq, hv.symm⟩
  have hnone : (∀ d : Derivation .query, d.yield ≠ s.tokens.map (·.lexeme)) →
      (∃ t ∈ s.tokens, s.parse = .error (.unexpected t)) ∨ s.parse = .error .unexpectedEnd := by
    intro hno
    cases hq : Query.ofLexemes (s.tokens.map (·.lexeme)) with
    | error left => exact parse_fails hscan hq
    | ok q =>
      obtain ⟨d, hd, -⟩ := of_lexemes_sound hs hq
      exact absurd hd (hno d)
  refine ⟨⟨?_, ?_⟩, ?_, hvalue, hnone⟩
  · rintro ⟨q, hq⟩
    by_contra hno
    rcases hnone (fun d hd => hno ⟨d, hd⟩) with ⟨t, -, ht⟩ | hend
    · rw [ht] at hq
      cases hq
    · rw [hend] at hq
      cases hq
  · rintro ⟨d, hd⟩
    obtain ⟨q, hq, -⟩ := hvalue d hd
    exact ⟨q, hq⟩
  · intro d e hd he
    exact derivation_unique (hd.trans he.symm)

def buyersText : String :=
  "SELECT name FROM users WHERE users.id in (SELECT user FROM orders) AND age BETWEEN 1 AND 9;"

def buyersDerivation : Derivation .query :=
  let column (name : String) : Derivation .selectList :=
    .someColumns (.one .columns (.column (.columnRef (.identifier name))))
  .query (.keyword _ "SELECT") (column "name") (.keyword _ "FROM") (.table (.identifier "users"))
    (.clause .condition (.keyword _ "WHERE") (.both
      (.term (.comparison (.inQuery
        (.qualified (.identifier "users") (.symbol _) (.identifier "id")) (.keyword _ "in")
        (.symbol _)
        (.subquery (.keyword _ "SELECT") (column "user") (.keyword _ "FROM")
          (.table (.identifier "orders")) (.noClause _ .empty) (.noByClause _ .empty)
          (.noClause _ .empty) (.noByClause _ .empty) (.noClause _ .empty))
        (.symbol _))))
      (.keyword _ "AND")
      (.comparison (.between (.identifier "age") (.keyword _ "BETWEEN")
        (.numberLiteral (.number 1)) (.keyword _ "AND") (.numberLiteral (.number 9))))))
    (.noByClause _ .empty) (.noClause _ .empty) (.noByClause _ .empty) (.noClause _ .empty)
    (.symbol _)

theorem buyers_derivation_parsed :
    (scan buyersText 1).error? = none ∧
      buyersDerivation.yield = (scan buyersText 1).tokens.map (·.lexeme) ∧
      (∃ q, (scan buyersText 1).parse = .ok q ∧ q.toValue = buyersDerivation.value) ∧
      ∀ d : Derivation .query, d.yield = (scan buyersText 1).tokens.map (·.lexeme) →
        d = buyersDerivation := by
  have hscanned : (scan buyersText 1).error? = none ∧
      (scan buyersText 1).tokens.map (·.lexeme) = buyersDerivation.yield :=
    lexemes_scanned ⟨rfl, rfl⟩
  have hscan := hscanned.1
  have hyield := hscanned.2.symm
  obtain ⟨-, hunique, hvalue, -⟩ :=
    parse_derivations_exact (scan buyersText 1) (scan_spelled buyersText 1) hscan
  exact ⟨hscan, hyield, hvalue _ hyield, fun d hd => hunique d _ hd hyield⟩

end DocQuery.Proofs
