import DocQuery.Proofs.Phrases

namespace DocQuery.Proofs

open Sql

/-- A keyword in its usual letter case. -/
def word (k : Keyword) : Lexeme := .keyword k k.spelling

def columnLexemes : ColumnRef → Lexemes
  | ⟨some t, c⟩ => [.identifier t, .symbol .dot, .identifier c]
  | ⟨none, c⟩ => [.identifier c]

def literalLexeme : Sql.Literal → Lexeme
  | .number n => .number n
  | .text s => .text s

def aggregateLexemes : Aggregate → Lexemes
  | .countAll => [word .count, .symbol .lparen, .symbol .star, .symbol .rparen]
  | .call f c => [word f.keyword, .symbol .lparen, .identifier c, .symbol .rparen]

def operandLexemes : Operand → Lexemes
  | .column c => columnLexemes c
  | .literal l => [literalLexeme l]

def itemLexemes : SelectItem → Lexemes
  | .column c => columnLexemes c
  | .aggregate a => aggregateLexemes a

/-- The items of a list after its first one, with a comma before each. -/
def moreLexemes {α : Type} (write : α → Lexemes) (xs : List α) : Lexemes :=
  xs.flatMap fun x => .symbol .comma :: write x

def selectLexemes : SelectList → Lexemes
  | .all => [.symbol .star]
  | .items x xs => itemLexemes x ++ moreLexemes itemLexemes xs

def nameLexemes (a : String) : Lexemes := [.identifier a]

/-- The alias of the count of all rows is a keyword, so that the count itself has to be written. -/
def orderLexemes (o : OrderItem) : Lexemes :=
  (if o.column = Aggregate.countAll.alias then aggregateLexemes .countAll
    else nameLexemes o.column) ++ [word o.direction.keyword]

/-- A clause of two words and a list, which is left out if the list is empty. -/
def byLexemes {α : Type} (k : Keyword) (write : α → Lexemes) : List α → Lexemes
  | [] => []
  | x :: xs => word k :: word .byWord :: write x ++ moreLexemes write xs

def limitLexemes : Option Nat → Lexemes
  | some n => [word .limit, .number n]
  | none => []

/-- A connective that is not spelled as OR counts as AND. -/
def connectiveOf (w : String) : Keyword :=
  if Keyword.ofWord? w.toList = some .orWord then .orWord else .andWord

mutual
def conditionLexemes : Condition → Lexemes
  | .compare c r x => columnLexemes c ++ .symbol r.symbol :: operandLexemes x
  | .aggregate a r l => aggregateLexemes a ++ [.symbol r.symbol, literalLexeme l]
  | .between c low high =>
    [.identifier c, word .between, literalLexeme low, word .andWord, literalLexeme high]
  | .inList c l ls =>
    columnLexemes c ++ [word .inWord, .symbol .lparen, literalLexeme l] ++
      moreLexemes (fun l => [literalLexeme l]) ls ++ [.symbol .rparen]
  | .inQuery c q =>
    columnLexemes c ++ [word .inWord, .symbol .lparen] ++ statementLexemes q ++ [.symbol .rparen]
  | .connect l w r => conditionLexemes l ++ .keyword (connectiveOf w) w :: conditionLexemes r

def clauseLexemes (k : Keyword) : Option Condition → Lexemes
  | some c => word k :: conditionLexemes c
  | none => []

def sourceLexemes : Source Condition → Lexemes
  | .table a => [.identifier a]
  | .join a b on =>
    [.identifier a, word .join, .identifier b, word .on] ++ conditionLexemes on
  | .tables a b more => .identifier a :: moreLexemes nameLexemes (b :: more)

def statementLexemes : Statement Condition → Lexemes
  | ⟨items, source, condition?, groupBy, having?, orderBy, limit?⟩ =>
    word .select :: selectLexemes items ++ word .fromWord :: sourceLexemes source ++
      clauseLexemes .whereWord condition? ++ byLexemes .group nameLexemes groupBy ++
      clauseLexemes .having having? ++ byLexemes .order orderLexemes orderBy ++ limitLexemes limit?
end

def isTerm : Condition → Bool
  | .connect .. => false
  | _ => true

/-- A condition joins one comparison to all those before it, whatever they are. -/
abbrev IsComb : Condition → Prop := CombOf (isTerm · = true) fun _ => True

mutual
/-- The conditions of the subqueries of a condition are combs. -/
def NestedCombs : Condition → Prop
  | .connect l _ r => NestedCombs l ∧ NestedCombs r
  | .inQuery _ q => HasCombs q
  | _ => True

def ClauseComb : Option Condition → Prop
  | some c => IsComb c ∧ NestedCombs c
  | none => True

def SourceComb : Source Condition → Prop
  | .join _ _ on => IsComb on ∧ NestedCombs on
  | _ => True

/-- The conditions of a statement and of its subqueries are combs. -/
def HasCombs : Statement Condition → Prop
  | ⟨_, source, condition?, _, having?, _, _⟩ =>
    SourceComb source ∧ ClauseComb condition? ∧ ClauseComb having?
end

theorem stops_cons {ps : List Part} {l : Lexeme} {ls : Lexemes} :
    Stops ps (l :: ls) ↔ lexemePart l ∉ ps := by
  simp [Stops]

/-- A reader takes what is written of a value, where nothing goes on with it. -/
def ReadsBack {α : Type} (read : Reader α) (write : α → Lexemes) (next : List Part) (x : α) :
    Prop :=
  ∀ ⦃rest : Lexemes⦄, Stops next rest → read (write x ++ rest) = .ok (x, rest)

theorem literal_read (l : Sql.Literal) (rest : Lexemes) :
    Read.literal (literalLexeme l :: rest) = .ok (l, rest) := by
  cases l <;> rfl

theorem relation_read (r : Relation) (rest : Lexemes) :
    Read.relation (.symbol r.symbol :: rest) = .ok (r, rest) := by
  cases r <;> rfl

theorem column_ref_read (c : ColumnRef) :
    ReadsBack Read.columnRef columnLexemes [.symbol .dot] c := by
  intro rest hrest
  obtain ⟨t?, a⟩ := c
  cases t? with
  | some t => rfl
  | none =>
    -- The name stands alone, unless a dot follows it.
    cases rest with
    | nil => rfl
    | cons l rest =>
      cases l with
      | symbol s =>
        cases s with
        | dot => exact absurd (List.mem_singleton_self _) (stops_cons.mp hrest)
        | _ => rfl
      | _ => rfl

theorem aggregate_read (a : Aggregate) (rest : Lexemes) :
    Read.aggregate (aggregateLexemes a ++ rest) = .ok (a, rest) := by
  cases a with
  | countAll => rfl
  | call f c => cases f <;> rfl

theorem select_item_read (x : SelectItem) :
    ReadsBack Read.selectItem itemLexemes [.symbol .dot] x := by
  intro rest hrest
  cases x with
  | column c =>
    have hcolumn := column_ref_read c hrest
    obtain ⟨_ | t, a⟩ := c <;>
      simp only [itemLexemes, columnLexemes, List.cons_append, List.nil_append,
        Read.selectItem] at hcolumn ⊢ <;>
      rw [hcolumn] <;> rfl
  | aggregate a =>
    have haggregate := aggregate_read a rest
    cases a <;>
      simp only [itemLexemes, aggregateLexemes, word, List.cons_append, List.nil_append,
        Read.selectItem] at haggregate ⊢ <;>
      rw [haggregate] <;> rfl

section

variable {α : Type} {item : Reader α} {write : α → Lexemes} {next : List Part}

theorem more_length (write : α → Lexemes) (xs : List α) :
    xs.length ≤ (moreLexemes write xs).length := by
  induction xs with
  | nil => simp
  | cons x xs ih =>
    have hcons : moreLexemes write (x :: xs) =
        .symbol .comma :: (write x ++ moreLexemes write xs) :=
      rfl
    rw [hcons]
    simp only [List.length_cons, List.length_append]
    omega

theorem more_stops (hcomma : .symbol .comma ∉ next) (xs : List α) {rest : Lexemes}
    (hrest : Stops next rest) : Stops next (moreLexemes write xs ++ rest) := by
  cases xs with
  | nil => exact hrest
  | cons x xs => exact stops_cons.mpr hcomma

/-- Items after commas are read back, with as much fuel as they have lexemes. -/
theorem more_items_read (hcomma : .symbol .comma ∉ next) {xs : List α}
    (hitem : ∀ x ∈ xs, ReadsBack item write next x) {rest : Lexemes}
    (hrest : Stops (.symbol .comma :: next) rest) {n : Nat} (hn : xs.length ≤ n) :
    Read.moreItems item n (moreLexemes write xs ++ rest) = .ok (xs, rest) := by
  induction xs generalizing n with
  | nil =>
    cases n with
    | zero => rfl
    | succ n =>
      rw [moreLexemes, List.flatMap_nil, List.nil_append, Read.moreItems]
      rintro _ ls - rfl
      exact stops_cons.mp hrest List.mem_cons_self
  | cons x xs ih =>
    obtain ⟨hx, hxs⟩ := List.forall_mem_cons.mp hitem
    have hstops : Stops next (moreLexemes write xs ++ rest) :=
      more_stops hcomma xs (hrest.mono fun p hp => List.mem_cons_of_mem _ hp)
    have hcons : moreLexemes write (x :: xs) ++ rest =
        .symbol .comma :: (write x ++ (moreLexemes write xs ++ rest)) := by
      simp [moreLexemes]
    cases n with
    | zero => cases hn
    | succ n =>
      have hmore := ih hxs (Nat.le_of_succ_le_succ hn)
      simp only [hcons, Read.moreItems, hx hstops, hmore, ok_bind]
      rfl

/-- Items after commas are read back with the fuel that is given to them. -/
theorem items_read (hcomma : .symbol .comma ∉ next) {xs : List α}
    (hitem : ∀ x ∈ xs, ReadsBack item write next x) {rest : Lexemes}
    (hrest : Stops (.symbol .comma :: next) rest) :
    Read.moreItems item (moreLexemes write xs ++ rest).length (moreLexemes write xs ++ rest) =
      .ok (xs, rest) := by
  refine more_items_read hcomma hitem hrest ?_
  have hlength := more_length write xs
  rw [List.length_append]
  omega

end

theorem select_list_read (l : SelectList) :
    ReadsBack Read.selectList selectLexemes [.symbol .comma, .symbol .dot] l := by
  intro rest hrest
  cases l with
  | all => rfl
  | items x xs =>
    have hdot : Stops [.symbol .dot] (moreLexemes itemLexemes xs ++ rest) :=
      more_stops (by decide) xs (hrest.mono (by simp))
    have hfirst := select_item_read x hdot
    have hmore := items_read (by decide) (fun y (_ : y ∈ xs) => select_item_read y) hrest
    have hread : Read.selectList (itemLexemes x ++ (moreLexemes itemLexemes xs ++ rest)) =
        Read.selectItem (itemLexemes x ++ (moreLexemes itemLexemes xs ++ rest)) >>= fun p =>
          Read.moreItems Read.selectItem p.2.length p.2 >>= fun r =>
            .ok (.items p.1 r.1, r.2) := by
      rcases x with ⟨_ | t, a⟩ | (_ | ⟨f, c⟩) <;> rfl
    rw [selectLexemes, List.append_assoc, hread, hfirst, ok_bind, hmore, ok_bind]

theorem operand_read (x : Operand) : ReadsBack Read.operand operandLexemes [.symbol .dot] x := by
  intro rest hrest
  cases x with
  | column c =>
    have hcolumn := column_ref_read c hrest
    obtain ⟨_ | t, a⟩ := c <;>
      simp only [operandLexemes, columnLexemes, List.cons_append, List.nil_append,
        Read.operand] at hcolumn ⊢ <;>
      rw [hcolumn] <;> rfl
  | literal l => cases l <;> rfl

/-- What may follow a statement or one of its clauses, but does not go on with it. -/
def statementNext : List Part :=
  [.symbol .comma, .symbol .dot, .keyword .andWord, .keyword .orWord, .keyword .join,
    .keyword .whereWord, .keyword .group, .keyword .having, .keyword .order, .keyword .limit]

/-- A column before a word or a relation. -/
theorem comparison_in (sub : Reader Query) (c : ColumnRef) (w : String) (ls : Lexemes) :
    Read.comparison sub (columnLexemes c ++ .keyword .inWord w :: ls) = Read.members sub c ls := by
  obtain ⟨_ | t, a⟩ := c <;> rfl

theorem comparison_relation (sub : Reader Query) (c : ColumnRef) (r : Relation) (ls : Lexemes) :
    Read.comparison sub (columnLexemes c ++ .symbol r.symbol :: ls) =
      Read.operand ls >>= fun p => .ok (.compare c r p.1, p.2) := by
  obtain ⟨_ | t, a⟩ := c <;> cases r <;> rfl

theorem comparison_aggregate (sub : Reader Query) (a : Aggregate) (ls : Lexemes) :
    Read.comparison sub (aggregateLexemes a ++ ls) =
      Read.relation ls >>= fun p => Read.literal p.2 >>= fun r =>
        .ok (.aggregate a p.1 r.1, r.2) := by
  rcases a with _ | ⟨f, c⟩
  · rfl
  · cases f <;> rfl

/-- Literals in parentheses. -/
theorem members_list (sub : Reader Query) (c : ColumnRef) (l : Sql.Literal) (ls : List Sql.Literal)
    (rest : Lexemes) :
    Read.members sub c (.symbol .lparen :: literalLexeme l ::
      (moreLexemes (fun l => [literalLexeme l]) ls ++ .symbol .rparen :: rest)) =
        .ok (.inList c l ls, rest) := by
  have hitem : ∀ y ∈ ls, ReadsBack Read.literal (fun l => [literalLexeme l]) [] y :=
    fun y _ _ _ => literal_read y _
  have hmore := items_read List.not_mem_nil hitem
    (stops_cons.mpr (by simp [lexemePart]) : Stops [.symbol .comma] (.symbol .rparen :: rest))
  have hread : ∀ more, Read.members sub c (.symbol .lparen :: literalLexeme l :: more) =
      Read.moreItems Read.literal more.length more >>= fun p =>
        Read.symbol .rparen p.2 >>= fun r => .ok (.inList c l p.1, r.2) := by
    intro more
    cases l <;> rfl
  rw [hread, hmore]
  rfl

theorem statement_select (q : Query) : ∃ ls, statementLexemes q = word .select :: ls := by
  obtain ⟨items, source, condition?, groupBy, having?, orderBy, limit?⟩ := q
  simp only [statementLexemes, List.cons_append]
  exact ⟨_, rfl⟩

/-- A statement in parentheses. -/
theorem members_query {sub : Reader Query} {q : Query} (c : ColumnRef)
    (hq : ReadsBack sub statementLexemes statementNext q) (rest : Lexemes) :
    Read.members sub c (.symbol .lparen :: (statementLexemes q ++ .symbol .rparen :: rest)) =
      .ok (.inQuery c q, rest) := by
  have hread : ∀ ls, Read.members sub c (.symbol .lparen :: word .select :: ls) =
      sub (word .select :: ls) >>= fun p =>
        Read.symbol .rparen p.2 >>= fun r => .ok (.inQuery c p.1, r.2) := fun _ => rfl
  have hquery := hq (stops_cons.mpr (by decide) : Stops statementNext (.symbol .rparen :: rest))
  obtain ⟨ls, hls⟩ := statement_select q
  rw [hls, List.cons_append] at hquery ⊢
  rw [hread, hquery]
  rfl

theorem identifier_read (a : String) : ReadsBack Read.identifier nameLexemes [] a :=
  fun _ _ => rfl

/-- Names after a first table. -/
theorem source_names (sub : Reader Query) (a : String) (ts : List String) {rest : Lexemes}
    (hrest : Stops [.symbol .comma, .keyword .join] rest) :
    Read.source sub (.identifier a :: (moreLexemes nameLexemes ts ++ rest)) =
      .ok (Read.tablesAfter (.table a) ts, rest) := by
  have hmore := items_read List.not_mem_nil (fun t (_ : t ∈ ts) => identifier_read t)
    (hrest.mono (by simp) : Stops [.symbol .comma] rest)
  have hjoin : Stops [.keyword .join] (moreLexemes nameLexemes ts ++ rest) :=
    more_stops (by decide) ts (hrest.mono (by simp))
  generalize moreLexemes nameLexemes ts ++ rest = ls at hmore hjoin ⊢
  have hread : Read.source sub (.identifier a :: ls) =
      Read.moreItems Read.identifier ls.length ls >>= fun p =>
        .ok (Read.tablesAfter (.table a) p.1, p.2) := by
    rcases ls with _ | ⟨k | _ | _ | _ | _, ls⟩ <;> try rfl
    cases k with
    | join => exact absurd (List.mem_singleton_self _) (stops_cons.mp hjoin)
    | _ => rfl
  rw [hread, hmore]
  rfl

section

variable {sub : Reader Query} {n : Nat} (hsub : ∀ q : Query, HasCombs q →
  (statementLexemes q).length < n → ReadsBack sub statementLexemes statementNext q)

include hsub

theorem comparison_read {c : Condition} (hc : NestedCombs c) (ht : isTerm c = true)
    (hn : (conditionLexemes c).length ≤ n) :
    ReadsBack (Read.comparison sub) conditionLexemes [.symbol .dot] c := by
  intro rest hrest
  cases c with
  | compare c r x =>
    simp only [conditionLexemes, List.append_assoc, List.cons_append, comparison_relation,
      operand_read x hrest, ok_bind]
  | aggregate a r l =>
    simp only [conditionLexemes, List.append_assoc, List.cons_append, List.nil_append,
      comparison_aggregate, relation_read, literal_read, ok_bind]
  | between c low high =>
    rcases low with m | s <;> rcases high with m' | s' <;> rw [conditionLexemes] <;> rfl
  | inList c l ls =>
    simp only [conditionLexemes, List.append_assoc, List.cons_append, List.nil_append, word,
      comparison_in, members_list]
  | inQuery c q =>
    have hshort : (statementLexemes q).length < n := by
      simp only [conditionLexemes, List.length_append, List.length_cons, List.length_nil] at hn
      omega
    have hquery := hsub q (by simpa [NestedCombs] using hc) hshort
    simp only [conditionLexemes, List.append_assoc, List.cons_append, List.nil_append, word,
      comparison_in, members_query c hquery]
  | connect => cases ht

/-- To read the first comparison of a condition and to go on is to go on after all of it. -/
theorem connected_read {c : Condition} (hc : IsComb c) (hnested : NestedCombs c)
    (hn : (conditionLexemes c).length ≤ n) {rest : Lexemes} (hrest : Stops [.symbol .dot] rest) :
    ∃ d ls links, Read.comparison sub (conditionLexemes c ++ rest) = .ok (d, ls) ∧
      links + rest.length ≤ ls.length ∧ ∀ m, Read.connected (Read.comparison sub) (m + links) d ls =
        Read.connected (Read.comparison sub) m c rest := by
  induction hc generalizing rest with
  | @term c ht =>
    exact ⟨c, rest, 0, comparison_read hsub hnested ht hn hrest, (Nat.zero_add _).le, fun _ => rfl⟩
  | @connect l r w _ _ hr ih =>
    obtain ⟨hl, hright⟩ : NestedCombs l ∧ NestedCombs r := by simpa [NestedCombs] using hnested
    simp only [conditionLexemes, List.length_append, List.length_cons] at hn
    have hword : Stops [.symbol .dot]
        (.keyword (connectiveOf w) w :: (conditionLexemes r ++ rest)) :=
      stops_cons.mpr (by simp [lexemePart])
    obtain ⟨d, ls, links, hread, hlength, hgo⟩ := ih hl (by omega) hword
    refine ⟨d, ls, links + 1, ?_, ?_, fun m => ?_⟩
    · simpa only [conditionLexemes, List.append_assoc, List.cons_append] using hread
    · simp only [List.length_cons, List.length_append] at hlength
      omega
    · have hterm := comparison_read hsub hright hr (by omega) hrest
      rw [Nat.add_comm links 1, ← Nat.add_assoc, hgo]
      unfold connectiveOf
      split <;> simp only [Read.connected, hterm, ok_bind]

theorem condition_read {c : Condition} (hc : IsComb c ∧ NestedCombs c)
    (hn : (conditionLexemes c).length ≤ n) :
    ReadsBack (Read.condition sub) conditionLexemes
      [.symbol .dot, .keyword .andWord, .keyword .orWord] c := by
  intro rest hrest
  obtain ⟨d, ls, links, hread, hlength, hgo⟩ :=
    connected_read hsub hc.1 hc.2 hn (hrest.mono (by simp : [Part.symbol .dot] ⊆ _))
  have hdone : ∀ m, Read.connected (Read.comparison sub) m c rest = .ok (c, rest) := by
    intro m
    cases m with
    | zero => rfl
    | succ m =>
      rw [Read.connected]
      · rintro _ w ls - rfl
        exact stops_cons.mp hrest (by simp [lexemePart])
      · rintro _ w ls - rfl
        exact stops_cons.mp hrest (by simp [lexemePart])
  have hfuel : ls.length = (ls.length - links) + links := by omega
  simp only [Read.condition, hread, ok_bind]
  rw [hfuel, hgo, hdone]

theorem source_read {s : Source Condition} (hs : SourceComb s)
    (hn : (sourceLexemes s).length ≤ n) :
    ReadsBack (Read.source sub) sourceLexemes
      [.symbol .comma, .symbol .dot, .keyword .andWord, .keyword .orWord, .keyword .join] s := by
  intro rest hrest
  have hnames : Stops [.symbol .comma, .keyword .join] rest := hrest.mono (by simp)
  cases s with
  | table a =>
    rw [sourceLexemes]
    exact source_names sub a [] hnames
  | join a b on =>
    simp only [sourceLexemes, List.length_append, List.length_cons] at hn
    have hon := condition_read hsub (by simpa [SourceComb] using hs) (by omega)
      (hrest.mono (by simp) : Stops [.symbol .dot, .keyword .andWord, .keyword .orWord] rest)
    have hnone : Read.moreItems Read.identifier rest.length rest = .ok ([], rest) :=
      @items_read String Read.identifier nameLexemes [] List.not_mem_nil [] (by simp) rest
        (hrest.mono (by simp))
    have hread : ∀ ls, Read.source sub (.identifier a :: word .join :: .identifier b :: word .on ::
        ls) = Read.condition sub ls >>= fun p =>
          Read.moreItems Read.identifier p.2.length p.2 >>= fun r =>
            .ok (Read.tablesAfter (.join a b p.1) r.1, r.2) := by
      intro ls
      simp only [Read.source, Read.identifier, word, ok_bind, Read.keyword, ↓reduceIte]
      cases Read.condition sub ls <;> rfl
    simp only [sourceLexemes, List.cons_append, List.nil_append, hread, hon, hnone, ok_bind]
    rfl
  | tables a b more =>
    rw [sourceLexemes]
    exact source_names sub a (b :: more) hnames

end

/-- A clause that may be left out. -/
theorem optional_read {α : Type} {k : Keyword} {body : Reader α} {write : α → Lexemes}
    {next : List Part} {x : α} (h : ReadsBack body write next x) {rest : Lexemes}
    (hrest : Stops next rest) :
    Read.optional k body (word k :: (write x ++ rest)) = .ok (some x, rest) := by
  simp only [Read.optional, word, ↓reduceIte, h hrest, ok_bind]
  rfl

theorem optional_none {α : Type} {k : Keyword} (body : Reader α) {rest : Lexemes}
    (hrest : Stops [.keyword k] rest) : Read.optional k body rest = .ok (none, rest) := by
  rcases rest with _ | ⟨j | _ | _ | _ | _, rest⟩ <;> try rfl
  have hj : j ≠ k := by simpa [lexemePart] using stops_cons.mp hrest
  simp only [Read.optional, if_neg hj]

theorem clause_read {sub : Reader Query} {n : Nat} (hsub : ∀ q : Query, HasCombs q →
    (statementLexemes q).length < n → ReadsBack sub statementLexemes statementNext q)
    (k : Keyword) {c? : Option Condition} (hc : ClauseComb c?)
    (hn : (clauseLexemes k c?).length ≤ n) {rest : Lexemes}
    (hrest : Stops [.symbol .dot, .keyword .andWord, .keyword .orWord, .keyword k] rest) :
    Read.optional k (Read.condition sub) (clauseLexemes k c? ++ rest) = .ok (c?, rest) := by
  cases c? with
  | none =>
    rw [clauseLexemes]
    exact optional_none _ (hrest.mono (by simp))
  | some c =>
    simp only [clauseLexemes, List.length_cons] at hn
    have hcond := condition_read hsub (by simpa [ClauseComb] using hc) (by omega)
    rw [clauseLexemes, List.cons_append]
    exact optional_read hcond (hrest.mono (by simp))

theorem clause_stops {k : Keyword} {ps : List Part} (hk : .keyword k ∉ ps) (c? : Option Condition)
    {rest : Lexemes} (hrest : Stops ps rest) : Stops ps (clauseLexemes k c? ++ rest) := by
  cases c? with
  | none => rwa [clauseLexemes]
  | some c =>
    rw [clauseLexemes]
    exact stops_cons.mpr hk

section

variable {α : Type} {k : Keyword} {write : α → Lexemes}

theorem by_stops {ps : List Part} (hk : .keyword k ∉ ps) (xs : List α) {rest : Lexemes}
    (hrest : Stops ps rest) : Stops ps (byLexemes k write xs ++ rest) := by
  cases xs with
  | nil => exact hrest
  | cons x xs => exact stops_cons.mpr hk

theorem by_read {body : Reader (List α)} {item : Reader α} {next : List Part}
    (hbody : ∀ ls, body (word .byWord :: ls) = item ls >>= fun p =>
      Read.moreItems item p.2.length p.2 >>= fun r => .ok (p.1 :: r.1, r.2))
    (hcomma : .symbol .comma ∉ next) (hitem : ∀ x, ReadsBack item write next x) (xs : List α)
    {rest : Lexemes} (hrest : Stops (.keyword k :: .symbol .comma :: next) rest) :
    ∃ xs?, Read.optional k body (byLexemes k write xs ++ rest) = .ok (xs?, rest) ∧
      xs?.getD [] = xs := by
  cases xs with
  | nil => exact ⟨none, optional_none body (hrest.mono (by simp)), rfl⟩
  | cons x xs =>
    have hnext : Stops next rest :=
      hrest.mono fun p hp => List.mem_cons_of_mem _ (List.mem_cons_of_mem _ hp)
    have hmore := items_read hcomma (fun y (_ : y ∈ xs) => hitem y)
      (hrest.mono fun p hp => List.mem_cons_of_mem _ hp : Stops (.symbol .comma :: next) rest)
    have hlist : body (word .byWord :: (write x ++ (moreLexemes write xs ++ rest))) =
        .ok (x :: xs, rest) := by
      rw [hbody, hitem x (more_stops hcomma xs hnext), ok_bind, hmore, ok_bind]
    refine ⟨some (x :: xs), ?_, rfl⟩
    simp only [byLexemes, List.cons_append, List.append_assoc, Read.optional, word,
      ↓reduceIte] at hlist ⊢
    rw [hlist]
    rfl

end

theorem order_item_read (o : OrderItem) : ReadsBack Read.orderItem orderLexemes [] o := by
  intro rest _
  obtain ⟨column, direction⟩ := o
  unfold orderLexemes
  split
  · rename_i hcount
    obtain rfl : column = Aggregate.countAll.alias := hcount
    cases direction <;> rfl
  · cases direction <;> rfl

theorem limit_read (limit? : Option Nat) {rest : Lexemes} (hrest : Stops [.keyword .limit] rest) :
    Read.optional .limit Read.number (limitLexemes limit? ++ rest) = .ok (limit?, rest) := by
  cases limit? with
  | none => exact optional_none _ hrest
  | some n => rfl

theorem limit_stops {ps : List Part} (hk : .keyword .limit ∉ ps) (limit? : Option Nat)
    {rest : Lexemes} (hrest : Stops ps rest) : Stops ps (limitLexemes limit? ++ rest) := by
  cases limit? with
  | none => exact hrest
  | some n => exact stops_cons.mpr hk

/-- A statement is read back if those in it are. -/
theorem statement_read {sub : Reader Query} {n : Nat} (hsub : ∀ q : Query, HasCombs q →
    (statementLexemes q).length < n → ReadsBack sub statementLexemes statementNext q)
    {q : Query} (hq : HasCombs q) (hn : (statementLexemes q).length ≤ n) :
    ReadsBack (Read.statement sub) statementLexemes statementNext q := by
  intro rest hrest
  obtain ⟨items, source, condition?, groupBy, having?, orderBy, limit?⟩ := q
  obtain ⟨hsource, hcondition, hhaving⟩ :
      SourceComb source ∧ ClauseComb condition? ∧ ClauseComb having? := by
    simpa [HasCombs] using hq
  simp only [statementLexemes, List.length_append, List.length_cons] at hn
  -- Each clause ends where one of those after it, or what follows the statement, starts.
  have hlimits : ∀ {ps : List Part}, ps ⊆ statementNext → (∀ k ∈ [.limit], .keyword k ∉ ps) →
      Stops ps (limitLexemes limit? ++ rest) :=
    fun hps hks => limit_stops (hks _ (by simp)) limit? (hrest.mono hps)
  have horders : ∀ {ps : List Part}, ps ⊆ statementNext →
      (∀ k ∈ [.order, .limit], .keyword k ∉ ps) →
      Stops ps (byLexemes .order orderLexemes orderBy ++ (limitLexemes limit? ++ rest)) :=
    fun hps hks => by_stops (hks _ (by simp)) orderBy (hlimits hps fun k hk => hks k (by simp_all))
  have hhavings : ∀ {ps : List Part}, ps ⊆ statementNext →
      (∀ k ∈ [.having, .order, .limit], .keyword k ∉ ps) →
      Stops ps (clauseLexemes .having having? ++
        (byLexemes .order orderLexemes orderBy ++ (limitLexemes limit? ++ rest))) :=
    fun hps hks => clause_stops (hks _ (by simp)) having?
      (horders hps fun k hk => hks k (by simp_all))
  have hgroups : ∀ {ps : List Part}, ps ⊆ statementNext →
      (∀ k ∈ [.group, .having, .order, .limit], .keyword k ∉ ps) →
      Stops ps (byLexemes .group nameLexemes groupBy ++ (clauseLexemes .having having? ++
        (byLexemes .order orderLexemes orderBy ++ (limitLexemes limit? ++ rest)))) :=
    fun hps hks => by_stops (hks _ (by simp)) groupBy (hhavings hps fun k hk => hks k (by simp_all))
  have hselect := fun ls => select_list_read items
    (stops_cons.mpr (by decide) : Stops _ (word .fromWord :: ls))
  have hfrom := source_read hsub hsource (by omega)
    (@clause_stops .whereWord _ (by decide) condition? _ (hgroups (by decide) (by decide)))
  have hwhere := clause_read hsub .whereWord hcondition (by omega)
    (hgroups (by decide) (by decide))
  obtain ⟨groups?, hgroup, hgroupBy⟩ := @by_read _ .group _ Read.columnNames _ _ (fun _ => rfl)
    List.not_mem_nil identifier_read groupBy _ (hhavings (by decide) (by decide))
  have hhaving := clause_read hsub .having hhaving (by omega) (horders (by decide) (by decide))
  obtain ⟨orders?, horder, horderBy⟩ := @by_read _ .order _ Read.orderItems _ _ (fun _ => rfl)
    List.not_mem_nil order_item_read orderBy _ (hlimits (by decide) (by decide))
  have hlimit := limit_read limit? (hrest.mono (by decide))
  have hread : ∀ k ls, Read.keyword k (word k :: ls) = .ok ((), ls) := by
    intro k ls
    simp [Read.keyword, word]
  simp only [statementLexemes, List.cons_append, List.append_assoc, Read.statement, hread, hselect,
    hfrom, hwhere, hgroup, hhaving, horder, hlimit, hgroupBy, horderBy, ok_bind]
  rfl

/-- Statements of any depth are read back, with as much fuel as they have lexemes. -/
theorem nested_read {n : Nat} {q : Query} (hq : HasCombs q) (hn : (statementLexemes q).length ≤ n) :
    ReadsBack (Read.nested n) statementLexemes statementNext q := by
  induction n generalizing q with
  | zero =>
    obtain ⟨ls, hls⟩ := statement_select q
    rw [hls] at hn
    cases hn
  | succ n ih =>
    exact statement_read (fun q' hq' hlt => ih hq' (Nat.le_of_lt_succ hlt)) hq hn

def queryLexemes (q : Query) : Lexemes := statementLexemes q ++ [.symbol .semicolon]

/-- The lexemes of a statement are read as that statement. -/
theorem query_read {q : Query} (hq : HasCombs q) : Query.ofLexemes (queryLexemes q) = .ok q := by
  have hlength : (statementLexemes q).length ≤ (queryLexemes q).length + 1 := by
    rw [queryLexemes, List.length_append]
    omega
  have hread := nested_read hq hlength
    (stops_cons.mpr (by decide) : Stops statementNext [.symbol .semicolon])
  rw [Query.ofLexemes, queryLexemes] at *
  rw [hread]
  rfl

/-- The lexemes of a text are those of its characters. In proofs by evaluation the characters are
given, since it takes long to get them from the text. -/
theorem lexemes_scanned {cs : List Char} {line : Nat} {ls : Lexemes}
    (h : ((Cursor.start cs line).scan (cs.length + 1)).error? = none ∧
      ((Cursor.start cs line).scan (cs.length + 1)).tokens.map (·.lexeme) = ls) :
    (scan (String.ofList cs) line).error? = none ∧
      (scan (String.ofList cs) line).tokens.map (·.lexeme) = ls := by
  rwa [scan, String.toList_ofList]

theorem lexemes_scanned_append {cs ds : List Char} {line : Nat} {ls : Lexemes}
    (h : ((Cursor.start (cs ++ ds) line).scan ((cs ++ ds).length + 1)).error? = none ∧
      ((Cursor.start (cs ++ ds) line).scan ((cs ++ ds).length + 1)).tokens.map (·.lexeme) = ls) :
    (scan (String.ofList cs ++ String.ofList ds) line).error? = none ∧
      (scan (String.ofList cs ++ String.ofList ds) line).tokens.map (·.lexeme) = ls := by
  rw [← String.ofList_append]
  exact lexemes_scanned h

theorem parse_lexemes {text : String} {line : Nat} {ls : Lexemes} {q : Query}
    (hscan : (scan text line).error? = none ∧ (scan text line).tokens.map (·.lexeme) = ls)
    (hread : Query.ofLexemes ls = .ok q) : Sql.parse text line = .ok q := by
  obtain ⟨herror, hlexemes⟩ := hscan
  simp only [Sql.parse, Scan.parse, hlexemes, hread, herror]

/-- Characters that are scanned as the lexemes of a statement are parsed as that statement. -/
theorem parse_spelled {cs : List Char} {line : Nat} {q : Query}
    (hscan : ((Cursor.start cs line).scan (cs.length + 1)).error? = none ∧
      ((Cursor.start cs line).scan (cs.length + 1)).tokens.map (·.lexeme) = queryLexemes q)
    (hread : Query.ofLexemes (queryLexemes q) = .ok q) :
    Sql.parse (String.ofList cs) line = .ok q :=
  parse_lexemes (lexemes_scanned hscan) hread

end DocQuery.Proofs
