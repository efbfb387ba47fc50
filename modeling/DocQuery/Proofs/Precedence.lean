import DocQuery.Proofs.ExactStatements
import DocQuery.Proofs.Lexemes

namespace DocQuery.Proofs

open Sql

/-- Comparisons with connectives between them, as they are written. -/
structure Sequence where
  first : Derivation .comparison
  rest : List ((Σ k, Derivation (.keyword (connectives.keyword k))) × Derivation .comparison)

namespace Sequence

def yield (s : Sequence) : Lexemes :=
  s.first.yield ++ s.rest.flatMap fun u => u.1.2.yield ++ u.2.yield

/-- The comparisons after the first, each with the connective before it. -/
def links (s : Sequence) : List (Connective × Value) := s.rest.map fun u => (u.1.1, u.2.value)

end Sequence

/-- The lexemes of the condition of a statement. -/
def Derivation.conditionYield? : Derivation .query → Option Lexemes
  | .query _ _ _ _ (.clause .condition _ c) _ _ _ _ _ => some c.yield
  | _ => none

/-- The statement of a text has the sequence as its condition. -/
def WrittenAs (s : Scan) (t : Sequence) : Prop :=
  ∃ d : Derivation .query,
    d.yield = s.tokens.map (·.lexeme) ∧ d.conditionYield? = some t.yield

/-- Whether the tree of a condition is true, given which of its comparisons are. -/
def nodeTrue (leaf : Value → Bool) : Value → Bool
  | .logical l (.text w) r =>
    if Text.upper w = "AND" then nodeTrue leaf l && nodeTrue leaf r
    else nodeTrue leaf l || nodeTrue leaf r
  | c => leaf c

section

variable {α : Type}

/-- The first run of AND in a sequence, and those after it, with OR before each. -/
def andRuns (x : α) : List (Connective × α) → List α × List (List α)
  | [] => ([x], [])
  | (.both, y) :: rest => (x :: (andRuns y rest).1, (andRuns y rest).2)
  | (.either, y) :: rest => ([x], (andRuns y rest).1 :: (andRuns y rest).2)

/-- A sequence is true if all comparisons of one of its runs are. -/
def readsTrue (leaf : α → Bool) (x : α) (rest : List (Connective × α)) : Bool :=
  ((andRuns x rest).1 :: (andRuns x rest).2).any (·.all leaf)

/-- A beginning of a sequence is true and OR follows it; further on AND joins a comparison that is
false, and none after that is both true and joined by OR. -/
def Overruled (leaf : α → Bool) (x : α) (rest : List (Connective × α)) : Prop :=
  ∃ before y between z after,
    rest = before ++ (.either, y) :: between ++ (.both, z) :: after ∧
      readsTrue leaf x before = true ∧ leaf z = false ∧
      ∀ u ∈ after, u.1 = .either → leaf u.2 = false

variable (leaf : α → Bool)

/-- The reading of a sequence whose first comparison is `b`. -/
def readsFrom (b : Bool) : List (Connective × α) → Bool
  | [] => b
  | (.both, y) :: rest => readsFrom (b && leaf y) rest
  | (.either, y) :: rest => b || readsFrom (leaf y) rest

/-- A sequence joined from left to right, with `b` as its first comparison. -/
def joinsFrom (b : Bool) : List (Connective × α) → Bool
  | [] => b
  | (.both, y) :: rest => joinsFrom (b && leaf y) rest
  | (.either, y) :: rest => joinsFrom (b || leaf y) rest

theorem runs_from (b : Bool) (x : α) (rest : List (Connective × α)) :
    (b && (andRuns x rest).1.all leaf || (andRuns x rest).2.any (·.all leaf)) =
      readsFrom leaf (b && leaf x) rest := by
  induction rest generalizing b x with
  | nil => simp [andRuns, readsFrom]
  | cons u rest ih =>
    obtain ⟨_ | _, y⟩ := u
    · rw [readsFrom, ← ih]
      simp [andRuns, Bool.and_assoc]
    · have hrest := ih true y
      rw [Bool.true_and, Bool.true_and] at hrest
      rw [readsFrom, ← hrest]
      simp [andRuns]

theorem reads_from_first (x : α) (rest : List (Connective × α)) :
    readsTrue leaf x rest = readsFrom leaf (leaf x) rest := by
  have h := runs_from leaf true x rest
  rw [Bool.true_and, Bool.true_and] at h
  rw [readsTrue, List.any_cons, h]

variable {leaf}

/-- `e` stands for what is true before the last OR. -/
theorem joins_reads {e b : Bool} {rest : List (Connective × α)}
    (h : joinsFrom leaf (e || b) rest = true) : (e || readsFrom leaf b rest) = true := by
  induction rest generalizing e b with
  | nil => exact h
  | cons u rest ih =>
    obtain ⟨_ | _, y⟩ := u
    · rw [joinsFrom, Bool.and_or_distrib_right] at h
      have hrest := ih h
      rw [readsFrom]
      cases e with
      | true => rfl
      | false => exact hrest
    · have hrest := ih h
      rwa [Bool.or_assoc] at hrest

theorem joins_append (b : Bool) (rest more : List (Connective × α)) :
    joinsFrom leaf b (rest ++ more) = joinsFrom leaf (joinsFrom leaf b rest) more := by
  induction rest generalizing b with
  | nil => rfl
  | cons u rest ih =>
    obtain ⟨_ | _, y⟩ := u <;> exact ih _

theorem reads_false {rest : List (Connective × α)}
    (h : ∀ u ∈ rest, u.1 = .either → leaf u.2 = false) : readsFrom leaf false rest = false := by
  induction rest with
  | nil => rfl
  | cons u rest ih =>
    have hrest := ih fun v hv => h v (List.mem_cons_of_mem _ hv)
    obtain ⟨_ | _, y⟩ := u
    · exact hrest
    · have hy : leaf y = false := h _ List.mem_cons_self rfl
      rw [readsFrom, hy]
      exact hrest

theorem joins_false {rest : List (Connective × α)}
    (h : ∀ u ∈ rest, u.1 = .either → leaf u.2 = false) : joinsFrom leaf false rest = false := by
  cases hj : joinsFrom leaf false rest with
  | false => rfl
  | true =>
    have hreads := joins_reads (e := false) hj
    rw [Bool.false_or, reads_false h] at hreads
    cases hreads

/-- Joined from left to right, a sequence is false by the last comparison that AND makes count. -/
theorem joins_false_from {b : Bool} {rest : List (Connective × α)}
    (h : joinsFrom leaf b rest = false) :
    (b = false ∧ ∀ u ∈ rest, u.1 = .either → leaf u.2 = false) ∨
      ∃ before z after, rest = before ++ (.both, z) :: after ∧ leaf z = false ∧
        ∀ u ∈ after, u.1 = .either → leaf u.2 = false := by
  induction rest generalizing b with
  | nil => exact .inl ⟨h, by simp⟩
  | cons u rest ih =>
    obtain ⟨k, y⟩ := u
    have hlater : (∃ before z after, rest = before ++ (.both, z) :: after ∧ leaf z = false ∧
        ∀ u ∈ after, u.1 = .either → leaf u.2 = false) →
        ∃ before z after, (k, y) :: rest = before ++ (.both, z) :: after ∧ leaf z = false ∧
          ∀ u ∈ after, u.1 = .either → leaf u.2 = false := by
      rintro ⟨before, z, after, rfl, hz⟩
      exact ⟨(k, y) :: before, z, after, rfl, hz⟩
    cases k with
    | both =>
      rcases ih h with ⟨hb, hrest⟩ | hmore
      · rcases Bool.and_eq_false_iff.mp hb with hb | hy
        · refine .inl ⟨hb, ?_⟩
          simpa using hrest
        · exact .inr ⟨[], y, rest, rfl, hy, hrest⟩
      · exact .inr (hlater hmore)
    | either =>
      rcases ih h with ⟨hb, hrest⟩ | hmore
      · obtain ⟨hb, hy⟩ := Bool.or_eq_false_iff.mp hb
        refine .inl ⟨hb, ?_⟩
        simpa [hy] using hrest
      · exact .inr (hlater hmore)

/-- A run that is true, in spite of a false comparison joined by AND, ends before an OR. -/
theorem reads_before {b : Bool} {before after : List (Connective × α)} {z : α}
    (h : readsFrom leaf b (before ++ (.both, z) :: after) = true) (hz : leaf z = false)
    (hafter : ∀ u ∈ after, u.1 = .either → leaf u.2 = false) :
    ∃ start y between, before = start ++ (.either, y) :: between ∧
      readsFrom leaf b start = true := by
  induction before generalizing b with
  | nil =>
    rw [List.nil_append, readsFrom, hz, Bool.and_false, reads_false hafter] at h
    cases h
  | cons u before ih =>
    obtain ⟨_ | _, x⟩ := u
    · obtain ⟨start, y, between, rfl, hstart⟩ := ih h
      exact ⟨(.both, x) :: start, y, between, rfl, hstart⟩
    · rw [List.cons_append, readsFrom, Bool.or_eq_true] at h
      rcases h with hb | hrest
      · exact ⟨[], x, before, rfl, hb⟩
      · obtain ⟨start, y, between, rfl, hstart⟩ := ih hrest
        refine ⟨(.either, x) :: start, y, between, rfl, ?_⟩
        rw [readsFrom, hstart, Bool.or_true]

theorem reads_more {b : Bool} {start rest : List (Connective × α)} {y : α}
    (h : readsFrom leaf b start = true) :
    readsFrom leaf b (start ++ (.either, y) :: rest) = true := by
  induction start generalizing b with
  | nil =>
    rw [List.nil_append, readsFrom, show b = true from h, Bool.true_or]
  | cons u start ih =>
    obtain ⟨_ | _, x⟩ := u
    · exact ih h
    · rw [readsFrom, Bool.or_eq_true] at h
      rw [List.cons_append, readsFrom, Bool.or_eq_true]
      exact h.imp_right ih

/-- The two readings of a sequence differ exactly where it is overruled. -/
theorem joins_eq_reads (x : α) (rest : List (Connective × α)) :
    joinsFrom leaf (leaf x) rest = readsTrue leaf x rest ↔ ¬ Overruled leaf x rest := by
  rw [reads_from_first]
  constructor
  · rintro heq ⟨before, y, between, z, after, rfl, hbefore, hz, hafter⟩
    have hreads : readsFrom leaf (leaf x) (before ++ (.either, y) :: between ++
        (.both, z) :: after) = true := by
      rw [List.append_assoc]
      exact reads_more (reads_from_first leaf x before ▸ hbefore)
    rw [hreads, joins_append, joinsFrom, hz, Bool.and_false, joins_false hafter] at heq
    cases heq
  · intro hnot
    cases hj : joinsFrom leaf (leaf x) rest with
    | true => exact (joins_reads (e := false) hj).symm
    | false =>
      cases hr : readsFrom leaf (leaf x) rest with
      | false => rfl
      | true =>
        rcases joins_false_from hj with ⟨hx, hrest⟩ | ⟨before, z, after, rfl, hz, hafter⟩
        · rw [hx, reads_false hrest] at hr
          cases hr
        · obtain ⟨start, y, between, rfl, hstart⟩ := reads_before hr hz hafter
          exact absurd ⟨start, y, between, z, after, rfl,
            (reads_from_first leaf x start).trans hstart, hz, hafter⟩ hnot

end

theorem comparison_node_true (leaf : Value → Bool) (d : Derivation .comparison) :
    nodeTrue leaf d.value = leaf d.value := by
  cases d <;> rfl

/-- The derivation of a sequence, joined from left to right. -/
def Sequence.derivation (s : Sequence) : Derivation .condition :=
  s.rest.foldl connectOf (.term (.comparison s.first))

theorem sequence_yield (s : Sequence) : s.derivation.yield = s.yield := by
  have hstep : ∀ d u, conditionPhrase.yield (connectOf d u) =
      conditionPhrase.yield d ++ ((wordsPhrase connectives).pair comparisonPhrase).yield u := by
    rintro d ⟨⟨_ | _, w⟩, c⟩ <;> rfl
  exact @yield_folded _ _ ((wordsPhrase connectives).pair comparisonPhrase) conditionPhrase
    connectOf hstep (.term (.comparison s.first)) s.rest

theorem connected_node_true (leaf : Value → Bool)
    {us : List ((Σ k, Derivation (.keyword (connectives.keyword k))) × Derivation .comparison)}
    (hs : ∀ u ∈ us, ∀ l ∈ u.1.2.yield, Spelled l) (d : Derivation .condition) :
    nodeTrue leaf (us.foldl connectOf d).value =
      joinsFrom leaf (nodeTrue leaf d.value) (us.map fun u => (u.1.1, u.2.value)) := by
  induction us generalizing d with
  | nil => rfl
  | cons u us ih =>
    rw [List.foldl_cons, ih fun v hv => hs v (List.mem_cons_of_mem _ hv), List.map_cons]
    have hspelled := hs u List.mem_cons_self
    obtain ⟨⟨_ | _, w⟩, c⟩ := u
    · cases w with
      | keyword _ w =>
        have hw : Text.upper w = "AND" := upper_spelled (hspelled _ List.mem_cons_self)
        have hvalue : (connectOf d (⟨.both, .keyword _ w⟩, c)).value =
          .logical d.value (.text w) c.value := rfl
        rw [joinsFrom, ← comparison_node_true leaf c, hvalue, nodeTrue, if_pos hw]
    · cases w with
      | keyword _ w =>
        have hw : Text.upper w = "OR" := upper_spelled (hspelled _ List.mem_cons_self)
        have hvalue : (connectOf d (⟨.either, .keyword _ w⟩, c)).value =
          .logical d.value (.text w) c.value := rfl
        rw [joinsFrom, ← comparison_node_true leaf c, hvalue, nodeTrue, hw, if_neg (by decide)]

theorem sequence_node_true (leaf : Value → Bool) (s : Sequence)
    (hs : ∀ l ∈ s.yield, Spelled l) :
    nodeTrue leaf s.derivation.value = joinsFrom leaf (leaf s.first.value) s.links := by
  have hrest : ∀ u ∈ s.rest, ∀ l ∈ u.1.2.yield, Spelled l := by
    intro u hu l hl
    exact hs l (List.mem_append_right _
      (List.mem_flatMap.mpr ⟨u, hu, List.mem_append_left _ hl⟩))
  rw [Sequence.derivation, connected_node_true leaf hrest]
  exact congrArg (joinsFrom leaf · _) (comparison_node_true leaf s.first)

theorem parse_read {text : String} {line : Nat} {q : Query} (h : Sql.parse text line = .ok q) :
    Query.ofLexemes ((scan text line).tokens.map (·.lexeme)) = .ok q := by
  unfold Sql.parse Scan.parse at h
  split at h
  · rename_i q' hread
    split at h
    · cases h
    · cases h
      exact hread
  · split at h <;> cases h

theorem select_value_condition {columns tables condition groupBy having orderBy limit : Value}
    {q : Query}
    (h : selectValue columns tables condition groupBy having orderBy limit = q.toValue) :
    optionalCondition q.condition? = condition := by
  cases q
  unfold selectValue at h
  exact (congrArg SelectOf.condition (Value.select.inj h)).symm

theorem condition_value_ne (d : Derivation .condition) : d.value ≠ .null := by
  cases d with
  | term t =>
    cases t with
    | comparison c => cases c <;> nofun
  | both => nofun
  | either => nofun

theorem condition_unique {d e : Derivation .condition} (h : d.yield = e.yield) : d = e :=
  (condition_exact (nested_exact d.yield.length)).unique le_rfl h

/-- The tree of a condition comes from the sequence that is written. -/
theorem written_tree {text : String} {line : Nat} {q : Query} {s : Sequence}
    (hparse : Sql.parse text line = .ok q) (hs : WrittenAs (scan text line) s) :
    (∀ l ∈ s.yield, Spelled l) ∧
      ∃ c, q.condition? = some c ∧ c.toValue = s.derivation.value := by
  obtain ⟨d, hd, hcondition⟩ := hs
  obtain ⟨e, he, hvalue⟩ := of_lexemes_sound (scan_spelled text line) (parse_read hparse)
  obtain rfl : d = e := derivation_unique (hd.trans he.symm)
  have hspelled : ∀ l ∈ d.yield, Spelled l := hd ▸ scan_spelled text line
  cases d with
  | query a b c t w g h o n z =>
    cases w with
    | noClause => cases hcondition
    | clause _ k w =>
      have hw : w.yield = s.yield := Option.some.inj hcondition
      obtain rfl : w = s.derivation := condition_unique (hw.trans (sequence_yield s).symm)
      refine ⟨fun l hl => hspelled l ?_, ?_⟩
      · rw [← hw] at hl
        have hclause : l ∈ k.yield ++ s.derivation.yield := List.mem_append_right _ hl
        exact List.mem_append_right _ (List.mem_append_right _ (List.mem_append_right _
          (List.mem_append_right _ (List.mem_append_left _ hclause))))
      · have htree : optionalCondition q.condition? = s.derivation.value :=
          select_value_condition hvalue
        cases hc : q.condition? with
        | some c =>
          rw [hc] at htree
          exact ⟨c, rfl, htree⟩
        | none =>
          rw [hc] at htree
          exact absurd htree.symm (condition_value_ne _)

/-- The tree of a condition is read by the rule that AND joins before OR exactly where no true
beginning is overruled. -/
theorem precedence_exact {text : String} {line : Nat} {q : Query} {s : Sequence}
    (hparse : Sql.parse text line = .ok q) (hs : WrittenAs (scan text line) s)
    (leaf : Value → Bool) :
    ∃ c, q.condition? = some c ∧
      (nodeTrue leaf c.toValue = readsTrue leaf s.first.value s.links ↔
        ¬ Overruled leaf s.first.value s.links) := by
  obtain ⟨hspelled, c, hc, htree⟩ := written_tree hparse hs
  refine ⟨c, hc, ?_⟩
  rw [htree, sequence_node_true leaf s hspelled]
  exact joins_eq_reads _ _

def mixedText : String := "SELECT * FROM t WHERE a=1 OR b=2 AND c=3;"

def equalTo (column : String) (n : Nat) : Derivation .comparison :=
  .compareLiteral (.columnRef (.identifier column)) (.operator .eq (.symbol _))
    (.numberLiteral (.number n))

def mixedSequence : Sequence where
  first := equalTo "a" 1
  rest := [(⟨.either, .keyword _ "OR"⟩, equalTo "b" 2), (⟨.both, .keyword _ "AND"⟩, equalTo "c" 3)]

def mixedCondition : Condition :=
  .connect (.connect (.compare ⟨none, "a"⟩ .eq (.literal (.number 1))) "OR"
    (.compare ⟨none, "b"⟩ .eq (.literal (.number 2)))) "AND"
    (.compare ⟨none, "c"⟩ .eq (.literal (.number 3)))

def mixedQuery : Query := ⟨.all, .table "t", some mixedCondition, [], none, [], none⟩

theorem mixed_scanned : (scan mixedText 1).error? = none ∧
    (scan mixedText 1).tokens.map (·.lexeme) = queryLexemes mixedQuery :=
  lexemes_scanned ⟨rfl, rfl⟩

theorem mixed_parsed : Sql.parse mixedText 1 = .ok mixedQuery := parse_lexemes mixed_scanned rfl

theorem mixed_written : WrittenAs (scan mixedText 1) mixedSequence :=
  ⟨.query (.keyword _ "SELECT") (.allColumns (.symbol _)) (.keyword _ "FROM")
    (.table (.identifier "t"))
    (.clause .condition (.keyword _ "WHERE") mixedSequence.derivation) (.noByClause _ .empty)
    (.noClause _ .empty) (.noByClause _ .empty) (.noClause _ .empty) (.symbol _),
    mixed_scanned.2.symm, rfl⟩

theorem precedence_exact_mixed :
    Sql.parse mixedText 1 = .ok mixedQuery ∧ WrittenAs (scan mixedText 1) mixedSequence ∧
      mixedQuery.condition? = some mixedCondition ∧
      ∀ leaf : Value → Bool,
        (nodeTrue leaf mixedCondition.toValue =
            readsTrue leaf mixedSequence.first.value mixedSequence.links ↔
          ¬ Overruled leaf mixedSequence.first.value mixedSequence.links) := by
  refine ⟨mixed_parsed, mixed_written, rfl, fun leaf => ?_⟩
  obtain ⟨c, hc, hexact⟩ := precedence_exact mixed_parsed mixed_written leaf
  cases hc
  exact hexact

/-- The comparison with one holds, and no other. -/
def firstOnly : Value → Bool
  | .comparison _ _ (.int 1) => true
  | _ => false

/-- AND does not join before OR: of `a=1 OR b=2 AND c=3` the first comparison is not enough. -/
theorem precedence_fails :
    ¬ ∀ {text : String} {line : Nat} {q : Query} {s : Sequence} {c : Condition},
      Sql.parse text line = .ok q → WrittenAs (scan text line) s → q.condition? = some c →
        ∀ leaf : Value → Bool,
          nodeTrue leaf c.toValue = readsTrue leaf s.first.value s.links := by
  intro hall
  have h := hall mixed_parsed mixed_written rfl firstOnly
  exact absurd h (by decide +kernel)

end DocQuery.Proofs
