import DocQuery.Proofs.Values
import DocQuery.Sql.Parser

namespace DocQuery.Proofs

open Sql

variable (f : String → String)

/-- A lexeme with the word of a keyword changed. -/
def rewordLexeme : Lexeme → Lexeme
  | .keyword k w => .keyword k (f w)
  | l => l

mutual
/-- A condition with the words of its connectives changed. -/
def rewordCondition : Condition → Condition
  | .inQuery c q => .inQuery c (reword q)
  | .connect l w r => .connect (rewordCondition l) (f w) (rewordCondition r)
  | .compare c r x => .compare c r x
  | .aggregate a r l => .aggregate a r l
  | .between c low high => .between c low high
  | .inList c l ls => .inList c l ls

def rewordClause : Option Condition → Option Condition
  | none => none
  | some c => some (rewordCondition c)

def rewordSource : Source Condition → Source Condition
  | .join a b on => .join a b (rewordCondition on)
  | .table a => .table a
  | .tables a b more => .tables a b more

/-- A statement with the words of its connectives changed. -/
def reword : Statement Condition → Statement Condition
  | ⟨items, source, condition?, groupBy, having?, orderBy, limit?⟩ =>
    ⟨items, rewordSource source, rewordClause condition?, groupBy, rewordClause having?, orderBy,
      limit?⟩
end

/-- Two results of reading agree: what was read and what is left differ only in the words. -/
def Agrees {α : Type} (g : α → α) (x' x : Except Nat (α × Lexemes)) : Prop :=
  x' = x.map (Prod.map g (List.map (rewordLexeme f)))

/-- A reader does not look at words. -/
def Rewords {α : Type} (read : Reader α) (g : α → α) : Prop :=
  ∀ ls, Agrees f g (read (ls.map (rewordLexeme f))) (read ls)

variable {f}

theorem Agrees.stuck {α : Type} (g : α → α) (ls : Lexemes) :
    Agrees f g (Read.stuck (ls.map (rewordLexeme f))) (Read.stuck ls) := by
  rw [Agrees, Read.stuck, Read.stuck, List.length_map]
  rfl

theorem Agrees.bind {α β : Type} {g : α → α} {h : β → β} {x x' : Except Nat (α × Lexemes)}
    {next next' : α × Lexemes → Except Nat (β × Lexemes)} (hx : Agrees f g x' x)
    (hnext : ∀ a ls, Agrees f h (next' (g a, ls.map (rewordLexeme f))) (next (a, ls))) :
    Agrees f h (x' >>= next') (x >>= next) := by
  rw [Agrees] at hx
  subst hx
  cases x with
  | error n => rfl
  | ok found => exact hnext found.1 found.2

theorem symbol_rewords (s : Symbol) : Rewords f (Read.symbol s) id := by
  intro ls
  cases ls with
  | nil => exact .stuck id []
  | cons l ls =>
    cases l with
    | symbol t =>
      simp only [List.map_cons, rewordLexeme, Read.symbol]
      split
      · exact rfl
      · exact .stuck id (.symbol t :: ls)
    | _ => exact .stuck id (_ :: ls)

theorem keyword_rewords (k : Keyword) : Rewords f (Read.keyword k) id := by
  intro ls
  cases ls with
  | nil => exact .stuck id []
  | cons l ls =>
    cases l with
    | keyword j w =>
      simp only [List.map_cons, rewordLexeme, Read.keyword]
      split
      · exact rfl
      · exact .stuck id (.keyword j w :: ls)
    | _ => exact .stuck id (_ :: ls)

theorem identifier_rewords : Rewords f Read.identifier id := by
  intro ls
  cases ls with
  | nil => exact .stuck id []
  | cons l ls =>
    cases l with
    | identifier a => exact rfl
    | _ => exact .stuck id (_ :: ls)

theorem number_rewords : Rewords f Read.number id := by
  intro ls
  cases ls with
  | nil => exact .stuck id []
  | cons l ls =>
    cases l with
    | number n => exact rfl
    | _ => exact .stuck id (_ :: ls)

theorem literal_rewords : Rewords f Read.literal id := by
  intro ls
  cases ls with
  | nil => exact .stuck id []
  | cons l ls =>
    cases l with
    | number n => exact rfl
    | text s => exact rfl
    | _ => exact .stuck id (_ :: ls)

theorem relation_rewords : Rewords f Read.relation id := by
  intro ls
  cases ls with
  | nil => exact .stuck id []
  | cons l ls =>
    cases l with
    | symbol s =>
      simp only [List.map_cons, rewordLexeme, Read.relation]
      cases Relation.ofSymbol? s with
      | some r => exact rfl
      | none => exact .stuck id (.symbol s :: ls)
    | _ => exact .stuck id (_ :: ls)

theorem column_ref_rewords : Rewords f Read.columnRef id := by
  intro ls
  cases ls with
  | nil => exact .stuck id []
  | cons l ls =>
    cases l with
    | identifier a =>
      cases ls with
      | nil => exact rfl
      | cons l ls =>
        cases l with
        | symbol s =>
          cases s with
          | dot =>
            apply (identifier_rewords ls).bind
            intro b ls
            exact rfl
          | _ => exact rfl
        | _ => exact rfl
    | _ => exact .stuck id (_ :: ls)

theorem argument_rewords (func : Func) : Rewords f (Read.argument func) id := by
  intro ls
  have hcolumn : Agrees f id
      (do
        let c ← Read.identifier (ls.map (rewordLexeme f))
        let closed ← Read.symbol .rparen c.2
        return (Aggregate.call func c.1, closed.2))
      (do
        let c ← Read.identifier ls
        let closed ← Read.symbol .rparen c.2
        return (Aggregate.call func c.1, closed.2)) := by
    apply (identifier_rewords ls).bind
    intro c ls
    apply (symbol_rewords .rparen ls).bind
    intro _ ls
    exact rfl
  cases ls with
  | nil => exact hcolumn
  | cons l ls =>
    cases l with
    | symbol s =>
      cases s with
      | star =>
        simp only [List.map_cons, rewordLexeme, Read.argument]
        split
        · apply (symbol_rewords .rparen ls).bind
          intro _ ls
          exact rfl
        · exact .stuck id (.symbol .star :: ls)
      | _ => exact hcolumn
    | _ => exact hcolumn

theorem aggregate_rewords : Rewords f Read.aggregate id := by
  intro ls
  cases ls with
  | nil => exact .stuck id []
  | cons l ls =>
    cases l with
    | keyword k w =>
      simp only [List.map_cons, rewordLexeme, Read.aggregate]
      cases Func.ofKeyword? k with
      | some func =>
        apply (symbol_rewords .lparen ls).bind
        intro _ ls
        exact argument_rewords func ls
      | none => exact .stuck id (.keyword k w :: ls)
    | _ => exact .stuck id (_ :: ls)

theorem select_item_rewords : Rewords f Read.selectItem id := by
  intro ls
  have hcolumn : Agrees f id
      (do
        let c ← Read.columnRef (ls.map (rewordLexeme f))
        return (SelectItem.column c.1, c.2))
      (do
        let c ← Read.columnRef ls
        return (SelectItem.column c.1, c.2)) := by
    apply (column_ref_rewords ls).bind
    intro c ls
    exact rfl
  cases ls with
  | nil => exact hcolumn
  | cons l ls =>
    cases l with
    | keyword k w =>
      apply (aggregate_rewords (.keyword k w :: ls)).bind
      intro a ls
      exact rfl
    | _ => exact hcolumn

theorem more_items_rewords {α : Type} {item : Reader α} (hitem : Rewords f item id) (n : Nat) :
    Rewords f (Read.moreItems item n) id := by
  induction n with
  | zero =>
    intro ls
    exact rfl
  | succ n ih =>
    intro ls
    cases ls with
    | nil => exact rfl
    | cons l ls =>
      cases l with
      | symbol s =>
        cases s with
        | comma =>
          apply (hitem ls).bind
          intro x ls
          apply (ih ls).bind
          intro xs ls
          exact rfl
        | _ => exact rfl
      | _ => exact rfl

/-- The number of lexemes left bounds the items, whatever their words are. -/
theorem items_rewords {α : Type} {item : Reader α} (hitem : Rewords f item id) (ls : Lexemes) :
    Agrees f id
      (Read.moreItems item (ls.map (rewordLexeme f)).length (ls.map (rewordLexeme f)))
      (Read.moreItems item ls.length ls) := by
  rw [List.length_map]
  exact more_items_rewords hitem ls.length ls

theorem select_list_rewords : Rewords f Read.selectList id := by
  intro ls
  have hitems : Agrees f id
      (do
        let x ← Read.selectItem (ls.map (rewordLexeme f))
        let xs ← Read.moreItems Read.selectItem x.2.length x.2
        return (SelectList.items x.1 xs.1, xs.2))
      (do
        let x ← Read.selectItem ls
        let xs ← Read.moreItems Read.selectItem x.2.length x.2
        return (SelectList.items x.1 xs.1, xs.2)) := by
    apply (select_item_rewords ls).bind
    intro x ls
    apply (items_rewords select_item_rewords ls).bind
    intro xs ls
    exact rfl
  cases ls with
  | nil => exact hitems
  | cons l ls =>
    cases l with
    | symbol s =>
      cases s with
      | star => exact rfl
      | _ => exact hitems
    | _ => exact hitems

theorem operand_rewords : Rewords f Read.operand id := by
  intro ls
  have hliteral : Agrees f id
      (do
        let l ← Read.literal (ls.map (rewordLexeme f))
        return (Operand.literal l.1, l.2))
      (do
        let l ← Read.literal ls
        return (Operand.literal l.1, l.2)) := by
    apply (literal_rewords ls).bind
    intro l ls
    exact rfl
  cases ls with
  | nil => exact hliteral
  | cons l ls =>
    cases l with
    | identifier a =>
      apply (column_ref_rewords (.identifier a :: ls)).bind
      intro c ls
      exact rfl
    | _ => exact hliteral

theorem optional_rewords {α : Type} (k : Keyword) {body : Reader α} {g : α → α}
    (hbody : Rewords f body g) : Rewords f (Read.optional k body) (Option.map g) := by
  intro ls
  cases ls with
  | nil => exact rfl
  | cons l ls =>
    cases l with
    | keyword j w =>
      simp only [List.map_cons, rewordLexeme, Read.optional]
      split
      · apply (hbody ls).bind
        intro x ls
        exact rfl
      · exact rfl
    | _ => exact rfl

theorem column_names_rewords : Rewords f Read.columnNames id := by
  intro ls
  apply (keyword_rewords .byWord ls).bind
  intro _ ls
  apply (identifier_rewords ls).bind
  intro x ls
  apply (items_rewords identifier_rewords ls).bind
  intro xs ls
  exact rfl

theorem direction_rewords : Rewords f Read.direction id := by
  intro ls
  cases ls with
  | nil => exact rfl
  | cons l ls =>
    cases l with
    | keyword k w => cases k <;> exact rfl
    | _ => exact rfl

theorem order_item_rewords : Rewords f Read.orderItem id := by
  intro ls
  have haggregate : Agrees f id
      (do
        let a ← Read.aggregate (ls.map (rewordLexeme f))
        let d ← Read.direction a.2
        return ((⟨a.1.alias, d.1⟩ : OrderItem), d.2))
      (do
        let a ← Read.aggregate ls
        let d ← Read.direction a.2
        return ((⟨a.1.alias, d.1⟩ : OrderItem), d.2)) := by
    apply (aggregate_rewords ls).bind
    intro a ls
    apply (direction_rewords ls).bind
    intro d ls
    exact rfl
  cases ls with
  | nil => exact haggregate
  | cons l ls =>
    cases l with
    | identifier c =>
      apply (direction_rewords ls).bind
      intro d ls
      exact rfl
    | _ => exact haggregate

theorem order_items_rewords : Rewords f Read.orderItems id := by
  intro ls
  apply (keyword_rewords .byWord ls).bind
  intro _ ls
  apply (order_item_rewords ls).bind
  intro x ls
  apply (items_rewords order_item_rewords ls).bind
  intro xs ls
  exact rfl

theorem connected_rewords {term : Reader Condition} (hterm : Rewords f term (rewordCondition f))
    (n : Nat) (c : Condition) (ls : Lexemes) : Agrees f (rewordCondition f)
      (Read.connected term n (rewordCondition f c) (ls.map (rewordLexeme f)))
      (Read.connected term n c ls) := by
  induction n generalizing c ls with
  | zero => exact rfl
  | succ n ih =>
    cases ls with
    | nil => exact rfl
    | cons l ls =>
      cases l with
      | keyword k w =>
        cases k with
        | andWord =>
          apply (hterm ls).bind
          intro d ls
          exact ih (.connect c w d) ls
        | orWord =>
          apply (hterm ls).bind
          intro d ls
          exact ih (.connect c w d) ls
        | _ => exact rfl
      | _ => exact rfl

theorem tables_after_rewords (first : Source Condition) (ts : List String) :
    Read.tablesAfter (rewordSource f first) ts = rewordSource f (Read.tablesAfter first ts) := by
  cases ts with
  | nil => rfl
  | cons t ts => cases first <;> rfl

theorem clause_rewords (c? : Option Condition) :
    rewordClause f c? = c?.map (rewordCondition f) := by
  cases c? <;> rfl

section

variable {sub : Reader Query} (hsub : Rewords f sub (reword f))

include hsub

theorem members_rewords (c : ColumnRef) :
    Rewords f (Read.members sub c) (rewordCondition f) := by
  intro ls
  apply (symbol_rewords .lparen ls).bind
  intro _ ls
  have hlist : Agrees f (rewordCondition f)
      (do
        let l ← Read.literal (ls.map (rewordLexeme f))
        let more ← Read.moreItems Read.literal l.2.length l.2
        let closed ← Read.symbol .rparen more.2
        return (Condition.inList c l.1 more.1, closed.2))
      (do
        let l ← Read.literal ls
        let more ← Read.moreItems Read.literal l.2.length l.2
        let closed ← Read.symbol .rparen more.2
        return (Condition.inList c l.1 more.1, closed.2)) := by
    apply (literal_rewords ls).bind
    intro l ls
    apply (items_rewords literal_rewords ls).bind
    intro more ls
    apply (symbol_rewords .rparen ls).bind
    intro _ ls
    exact rfl
  cases ls with
  | nil => exact hlist
  | cons l ls =>
    cases l with
    | keyword k w =>
      cases k with
      | select =>
        apply (hsub (.keyword .select w :: ls)).bind
        intro q ls
        apply (symbol_rewords .rparen ls).bind
        intro _ ls
        exact rfl
      | _ => exact hlist
    | _ => exact hlist

/-- What follows the column of a comparison. -/
theorem compared_rewords (c : ColumnRef) (ls : Lexemes) : Agrees f (rewordCondition f)
    (do
      match ls.map (rewordLexeme f) with
      | .keyword .inWord _ :: ls => Read.members sub c ls
      | ls => do
        let (r, ls) ← Read.relation ls
        let (x, ls) ← Read.operand ls
        return (.compare c r x, ls))
    (do
      match ls with
      | .keyword .inWord _ :: ls => Read.members sub c ls
      | ls => do
        let (r, ls) ← Read.relation ls
        let (x, ls) ← Read.operand ls
        return (.compare c r x, ls)) := by
  have hcompare : Agrees f (rewordCondition f)
      (do
        let r ← Read.relation (ls.map (rewordLexeme f))
        let x ← Read.operand r.2
        return (Condition.compare c r.1 x.1, x.2))
      (do
        let r ← Read.relation ls
        let x ← Read.operand r.2
        return (Condition.compare c r.1 x.1, x.2)) := by
    apply (relation_rewords ls).bind
    intro r ls
    apply (operand_rewords ls).bind
    intro x ls
    exact rfl
  cases ls with
  | nil => exact hcompare
  | cons l ls =>
    cases l with
    | keyword k w =>
      cases k with
      | inWord => exact members_rewords hsub c ls
      | _ => exact hcompare
    | _ => exact hcompare

theorem comparison_rewords : Rewords f (Read.comparison sub) (rewordCondition f) := by
  intro ls
  have haggregate : Agrees f (rewordCondition f)
      (do
        let a ← Read.aggregate (ls.map (rewordLexeme f))
        let r ← Read.relation a.2
        let l ← Read.literal r.2
        return (Condition.aggregate a.1 r.1 l.1, l.2))
      (do
        let a ← Read.aggregate ls
        let r ← Read.relation a.2
        let l ← Read.literal r.2
        return (Condition.aggregate a.1 r.1 l.1, l.2)) := by
    apply (aggregate_rewords ls).bind
    intro a ls
    apply (relation_rewords ls).bind
    intro r ls
    apply (literal_rewords ls).bind
    intro l ls
    exact rfl
  cases ls with
  | nil => exact haggregate
  | cons l ls =>
    cases l with
    | identifier a =>
      cases ls with
      | nil =>
        exact (column_ref_rewords [.identifier a]).bind fun c ls => compared_rewords hsub c ls
      | cons l ls =>
        cases l with
        | keyword k w =>
          cases k with
          | between =>
            apply (literal_rewords ls).bind
            intro low ls
            apply (keyword_rewords .andWord ls).bind
            intro _ ls
            apply (literal_rewords ls).bind
            intro high ls
            exact rfl
          | _ =>
            apply (column_ref_rewords (.identifier a :: .keyword _ w :: ls)).bind
            exact compared_rewords hsub
        | _ =>
          apply (column_ref_rewords (.identifier a :: _ :: ls)).bind
          exact compared_rewords hsub
    | _ => exact haggregate

theorem condition_rewords : Rewords f (Read.condition sub) (rewordCondition f) := by
  intro ls
  apply (comparison_rewords hsub ls).bind
  intro c ls
  simp only [List.length_map]
  exact connected_rewords (comparison_rewords hsub) ls.length c ls

theorem source_rewords : Rewords f (Read.source sub) (rewordSource f) := by
  intro ls
  apply (identifier_rewords ls).bind
  intro a ls
  have hmore : ∀ (first : Source Condition) (ls : Lexemes), Agrees f (rewordSource f)
      (do
        let ts ← Read.moreItems Read.identifier (ls.map (rewordLexeme f)).length
          (ls.map (rewordLexeme f))
        return (Read.tablesAfter (rewordSource f first) ts.1, ts.2))
      (do
        let ts ← Read.moreItems Read.identifier ls.length ls
        return (Read.tablesAfter first ts.1, ts.2)) := by
    intro first ls
    apply (items_rewords identifier_rewords ls).bind
    intro ts ls
    dsimp only
    rw [tables_after_rewords]
    exact rfl
  cases ls with
  | nil => exact hmore (.table a) []
  | cons l ls =>
    cases l with
    | keyword k w =>
      cases k with
      | join =>
        apply (identifier_rewords ls).bind
        intro b ls
        apply (keyword_rewords .on ls).bind
        intro _ ls
        apply (condition_rewords hsub ls).bind
        intro on ls
        exact hmore (.join a b on) ls
      | _ => exact hmore (.table a) (.keyword _ w :: ls)
    | identifier b => exact hmore (.table a) (.identifier b :: ls)
    | number n => exact hmore (.table a) (.number n :: ls)
    | text s => exact hmore (.table a) (.text s :: ls)
    | symbol s => exact hmore (.table a) (.symbol s :: ls)

theorem statement_rewords : Rewords f (Read.statement sub) (reword f) := by
  intro ls
  apply (keyword_rewords .select ls).bind
  intro _ ls
  apply (select_list_rewords ls).bind
  intro items ls
  apply (keyword_rewords .fromWord ls).bind
  intro _ ls
  apply (source_rewords hsub ls).bind
  intro source ls
  apply (optional_rewords .whereWord (condition_rewords hsub) ls).bind
  intro condition? ls
  apply (optional_rewords .group column_names_rewords ls).bind
  intro groupBy ls
  apply (optional_rewords .having (condition_rewords hsub) ls).bind
  intro having? ls
  apply (optional_rewords .order order_items_rewords ls).bind
  intro orderBy ls
  apply (optional_rewords .limit number_rewords ls).bind
  intro limit? ls
  simp only [Option.map_id_fun, id, ← clause_rewords]
  exact rfl

end

/-- Reading statements does not depend on words, to any depth. -/
theorem nested_rewords (depth : Nat) : Rewords f (Read.nested depth) (reword f) := by
  induction depth with
  | zero =>
    intro ls
    exact .stuck _ ls
  | succ depth ih => exact statement_rewords ih

/-- A statement is read of changed words just if it is read of the words as they were, and then it
is the same one with its words changed. -/
theorem of_lexemes_rewords (f : String → String) (ls : Lexemes) :
    Query.ofLexemes (ls.map (rewordLexeme f)) = (Query.ofLexemes ls).map (reword f) := by
  rw [Query.ofLexemes, Query.ofLexemes, List.length_map, nested_rewords]
  cases Read.nested (ls.length + 1) ls with
  | error n => rfl
  | ok found =>
    obtain ⟨q, ls⟩ := found
    change (Read.symbol .semicolon (ls.map (rewordLexeme f)) >>= _) =
      (Read.symbol .semicolon ls >>= _ : Except Nat Query).map (reword f)
    rw [symbol_rewords]
    cases Read.symbol .semicolon ls with
    | error n => rfl
    | ok found =>
      obtain ⟨_, ls⟩ := found
      cases ls with
      | nil => rfl
      | cons l ls => simp [Prod.map, Read.stuck, Except.map]

end DocQuery.Proofs
