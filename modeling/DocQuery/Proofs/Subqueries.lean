import DocQuery.Proofs.CommaJoins
import DocQuery.Proofs.Rendering

namespace DocQuery.Proofs

open Sql
open Value (doc)

/-- A column of a table, which it may name. -/
def OfTable (schema : Value) (t c : String) (r : ColumnRef) : Prop :=
  r.name = c ∧ r.table?.all (· == t) = true ∧ ColumnIn schema t c

/-- The inner statement: it selects one column of a table, under a condition on that table. -/
structure SelectsColumn (schema : Value) (t c : String) (w? : Option Condition) (q : Query) :
    Prop where
  source : q.source = .table t
  items : ∃ r, q.items = .items (.column r) [] ∧ OfTable schema t c r
  condition : q.condition? = w?
  tests : ∀ w, w? = some w → ∀ d ∈ comparisons w, ∃ r, comparedColumn? d = some r ∧
    OfTable schema t r.name r
  groupBy : q.groupBy = []
  having : q.having? = none
  orderBy : q.orderBy = []
  limit : q.limit? = none

/-- A statement that selects the rows whose key is among those that an inner statement selects of
another table, where no column is called as that table. -/
structure SelectsMembers (schema : Value) (j : Joining) (columns : List ColumnRef)
    (w? : Option Condition) (q : Query) : Prop where
  source : q.source = .table j.base
  different : j.base ≠ j.joined
  items : selectedItems q.items = columns.map .column
  nonempty : columns ≠ []
  condition : ∃ x inner, q.condition? = some (.inQuery x inner) ∧
    OfTable schema j.base j.key x ∧ SelectsColumn schema j.joined j.foreign w? inner
  groupBy : q.groupBy = []
  having : q.having? = none
  orderBy : q.orderBy = []
  limit : q.limit? = none
  no_column : ¬ ColumnIn schema j.base j.joined

/-- Whether a row of the inner table shows that another one belongs to the result. -/
def memberTrue (j : Joining) (w? : Option Condition) (a b : Entries) : Bool :=
  columnsEqual (Entries.field a j.key) (Entries.field b j.foreign) &&
    w?.all (truthBy (columnTrue fun c => Entries.field b c.name))

/-- The rows that belong to the result. -/
def memberRows (j : Joining) (w? : Option Condition) (collections : String → List Entries) :
    List Entries :=
  (collections j.base).filter fun a => (collections j.joined).any (memberTrue j w? a)

/-- What is held in the columns of a table. -/
def tableColumns (schema : Value) (t : String) (d : Entries) :
    {c // ColumnIn schema t c} → Option Value :=
  fun c => Entries.get? d (.text c.1)

/-- Documents correspond one to one to the rows of the result. -/
def KeepsMembers (schema : Value) (j : Joining) (w? : Option Condition)
    (collections : String → List Entries) (docs : List Entries) : Prop :=
  (docs.map (tableColumns schema j.base)).Perm
    ((memberRows j w? collections).map (tableColumns schema j.base))

/-- The stages before the projection. -/
def memberStages (j : Joining) : List Value :=
  [Command.lookupStage (.text j.joined) (.text j.key) (.text j.foreign),
    Command.matchStage (doc [(j.joined, doc [("$ne", .list [])])])]

theorem show_plain_of (columns : List ColumnRef) :
    (columns.map ColumnRef.toValue).foldlM Command.showPlain [] =
      .ok (putAll [] (shownFields columns)) := by
  rw [List.foldlM_map]
  exact insert_all ColumnRef.name (fun _ => .int 1) columns _ (fun _ _ => rfl) []

section

variable {schema : Value} {j : Joining} {columns : List ColumnRef} {w? : Option Condition}
  {q : Query}

/-- The names of a membership, and of the statement in it, are words. -/
theorem member_names {sql : String} {line : Nat} (hq : SelectsMembers schema j columns w? q)
    (hparse : Sql.parse sql line = .ok q) : IsName j.key ∧ IsName j.joined ∧ IsName j.foreign := by
  obtain ⟨x, inner, hcondition, ⟨hkey, -, -⟩, hinner⟩ := hq.condition
  obtain ⟨r, hitems, hforeign, -, -⟩ := hinner.items
  have hnamed := inner_named hparse hcondition
  have hsource := hnamed.source
  rw [hinner.source] at hsource
  have hmember : NamedColumn x := by
    cases parse_comb hparse hcondition with
    | term ht =>
      cases ht with
      | inQuery hc => exact hc
  have hitem : NamedItem (.column r) := hnamed.items _ (by rw [hitems]; exact List.mem_cons_self)
  exact ⟨hkey ▸ hmember.1, hsource, hforeign ▸ hitem.1⟩

theorem Hereditary.member_stages {Q : Value → Prop} (h : Hereditary Q) (j : Joining) :
    ∀ s ∈ memberStages j, Q s := by
  intro s hs
  rcases List.mem_pair.mp hs with rfl | rfl
  · exact h.lookup _ _ _
  · exact h.entry (h.entry (h.entry (h.list (by simp))))

theorem member_stages_shown (j : Joining) (columns : List ColumnRef) :
    ∀ s ∈ memberStages j ++ [Command.projectStage (putAll [] (shownFields columns))],
      Succeeds s.literal := by
  intro s hs
  rcases List.mem_append.mp hs with hs | hs
  · exact literal_hereditary.member_stages j s hs
  · obtain rfl := List.mem_singleton.mp hs
    exact literal_hereditary.shown ColumnRef.name columns

theorem asked_condition {q inner : Query} {x : ColumnRef}
    (h : q.condition? = some (.inQuery x inner)) : (partsOf q).condition =
      .comparison x.toValue (.text "IN_SUBQUERY") (.select (partsOf inner)) := by
  rw [← statement_parts, Statement.toValue]
  simp only [partsOf, h, optionalCondition, Condition.toValue]

/-- A membership has a command that runs its stages. -/
theorem member_command (hq : SelectsMembers schema j columns w? q) :
    ∃ string, Command.translate q.toValue = .ok (pipelineDocument string (.text j.base)
      (memberStages j ++ [Command.projectStage (putAll [] (shownFields columns))])) := by
  obtain ⟨x, inner, hcondition, ⟨hkey, -, -⟩, hinner⟩ := hq.condition
  obtain ⟨r, hitems, hforeign, -, -⟩ := hinner.items
  obtain ⟨string, hcommand⟩ := pipeline_command_shown j.base (member_stages_shown j columns)
  refine ⟨string, ?_⟩
  have hasks : q.condition?.any asksQuery = true := by rw [hcondition]; rfl
  have hfield : Command.shownColumn x.toValue = .ok (.text j.key) := by
    rw [← hkey]
    rfl
  have hfirst : (partsOf inner).columns.index (.int 0) = .ok r.toValue := by
    simp only [partsOf, hitems]
    rfl
  have hcolumn : r.toValue.entry "column" = .ok (.text j.foreign) := by
    rw [← hforeign]
    rfl
  have htable : (partsOf inner).table = .text j.joined := by
    simp [partsOf, hinner.source, sourceTable]
  have hfound : Value.entryOf (.text j.joined) (doc [("$ne", .list [])]) =
    .ok (doc [(j.joined, doc [("$ne", .list [])])]) := rfl
  have hcolumns : (partsOf q).columns = .list (columns.map ColumnRef.toValue) :=
    selected_columns hq.items hq.nonempty
  have hbase : (partsOf q).table = .text j.base := by simp [partsOf, hq.source, sourceTable]
  have hshown : (putAll [] (shownFields columns)).isEmpty = false := by
    obtain ⟨c, cs, rfl⟩ := List.exists_cons_of_ne_nil hq.nonempty
    have hsome := @put_all_some [] (shownFields (c :: cs)) c.name List.mem_cons_self
    cases hall : putAll [] (shownFields (c :: cs)) with
    | nil => rw [hall] at hsome; cases hsome
    | cons => rfl
  rw [translate_of, hasks, if_pos rfl]
  simp only [Command.subqueryCommand, asked_condition hcondition, Value.asComparison, hfield,
    Value.asSelect, hfirst, hcolumn, htable, hfound, hcolumns, Value.items, show_plain_of, hshown,
    hbase, ok_bind, Bool.false_eq_true, ↓reduceIte]
  exact command_lift_ok.mpr hcommand

theorem equal_not_null {v w : Value} (h : columnsEqual v w = true) : v ≠ .null ∨ w ≠ .null := by
  left
  rintro rfl
  cases h

/-- A row is kept if some row of the inner table has an equal value. -/
def keyFound (j : Joining) (found : List Entries) (a : Entries) : Bool :=
  found.any fun b => equals (Entries.field a j.key) (Entries.field b j.foreign)

/-- What is looked up passes the filter if it is not empty. -/
theorem found_passes (found : List Entries) {d : Entries} (hj : IsName j.joined)
    (hd : Entries.get? d (.text j.joined) = some (.list (found.map .dict))) :
    holds (fieldAt d) (doc [(j.joined, doc [("$ne", .list [])])]) = !found.isEmpty := by
  have hfield : fieldAt d j.joined = .list (found.map .dict) := by
    rw [field_at_field d hj.no_dot]
    exact field_of_get hd
  have hequals : equals (.list (found.map .dict)) (.list []) = found.isEmpty := by
    cases found with
    | nil => rfl
    | cons b found => simp [equals, orderType, Value.kind, Value.same, Value.sameItems]
  simp [doc, holds, holdsEntries, suits, isOperator, passesTest, passes, hfield, hequals]

/-- The stages leave the rows whose key is found, with what is looked up. -/
theorem run_member (e : Engine) (collections : String → List Entries) (hkey : IsName j.key)
    (hj : IsName j.joined) (hforeign : IsName j.foreign) (docs : List Entries) :
    e.run collections (memberStages j) docs =
      some ((docs.filter (keyFound j (collections j.joined))).map
        (lookup (collections j.joined) j.key j.foreign j.joined)) := by
  have hlookup : e.stage collections docs
      (Command.lookupStage (.text j.joined) (.text j.key) (.text j.foreign)) =
        some (docs.map (lookup (collections j.joined) j.key j.foreign j.joined)) := rfl
  have hstages : memberStages j =
      [Command.lookupStage (.text j.joined) (.text j.key) (.text j.foreign)] ++
        ((some (doc [(j.joined, doc [("$ne", .list [])])])).map Command.matchStage).toList := rfl
  rw [hstages, run_append, run_single, hlookup, Option.bind_some, run_filter, List.filter_map]
  let found := lookup (collections j.joined) j.key j.foreign j.joined
  refine congrArg (fun rows => some (rows.map found)) (List.filter_congr fun a _ => ?_)
  rw [Function.comp_apply, Option.all_some,
    found_passes _ hj (by rw [lookup, get_put, if_pos rfl]), keyFound, Bool.eq_iff_iff]
  simp [field_at_field _ hkey.no_dot, field_at_field _ hforeign.no_dot]

/-- What is looked up hides no column. -/
theorem lookup_columns (hno : ¬ ColumnIn schema j.base j.joined) (found : List Entries)
    (a : Entries) : tableColumns schema j.base (lookup found j.key j.foreign j.joined a) =
      tableColumns schema j.base a := by
  funext c
  have hname : j.joined ≠ c.1 := fun he => hno (he ▸ c.2)
  rw [tableColumns, lookup, get_put, if_neg hname, tableColumns]

/-- Rows that are equal by all columns have equal keys. -/
theorem key_columns (hkey : ColumnIn schema j.base j.key) {a a' : Entries}
    (h : tableColumns schema j.base a = tableColumns schema j.base a') :
    Entries.field a j.key = Entries.field a' j.key := by
  have hget : Entries.get? a (.text j.key) = Entries.get? a' (.text j.key) :=
    congrFun h ⟨j.key, hkey⟩
  rw [Entries.field, Entries.field, hget]

/-- The rows whose key is found are those of the result just if each key that is found is that of a
row of which the inner condition is true. -/
theorem keeps_found (hno : ¬ ColumnIn schema j.base j.joined)
    (hkey : ColumnIn schema j.base j.key) {collections : String → List Entries}
    (ha : ∀ a ∈ collections j.base, RowOf schema j.base a)
    (hb : ∀ b ∈ collections j.joined, RowOf schema j.joined b) :
    KeepsMembers schema j w? collections
        (((collections j.base).filter (keyFound j (collections j.joined))).map
          (lookup (collections j.joined) j.key j.foreign j.joined)) ↔
      ∀ a ∈ collections j.base, ∀ b ∈ collections j.joined,
        equals (Entries.field a j.key) (Entries.field b j.foreign) = true →
          ∃ b' ∈ collections j.joined, memberTrue j w? a b' = true := by
  have hview : tableColumns schema j.base ∘
      lookup (collections j.joined) j.key j.foreign j.joined = tableColumns schema j.base :=
    funext fun a => lookup_columns hno (collections j.joined) a
  -- A row that belongs to the result has its key found, so only the other direction can fail.
  have hfound : ∀ a ∈ collections j.base,
      (collections j.joined).any (memberTrue j w? a) = true →
        keyFound j (collections j.joined) a = true := by
    intro a hma hany
    obtain ⟨b, hmb, htrue⟩ := List.any_eq_true.mp hany
    obtain ⟨hequal, -⟩ := Bool.and_eq_true_iff.mp htrue
    refine List.any_eq_true.mpr ⟨b, hmb, ?_⟩
    rw [columns_equal ((ha a hma).plain _) ((hb b hmb).plain _) (equal_not_null hequal), hequal]
  rw [KeepsMembers, List.map_map, hview, memberRows]
  constructor
  · intro hperm a hma b hmb hequals
    have hdepends : ∀ a ∈ collections j.base, ∀ a' ∈ collections j.base,
        tableColumns schema j.base a = tableColumns schema j.base a' →
        (collections j.joined).any (memberTrue j w? a) =
          (collections j.joined).any (memberTrue j w? a') := by
      intro a _ a' _ h
      have hsame : memberTrue j w? a = memberTrue j w? a' := by
        funext b
        rw [memberTrue, memberTrue, key_columns hkey h]
      rw [hsame]
    have hsame := filter_view_perm hdepends hperm a hma
    have hkept : keyFound j (collections j.joined) a = true :=
      List.any_eq_true.mpr ⟨b, hmb, hequals⟩
    rw [hsame] at hkept
    exact List.any_eq_true.mp hkept
  · intro h
    rw [List.filter_congr fun a hma => ?_]
    rw [Bool.eq_iff_iff]
    refine ⟨fun hkept => ?_, hfound a hma⟩
    obtain ⟨b, hmb, hequals⟩ := List.any_eq_true.mp hkept
    exact List.any_eq_true.mpr (h a hma b hmb hequals)

end

/-- The documents that the stages for a membership leave correspond one to one to the rows of the
result exactly if each key that is found at all, where `null` is equal to itself, is that of some
row of which the inner condition is true. -/
theorem membership_exact {schema : Value} {sql : String} {line : Nat} {q : Query} {j : Joining}
    {columns : List ColumnRef} {w? : Option Condition} (hparse : Sql.parse sql line = .ok q)
    (hcheck : (Check.check schema q.toValue).outcome = .ok ())
    (hq : SelectsMembers schema j columns w? q) :
    ∃ command shown, Pipeline.command schema sql line = .ok command ∧
      command.entry "collection" = .ok (.text j.base) ∧
      command.entry "pipeline" = .ok (.list (memberStages j ++ [Command.projectStage shown])) ∧
      ∀ (e : Engine) (collections : String → List Entries),
        (∀ a ∈ collections j.base, RowOf schema j.base a) →
        (∀ b ∈ collections j.joined, RowOf schema j.joined b) →
        ∃ docs, e.run collections (memberStages j) (collections j.base) = some docs ∧
          (KeepsMembers schema j w? collections docs ↔
            ∀ a ∈ collections j.base, ∀ b ∈ collections j.joined,
              equals (Entries.field a j.key) (Entries.field b j.foreign) = true →
                ∃ b' ∈ collections j.joined, memberTrue j w? a b' = true) := by
  obtain ⟨hkey, hj, hforeign⟩ := member_names hq hparse
  obtain ⟨string, htranslate⟩ := member_command hq
  obtain ⟨-, -, -, ⟨-, -, hcolumn⟩, -⟩ := hq.condition
  refine ⟨_, _, command_accepted hparse hcheck htranslate, rfl, rfl, fun e collections ha hb => ?_⟩
  exact ⟨_, run_member e collections hkey hj hforeign _, keeps_found hq.no_column hcolumn ha hb⟩

def amountAbove (n : Nat) : Condition := .compare ⟨none, "amount"⟩ .gt (.literal (.number n))

/-- The cities of the users with an order above an amount. -/
def buyersAbove (n : Nat) : Query :=
  ⟨.items (.column ⟨none, "city"⟩) [], .table "users",
    some (.inQuery ⟨none, "id"⟩ ⟨.items (.column ⟨none, "user_id"⟩) [], .table "orders",
      some (amountAbove n), [], none, [], none⟩), [], none, [], none⟩

def ordersOfUsers : Joining := ⟨"users", "id", "orders", "user_id"⟩

theorem buyers_members (n : Nat) : SelectsMembers salesSchema ordersOfUsers [⟨none, "city"⟩]
    (some (amountAbove n)) (buyersAbove n) where
  source := rfl
  different := by decide
  items := rfl
  nonempty := by simp
  condition := by
    refine ⟨_, _, rfl, ⟨rfl, rfl, _, rfl, rfl⟩, ?_⟩
    exact {
      source := rfl
      items := ⟨_, rfl, rfl, rfl, _, rfl, rfl⟩
      condition := rfl
      tests := by
        intro w hw d hd
        cases hw
        obtain rfl := List.mem_singleton.mp hd
        exact ⟨_, rfl, rfl, rfl, _, rfl, rfl⟩
      groupBy := rfl
      having := rfl
      orderBy := rfl
      limit := rfl }
  groupBy := rfl
  having := rfl
  orderBy := rfl
  limit := rfl
  no_column := by
    rintro ⟨_, ⟨⟩, ⟨⟩⟩

def buyersAboveText (n : String) : String :=
  "SELECT city FROM users WHERE id IN (SELECT user_id FROM orders WHERE amount > " ++ n ++ ");"

theorem buyers_combs (n : Nat) : HasCombs (buyersAbove n) := by
  simp only [buyersAbove, amountAbove, HasCombs, SourceComb, ClauseComb, NestedCombs, true_and,
    and_true]
  exact ⟨.term rfl, .term rfl⟩

theorem membership_above_twenty :
    Sql.parse (buyersAboveText "20") 1 = .ok (buyersAbove 20) ∧
      SelectsMembers salesSchema ordersOfUsers [⟨none, "city"⟩] (some (amountAbove 20))
        (buyersAbove 20) ∧
      ∀ e : Engine, ∃ docs, e.run sales (memberStages ordersOfUsers) (sales "users") = some docs ∧
        KeepsMembers salesSchema ordersOfUsers (some (amountAbove 20)) sales docs := by
  have hparse : Sql.parse (buyersAboveText "20") 1 = .ok (buyersAbove 20) :=
    parse_scans.mpr ⟨queryLexemes (buyersAbove 20), (@scan_iff _ 1 _).mpr ⟨rfl, rfl⟩,
      query_read (buyers_combs 20)⟩
  have hcheck : (Check.check salesSchema (buyersAbove 20).toValue).outcome = .ok () := rfl
  refine ⟨hparse, buyers_members 20, fun e => ?_⟩
  obtain ⟨command, shown, -, -, -, hall⟩ := membership_exact hparse hcheck (buyers_members 20)
  obtain ⟨docs, hrun, hiff⟩ := hall e sales (fun a ha => (sales_users ha).1)
    fun b hb => sales_orders hb
  refine ⟨docs, hrun, hiff.mpr ?_⟩
  have htrue : ∀ a ∈ sales "users", ∃ b ∈ sales "orders",
      memberTrue ordersOfUsers (some (amountAbove 20)) a b = true := by
    decide
  exact fun a ha b _ _ => htrue a ha

/-- A user whose orders are all small is kept, since the condition on orders is left out. -/
theorem membership_ignores_condition :
    ¬ ∀ {schema command : Value} {sql : String} {line : Nat} {q : Query} {j : Joining}
      {columns : List ColumnRef} {w? : Option Condition} {shown : Entries},
      Schema.check schema = .ok () → Sql.parse sql line = .ok q →
      Pipeline.command schema sql line = .ok command → SelectsMembers schema j columns w? q →
      command.entry "pipeline" = .ok (.list (memberStages j ++ [Command.projectStage shown])) →
      ∀ (e : Engine) (collections : String → List Entries),
        (∀ a ∈ collections j.base, RowOf schema j.base a) →
        (∀ b ∈ collections j.joined, RowOf schema j.joined b) →
        ∃ docs, e.run collections (memberStages j) (collections j.base) = some docs ∧
          KeepsMembers schema j w? collections docs := by
  intro hall
  have hparse : Sql.parse (buyersAboveText "40") 1 = .ok (buyersAbove 40) :=
    parse_scans.mpr ⟨queryLexemes (buyersAbove 40), (@scan_iff _ 1 _).mpr ⟨rfl, rfl⟩,
      query_read (buyers_combs 40)⟩
  obtain ⟨tree, command, shown, htree, htranslate, hpipeline⟩ : ∃ tree command shown,
      Pipeline.check salesSchema (buyersAbove 40).toValue = .ok tree ∧
        Pipeline.translate tree = .ok command ∧
        command.entry "pipeline" =
          .ok (.list (memberStages ordersOfUsers ++ [Command.projectStage shown])) :=
    ⟨_, _, _, rfl, rfl, rfl⟩
  have hmembers := buyers_members 40
  have hrows : ∀ a ∈ sales "users", RowOf salesSchema "users" a := fun a ha => (sales_users ha).1
  have horders : ∀ b ∈ sales "orders", RowOf salesSchema "orders" b := fun b hb => sales_orders hb
  have hschema : Schema.check salesSchema = .ok () := rfl
  have hcommand := command_of_stages hparse htree htranslate
  obtain ⟨docs, hdocs, hkeeps⟩ := hall hschema hparse hcommand hmembers hpipeline plainEngine sales
    hrows horders
  obtain ⟨hkey, hj, hforeign⟩ := member_names hmembers hparse
  rw [run_member plainEngine sales hkey hj hforeign] at hdocs
  cases hdocs
  obtain ⟨-, -, -, ⟨-, -, hcolumn⟩, -⟩ := hmembers.condition
  have hiff := @keeps_found salesSchema ordersOfUsers (some (amountAbove 40)) hmembers.no_column
    hcolumn sales hrows horders
  have hsome := hiff.mp hkeeps (user 1 "Rome") List.mem_cons_self (order 1 20)
    (List.mem_cons_of_mem _ List.mem_cons_self) (by decide)
  exact absurd hsome (by decide)

end DocQuery.Proofs
