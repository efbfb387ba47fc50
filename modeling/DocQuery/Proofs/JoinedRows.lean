import DocQuery.Proofs.Lexemes
import DocQuery.Proofs.Rows
import DocQuery.Proofs.Scope
import DocQuery.Proofs.Stages
import Mathlib.Data.List.Induction

namespace DocQuery.Proofs

open Sql
open Value (doc)

/-- Two tables, and the columns in which rows that belong together are equal. -/
structure Joining where
  base : String
  key : String
  joined : String
  foreign : String

/-- Whether two columns are equal; `null` equals nothing. -/
def columnsEqual : Value → Value → Bool
  | .int m, .int n => m == n
  | .int n, .real x => numbersRelated .eq (.ofInt n) x
  | .real x, .int n => numbersRelated .eq x (.ofInt n)
  | .real x, .real y => numbersRelated .eq x y
  | .text s, .text t => s == t
  | _, _ => false

/-- What a row of the base table and one of the joined table hold in a column. -/
def pairValue (joined : String) (a b : Entries) (c : ColumnRef) : Value :=
  Entries.field (if c.table? = some joined then b else a) c.name

/-- The pairs that belong together, by their first members. -/
def matchingPairs {α β : Type} (related : α → β → Bool) (as : List α) (bs : List β) :
    List (α × β) :=
  as.flatMap fun a => (bs.filter (related a)).map (a, ·)

/-- Whether two rows belong together and satisfy a condition. -/
def pairMatches (j : Joining) (condition? : Option Condition) (a b : Entries) : Bool :=
  columnsEqual (Entries.field a j.key) (Entries.field b j.foreign) &&
    condition?.all (truthBy (columnTrue (pairValue j.joined a b)))

def bothNull (v w : Value) : Bool := v.kind == .null && w.kind == .null

/-- Whether two rows would belong together and satisfy a condition if a `null` were equal to another
one, and differed from all that it is compared with. -/
def pairPasses (j : Joining) (condition? : Option Condition) (a b : Entries) : Bool :=
  (columnsEqual (Entries.field a j.key) (Entries.field b j.foreign) ||
      bothNull (Entries.field a j.key) (Entries.field b j.foreign)) &&
    condition?.all (truthBy fun c =>
      columnTrue (pairValue j.joined a b) c || nullDiffers (pairValue j.joined a b) c)

/-- What the pairs of rows that are in a relation hold in the selected columns. -/
def pairRows (j : Joining) (columns : List ColumnRef) (related : Entries → Entries → Bool)
    (collections : String → List Entries) : List (List Value) :=
  (matchingPairs related (collections j.base) (collections j.joined)).map fun p =>
    columns.map (pairValue j.joined p.1 p.2)

/-- The rows of a join. -/
def joinedRows (j : Joining) (columns : List ColumnRef) (condition? : Option Condition)
    (collections : String → List Entries) : List (List Value) :=
  pairRows j columns (pairMatches j condition?) collections

/-- A column that names its table, which is one of two and has the column. -/
def ColumnOf (schema : Value) (base joined : String) (c : ColumnRef) : Prop :=
  ∃ t, c.table? = some t ∧ (t = base ∨ t = joined) ∧ ColumnIn schema t c.name

/-- The sides of the comparison of a join may be in either order. -/
inductive JoinedOn (j : Joining) : Condition → Prop where
  | base : JoinedOn j (.compare ⟨some j.base, j.key⟩ .eq (.column ⟨some j.joined, j.foreign⟩))
  | joined : JoinedOn j (.compare ⟨some j.joined, j.foreign⟩ .eq (.column ⟨some j.base, j.key⟩))

/-- A statement that joins two tables by a column of each: it selects and tests columns that name
their table, and no column of the base table is called as the joined one. -/
structure JoinsTables (schema : Value) (j : Joining) (columns : List ColumnRef) (q : Query) :
    Prop where
  source : ∃ on, q.source = .join j.base j.joined on ∧ JoinedOn j on
  different : j.base ≠ j.joined
  items : selectedItems q.items = columns.map .column
  nonempty : columns ≠ []
  selected : ∀ c ∈ columns, ColumnOf schema j.base j.joined c
  condition : ∀ c, q.condition? = some c → ∀ d ∈ comparisons c, ∃ r, comparedColumn? d = some r ∧
    ColumnOf schema j.base j.joined r
  groupBy : q.groupBy = []
  having : q.having? = none
  orderBy : q.orderBy = []
  limit : q.limit? = none
  no_column : ¬ ColumnIn schema j.base j.joined

/-- The columns of the joined table are moved to the top. -/
def movedFields (joined : String) (columns : List ColumnRef) : List (String × Value) :=
  (columns.filter fun c => c.table? == some joined).map fun c =>
    (c.name, .text ("$" ++ joined ++ "." ++ c.name))

def shownFields (columns : List ColumnRef) : List (String × Value) :=
  columns.map fun c => (c.name, .int 1)

def addStages (moved : Entries) : List Value :=
  if moved.isEmpty then [] else [doc [("$addFields", .dict moved)]]

/-- The stages of a join. -/
def joinStages (j : Joining) (columns : List ColumnRef) (where? : Option Value) : List Value :=
  [Command.lookupStage (.text j.joined) (.text j.key) (.text j.foreign),
    doc [("$unwind", .text ("$" ++ j.joined))]] ++ (where?.map Command.matchStage).toList ++
    addStages (putAll [] (movedFields j.joined columns)) ++
    [Command.projectStage (putAll [] (shownFields columns))]

theorem join_fields_of {j : Joining} {on : Condition} (hne : j.base ≠ j.joined)
    (h : JoinedOn j on) : ∃ l r o, on.toValue = .comparison l o r ∧
      Command.joinFields (.text j.base) l r = .ok (.text j.key, .text j.foreign) := by
  cases h with
  | base =>
    refine ⟨_, _, _, rfl, ?_⟩
    simp [Command.joinFields, Operand.toValue, ref_table, ref_column, optionalText]
  | joined =>
    refine ⟨_, _, _, rfl, ?_⟩
    simp [Command.joinFields, Operand.toValue, ref_table, ref_column, optionalText, hne.symm]

theorem moved_columns_of (base : Value) (joined : String) (columns : List ColumnRef) :
    Command.movedColumns base (.text joined) (columns.map ColumnRef.toValue) =
      .ok (putAll [] (movedFields joined columns), putAll [] (shownFields columns)) := by
  induction columns using List.reverseRecOn with
  | nil => rfl
  | append_singleton cs c ih =>
    have hfield : Command.tableAndField (fun _ => .ok base) c.toValue =
      .ok (some (optionalText c.table?, .text c.name)) := rfl
    have hmoved : movedFields joined (cs ++ [c]) = movedFields joined cs ++
        if c.table? == some joined then [(c.name, .text ("$" ++ joined ++ "." ++ c.name))] else [] := by
      cases hc : c.table? == some joined <;> simp [movedFields, hc]
    have hshown : shownFields (cs ++ [c]) = shownFields cs ++ [(c.name, .int 1)] := by
      simp [shownFields]
    rw [Command.movedColumns, List.map_append, List.foldlM_append, ← Command.movedColumns, ih,
      ok_bind, hmoved, hshown, put_all_append, put_all_append]
    cases hc : c.table? == some joined <;>
      simp [hfield, qualifier_same, hc, Value.insert, as_key_text, Value.str, putAll] <;> rfl

theorem pairs_mem {α β : Type} {related : α → β → Bool} {as : List α} {bs : List β} {p : α × β}
    (h : p ∈ matchingPairs related as bs) : p.1 ∈ as ∧ p.2 ∈ bs := by
  obtain ⟨a, ha, hp⟩ := List.mem_flatMap.mp h
  obtain ⟨b, hb, rfl⟩ := List.mem_map.mp hp
  exact ⟨ha, List.mem_of_mem_filter hb⟩

theorem pairs_congr {α β : Type} {related related' : α → β → Bool} {as : List α} {bs : List β}
    (h : ∀ a ∈ as, ∀ b ∈ bs, related a b = related' a b) :
    matchingPairs related as bs = matchingPairs related' as bs := by
  refine List.flatMap_congr fun a ha => ?_
  rw [List.filter_congr fun b hb => h a ha b hb]

theorem pairs_filter {α β : Type} (related : α → β → Bool) (as : List α) (bs : List β)
    (f : α × β → Bool) : (matchingPairs related as bs).filter f =
      matchingPairs (fun a b => related a b && f (a, b)) as bs := by
  rw [matchingPairs, List.filter_flatMap]
  refine List.flatMap_congr fun a _ => ?_
  rw [List.filter_map, List.filter_filter]
  simp only [Function.comp_def, Bool.and_comm]

theorem pairs_of_all {α β : Type} (related : α → β → Bool) (as : List α) (bs : List β) :
    matchingPairs related as bs =
      (matchingPairs (fun _ _ => true) as bs).filter fun p => related p.1 p.2 := by
  rw [pairs_filter]
  rfl

theorem mem_pairs {α β : Type} {related : α → β → Bool} {as : List α} {bs : List β} {a : α} {b : β}
    (ha : a ∈ as) (hb : b ∈ bs) (h : related a b = true) : (a, b) ∈ matchingPairs related as bs :=
  List.mem_flatMap.mpr ⟨a, ha, List.mem_map_of_mem (List.mem_filter.mpr ⟨hb, h⟩)⟩

/-- A row of the base table with one of the joined table in it. -/
def pairDocument (joined : String) (p : Entries × Entries) : Entries :=
  Entries.put p.1 (.text joined) (.dict p.2)

theorem unwind_lookup (found : List Entries) (local_ foreign name : String) (a : Entries) :
    unwind name (lookup found local_ foreign name a) =
      ((found.filter fun b => equals (fieldAt a local_) (fieldAt b foreign)).map (a, ·)).map
        (pairDocument name) := by
  simp [unwind, lookup, get_put, put_put, pairDocument, Function.comp_def]

/-- Looking up and unwinding makes the pairs with equal fields. -/
theorem run_pairs (e : Engine) (collections : String → List Entries) (j : Joining)
    (docs : List Entries) :
    e.run collections [Command.lookupStage (.text j.joined) (.text j.key) (.text j.foreign),
        doc [("$unwind", .text ("$" ++ j.joined))]] docs =
      some ((matchingPairs (fun a b => equals (fieldAt a j.key) (fieldAt b j.foreign)) docs
        (collections j.joined)).map (pairDocument j.joined)) := by
  have hlookup : e.stage collections docs
      (Command.lookupStage (.text j.joined) (.text j.key) (.text j.foreign)) =
        some (docs.map (lookup (collections j.joined) j.key j.foreign j.joined)) := rfl
  have hunwind : ∀ docs, e.stage collections docs (doc [("$unwind", .text ("$" ++ j.joined))]) =
      some (docs.flatMap (unwind j.joined)) := by
    intro docs
    have hpath : String.ofList (("$" ++ j.joined).toList.drop 1) = j.joined := by simp
    simp only [doc, List.map_cons, List.map_nil, Engine.stage, hpath]
  rw [Engine.run, List.foldlM_cons, hlookup, Option.bind_eq_bind, Option.bind_some,
    List.foldlM_cons, hunwind, List.flatMap_map, matchingPairs, List.map_flatMap]
  simp only [unwind_lookup]
  rfl

/-- In a look-up, a `null` is equal to another one. -/
theorem equals_columns {v w : Value} (hv : Atom v) (hw : Atom w) :
    equals v w = (columnsEqual v w || bothNull v w) := by
  cases hv with
  | null => cases hw <;> rfl
  | int =>
    cases hw with
    | int => simp [equals, columnsEqual, bothNull, orderType, Value.kind]
    | real => exact (Bool.or_false _).symm
    | _ => rfl
  | real =>
    cases hw with
    | int | real => exact (Bool.or_false _).symm
    | _ => rfl
  | text =>
    cases hw with
    | text => simp [equals, columnsEqual, bothNull, orderType, Value.kind]
    | _ => rfl

theorem columns_equal {v w : Value} (hv : Atom v) (hw : Atom w) (h : v ≠ .null ∨ w ≠ .null) :
    equals v w = columnsEqual v w := by
  rw [equals_columns hv hw]
  have hnone : bothNull v w = false := by
    cases hv <;> cases hw <;> simp_all [bothNull, Value.kind]
  rw [hnone, Bool.or_false]

section

variable {schema : Value} {j : Joining}

theorem joined_names {columns : List ColumnRef} {q : Query} (hnamed : Named q)
    (hq : JoinsTables schema j columns q) :
    IsName j.joined ∧ IsName j.key ∧ IsName j.foreign := by
  obtain ⟨on, hsource, hon⟩ := hq.source
  have hnames := hnamed.source
  rw [hsource] at hnames
  obtain ⟨-, hjoined, hcomb⟩ := hnames
  have hterm : Term on := by
    refine comb_leaf hcomb on ?_
    cases hon <;> exact List.mem_singleton_self _
  cases hon with
  | base =>
    cases hterm with
    | compare hl hr => exact ⟨hjoined, hl.1, (hr _ rfl).1⟩
  | joined =>
    cases hterm with
    | compare hl hr => exact ⟨hjoined, (hr _ rfl).1, hl.1⟩

/-- In a pair, a column is found where filters look for it. -/
theorem pair_field (hne : j.base ≠ j.joined) (hj : IsName j.joined)
    (hno : ¬ ColumnIn schema j.base j.joined) {c : ColumnRef} (hn : NamedColumn c)
    (hown : ColumnOf schema j.base j.joined c) (a b : Entries) :
    fieldAt (pairDocument j.joined (a, b)) (columnField (some (.text j.base)) c) =
      pairValue j.joined a b c := by
  obtain ⟨t, ht, rfl | rfl, hcolumn⟩ := hown
  · have hname : j.joined ≠ c.name := fun he => hno (he ▸ hcolumn)
    have hfield : columnField (some (.text j.base)) c = c.name := base_field (by simp [ht])
    rw [hfield, field_at_field _ hn.1.no_dot, pairValue, if_neg (by simp [ht, hne]), pairDocument,
      Entries.field, get_put, if_neg hname]
    rfl
  · have hempty : j.joined ≠ "" := by
      rintro he
      obtain ⟨x, xs, hx, -⟩ := hj
      rw [he] at hx
      cases hx
    have hfield : columnField (some (.text j.base)) c = j.joined ++ "." ++ c.name := by
      simp [columnField, ht, hempty, hne.symm]
    have hinner : Entries.get? (pairDocument j.joined (a, b)) (.text j.joined) = some (.dict b) := by
      rw [pairDocument, get_put, if_pos rfl]
    rw [hfield, fieldAt, field_at_dotted hj.no_dot hn.1.no_dot hinner, pairValue, if_pos ht]
    rfl

/-- The filter on pairs leaves those that pass. -/
theorem run_joined (e : Engine) (collections : String → List Entries) {columns : List ColumnRef}
    {q : Query} (hnamed : Named q) (hq : JoinsTables schema j columns q)
    {where? : Option Selector} (hw : ClauseSelector (some (.text j.base)) q.condition? where?)
    (ha : ∀ a ∈ collections j.base, RowOf schema j.base a)
    (hb : ∀ b ∈ collections j.joined, RowOf schema j.joined b) :
    e.run collections ([Command.lookupStage (.text j.joined) (.text j.key) (.text j.foreign),
        doc [("$unwind", .text ("$" ++ j.joined))]] ++
        ((where?.map Selector.toValue).map Command.matchStage).toList) (collections j.base) =
      some ((matchingPairs (pairPasses j q.condition?) (collections j.base)
        (collections j.joined)).map (pairDocument j.joined)) := by
  obtain ⟨hjoined, hkey, hforeign⟩ := joined_names hnamed hq
  rw [run_append, run_pairs, Option.bind_some, run_filter, List.filter_map, pairs_filter]
  refine congrArg (fun ps => some (ps.map (pairDocument j.joined))) (pairs_congr ?_)
  intro a hma b hmb
  have hpasses : (where?.map Selector.toValue).all
      (holds (fieldAt (pairDocument j.joined (a, b)))) = q.condition?.all (truthBy fun c =>
        columnTrue (pairValue j.joined a b) c || nullDiffers (pairValue j.joined a b) c) := by
    refine hw.passes fun c hc d hd => ?_
    obtain ⟨r, hr, hown⟩ := hq.condition c hc d hd
    have hn := compared_named (comb_leaf (hnamed.condition c hc) d hd) hr
    refine ⟨r, hr, pair_field hq.different hjoined hq.no_column hn hown a b, ?_⟩
    rw [pairValue]
    split
    · exact (hb b hmb).plain _
    · exact (ha a hma).plain _
  rw [pairPasses, ← hpasses, ← equals_columns ((ha a hma).plain _) ((hb b hmb).plain _),
    field_at_field a hkey.no_dot, field_at_field b hforeign.no_dot]
  rfl

/-- An empty addition is left out. -/
theorem run_add (e : Engine) (collections : String → List Entries) (moved : Entries)
    (docs : List Entries) :
    e.run collections (addStages moved) docs = some (docs.map (addFields moved)) := by
  cases moved with
  | nil =>
    have hsame : addFields [] = id := rfl
    rw [hsame, List.map_id]
    rfl
  | cons f moved => rfl

/-- A row has something in each column of its table. -/
theorem row_column {t c : String} {d : Entries} (hd : RowOf schema t d)
    (hc : ColumnIn schema t c) : Entries.get? d (.text c) = some (Entries.field d c) := by
  obtain ⟨v, hv⟩ := hd.held c hc
  rw [hv, field_of_get hv]

/-- What is under the name of a column after those of the joined table were moved to the top, if all
columns with this name are of one table. -/
theorem get_moved {joined : String} {columns : List ColumnRef}
    (hnames : ∀ c ∈ columns, NoDot c.name) {c : ColumnRef} (hc : c ∈ columns)
    (hsame : ∀ x ∈ columns, x.name = c.name → x.table? = some joined → c.table? = some joined)
    (d : Entries) :
    Entries.get? (addFields (putAll [] (movedFields joined columns)) d) (.text c.name) =
      if c.table? = some joined then
        (fieldAt? d (joined ++ "." ++ c.name)).or (Entries.get? d (.text c.name))
      else Entries.get? d (.text c.name) := by
  have hmoved : ∀ f ∈ movedFields joined columns, ∃ x ∈ columns, x.table? = some joined ∧
      f = (x.name, .text ("$" ++ joined ++ "." ++ x.name)) := by
    intro f hf
    obtain ⟨x, hx, rfl⟩ := List.mem_map.mp hf
    obtain ⟨hx, htable⟩ := List.mem_filter.mp hx
    exact ⟨x, hx, beq_iff_eq.mp htable, rfl⟩
  have hplain : PlainFields (putAll [] (movedFields joined columns)) := by
    refine PlainFields.nil.putAll fun f hf => ?_
    obtain ⟨x, hx, -, rfl⟩ := hmoved f hf
    exact hnames x hx
  rw [addFields, @get_put_fields _ (fun f => evaluate d f.2) hplain]
  split
  · rename_i htable
    have hpath : Entries.get? (putAll [] (movedFields joined columns)) (.text c.name) =
        some (.text ("$" ++ joined ++ "." ++ c.name)) := by
      refine get_put_all ⟨(c.name, .text ("$" ++ joined ++ "." ++ c.name)), ?_, rfl⟩ ?_
      · exact List.mem_map.mpr ⟨c, List.mem_filter.mpr ⟨hc, beq_iff_eq.mpr htable⟩, rfl⟩
      · intro f hf he
        obtain ⟨x, -, -, rfl⟩ := hmoved f hf
        have he : x.name = c.name := he
        rw [he]
    rw [hpath, Option.bind_some, String.append_assoc, String.append_assoc, evaluate_path,
      ← String.append_assoc]
  · rename_i htable
    have hother : Entries.get? (putAll [] (movedFields joined columns)) (.text c.name) = none := by
      refine get_put_all_other fun f hf he => ?_
      obtain ⟨x, hx, hjoined, rfl⟩ := hmoved f hf
      exact htable (hsame x hx he hjoined)
    rw [hother, Option.bind_none, Option.none_or]

/-- What is moved to the top hides no column of the base table. -/
theorem pair_added (hne : j.base ≠ j.joined) (hj : IsName j.joined)
    (hno : ¬ ColumnIn schema j.base j.joined) {columns : List ColumnRef}
    (hnames : ∀ c ∈ columns, NamedColumn c) (hown : ∀ c ∈ columns, ColumnOf schema j.base j.joined c)
    (hone : ∀ c ∈ columns, ¬ (ColumnIn schema j.base c.name ∧ ColumnIn schema j.joined c.name))
    {a b : Entries} (ha : RowOf schema j.base a) (hb : RowOf schema j.joined b) {c : ColumnRef}
    (hc : c ∈ columns) :
    Entries.get? (addFields (putAll [] (movedFields j.joined columns))
      (pairDocument j.joined (a, b))) (.text c.name) = some (pairValue j.joined a b c) := by
  have hdots : ∀ c ∈ columns, NoDot c.name := fun c hc => (hnames c hc).1.no_dot
  obtain ⟨t, ht, rfl | rfl, hcolumn⟩ := hown c hc
  · have hname : j.joined ≠ c.name := fun he => hno (he ▸ hcolumn)
    rw [get_moved hdots hc, if_neg (by simp [ht, hne]), pairDocument, get_put, if_neg hname,
      row_column ha hcolumn, pairValue, if_neg (by simp [ht, hne])]
    intro d hd he htable
    obtain ⟨u, hu, -, hcol⟩ := hown d hd
    obtain rfl : u = j.joined := Option.some.inj (hu.symm.trans htable)
    exact absurd ⟨hcolumn, he ▸ hcol⟩ (hone c hc)
  · have hinner : Entries.get? (pairDocument j.joined (a, b)) (.text j.joined) = some (.dict b) := by
      rw [pairDocument, get_put, if_pos rfl]
    rw [get_moved hdots hc fun _ _ _ _ => ht, if_pos ht,
      field_at_dotted hj.no_dot (hdots c hc) hinner, row_column hb hcolumn, Option.some_or,
      pairValue, if_pos ht]

/-- The projection shows each selected column of a pair under its name. -/
theorem pair_shown {columns : List ColumnRef} (hnames : ∀ c ∈ columns, NamedColumn c)
    {d : Entries} {value : ColumnRef → Value}
    (hd : ∀ c ∈ columns, Entries.get? d (.text c.name) = some (value c)) {c : ColumnRef}
    (hc : c ∈ columns) :
    Entries.get? (project (putAll [] (shownFields columns)) d) (.text c.name) =
      some (value c) := by
  have hplain : PlainFields (putAll [] (shownFields columns)) := by
    refine PlainFields.nil.putAll fun f hf => ?_
    obtain ⟨d, hd, rfl⟩ := List.mem_map.mp hf
    exact (hnames d hd).1.no_dot
  have hone : Entries.get? (putAll [] (shownFields columns)) (.text c.name) = some (.int 1) := by
    refine get_put_all ⟨(c.name, .int 1), List.mem_map_of_mem hc, rfl⟩ ?_
    intro f hf _
    obtain ⟨d, -, rfl⟩ := List.mem_map.mp hf
    rfl
  refine get_project hplain hone ?_
  exact (field_at_name d (hnames c hc).1.no_dot).trans (hd c hc)

/-- The stages of a join give the rows of the pairs that pass. -/
theorem run_joining (e : Engine) (collections : String → List Entries) {columns : List ColumnRef}
    {q : Query} (hnamed : Named q) (hq : JoinsTables schema j columns q)
    (hone : ∀ c ∈ columns, ¬ (ColumnIn schema j.base c.name ∧ ColumnIn schema j.joined c.name))
    {where? : Option Selector} (hw : ClauseSelector (some (.text j.base)) q.condition? where?)
    (ha : ∀ a ∈ collections j.base, RowOf schema j.base a)
    (hb : ∀ b ∈ collections j.joined, RowOf schema j.joined b) :
    ∃ out, e.run collections (joinStages j columns (where?.map Selector.toValue))
        (collections j.base) = some out ∧
      ShowsRows q out (pairRows j columns (pairPasses j q.condition?) collections) := by
  have hnames : ∀ c ∈ columns, NamedColumn c := by
    intro c hc
    exact hnamed.items (.column c) (hq.items ▸ List.mem_map_of_mem hc)
  obtain ⟨hjoined, -, -⟩ := joined_names hnamed hq
  have hpairs := run_joined e collections hnamed hq hw ha hb
  have hrun : e.run collections (joinStages j columns (where?.map Selector.toValue))
      (collections j.base) = some ((matchingPairs (pairPasses j q.condition?) (collections j.base)
        (collections j.joined)).map fun p => project (putAll [] (shownFields columns))
          (addFields (putAll [] (movedFields j.joined columns)) (pairDocument j.joined p))) := by
    rw [joinStages, run_append, run_append, hpairs, Option.bind_some, run_add, Option.bind_some,
      run_single, List.map_map]
    exact congrArg some List.map_map
  refine ⟨_, hrun, ?_⟩
  rw [ShowsRows, pairRows, hq.items, List.map_map, List.map_map]
  refine List.map_congr_left fun p hp => ?_
  obtain ⟨hma, hmb⟩ := pairs_mem hp
  simp only [Function.comp_apply, List.map_map]
  refine List.map_congr_left fun c hc => ?_
  refine @pair_shown columns hnames _ (pairValue j.joined p.1 p.2) (fun d hd => ?_) c hc
  exact pair_added hq.different hjoined hq.no_column hnames hq.selected hone (ha _ hma)
    (hb _ hmb) hd

section Hereditary
variable {Q : Value → Prop} (h : Hereditary Q)
include h

theorem Hereditary.shown {α : Type} (name : α → String) (xs : List α) :
    Q (Command.projectStage (putAll [] (xs.map fun x => (name x, .int 1)))) := by
  refine h.entry (h.put_all fun f hf => ?_)
  obtain ⟨x, -, rfl⟩ := List.mem_map.mp hf
  exact h.small 1 (by decide)

theorem Hereditary.unwind (name : String) : Q (doc [("$unwind", .text ("$" ++ name))]) :=
  h.entry (h.text _)

/-- All stages of a join have a property if its filter has it. -/
theorem Hereditary.join_stages (j : Joining) (columns : List ColumnRef) {where? : Option Value}
    (hw : ∀ s ∈ (where?.map Command.matchStage).toList, Q s) :
    ∀ s ∈ joinStages j columns where?, Q s := by
  simp only [joinStages, List.mem_append]
  rintro s (((hs | hs) | hs) | hs)
  · rcases List.mem_pair.mp hs with rfl | rfl
    · exact h.lookup _ _ _
    · exact h.unwind _
  · exact hw s hs
  · unfold addStages at hs
    split at hs
    · cases hs
    · obtain rfl := List.mem_singleton.mp hs
      refine h.entry (h.put_all fun f hf => ?_)
      obtain ⟨c, -, rfl⟩ := List.mem_map.mp hf
      exact h.text _
  · obtain rfl := List.mem_singleton.mp hs
    exact h.shown ColumnRef.name columns

end Hereditary

theorem selected_columns {l : SelectList} {columns : List ColumnRef}
    (h : selectedItems l = columns.map .column) (hne : columns ≠ []) :
    l.toValue = .list (columns.map ColumnRef.toValue) := by
  cases l with
  | all => exact absurd (List.map_eq_nil_iff.mp h.symm) hne
  | items x xs =>
    have hitems : x :: xs = columns.map .column := h
    rw [SelectList.toValue, hitems, List.map_map]
    rfl

/-- The pipeline of a join, from what its clauses become. -/
theorem clause_join_of {q : Query} {j : Joining} {on : Condition} {l o r : Value}
    {vs : List Value} {columns : List ColumnRef} {where? : Option Value}
    (hsource : q.source = .join j.base j.joined on) (hon : on.toValue = .comparison l o r)
    (hfields : Command.joinFields (.text j.base) l r = .ok (.text j.key, .text j.foreign))
    (hitems : q.items.toValue.items = .ok vs)
    (hmoved : Command.movedColumns (.text j.base) (.text j.joined) vs =
      .ok (putAll [] (movedFields j.joined columns), putAll [] (shownFields columns)))
    (hwhere : ClauseFilter (some (.text j.base)) q.condition? where?) :
    Command.clauseJoin (some (.text j.base)) (partsOf q) =
      liftM (Command.pipelineCommand (.text j.base) (joinStages j columns where?)) := by
  have htable : (partsOf q).table = .text j.base := by simp [partsOf, hsource, sourceTable]
  have hlist : (partsOf q).columns = q.items.toValue := rfl
  have hcondition : (partsOf q).condition = optionalCondition q.condition? := rfl
  simp only [Command.clauseJoin, joins_first hsource, clause_table, clause_condition, hon,
    Value.asComparison, htable, hfields, unwind_text, hlist, hitems, hmoved, hcondition,
    command_lift, ok_bind]
  generalize q.condition? = c? at hwhere ⊢
  cases hwhere with
  | none => rfl
  | some hf =>
    rw [optionalCondition, condition_present, if_pos rfl, hf]
    rfl

/-- A join has a command that runs its stages. -/
theorem joining_command {columns : List ColumnRef} {q : Query} (hnamed : Named q)
    (hq : JoinsTables schema j columns q) {where? : Option Selector}
    (hw : ClauseSelector (some (.text j.base)) q.condition? where?) :
    ∃ string, Command.translate q.toValue = .ok (pipelineDocument string (.text j.base)
      (joinStages j columns (where?.map Selector.toValue))) := by
  obtain ⟨on, hsource, hon⟩ := hq.source
  obtain ⟨l, r, o, hcomparison, hfields⟩ := join_fields_of hq.different hon
  have hno := clause_no_subquery hnamed.condition fun c hc =>
    compared_literal fun d hd => (hq.condition c hc d hd).imp fun _ hr => hr.1
  have hjoins : (partsOf q).joins.present = true := by
    simp [partsOf, hsource, sourceJoins, Value.present]
  have htable : (partsOf q).table = .text j.base := by simp [partsOf, hsource, sourceTable]
  have hitems : q.items.toValue.items = .ok (columns.map ColumnRef.toValue) := by
    rw [selected_columns hq.items hq.nonempty]
    rfl
  obtain ⟨string, hcommand⟩ :=
    pipeline_command_shown j.base
      (literal_hereditary.join_stages j columns (literal_filter_succeeds where?))
  refine ⟨string, ?_⟩
  rw [statement_parts, Command.translate, Command.ofSelect]
  simp only [hno, hjoins, htable, Bool.false_eq_true, ↓reduceIte]
  rw [clause_join_of hsource hcomparison hfields hitems (moved_columns_of _ _ _) hw.filter,
    hcommand]
  rfl

end

/-- The pipeline of a join gives the rows of the pairs that pass. -/
theorem joined_pipeline {schema : Value} {sql : String} {line : Nat} {q : Query} {j : Joining}
    {columns : List ColumnRef} (hparse : Sql.parse sql line = .ok q)
    (hcheck : (Check.check schema q.toValue).outcome = .ok ())
    (hq : JoinsTables schema j columns q) :
    ∃ command stages, Pipeline.command schema sql line = .ok command ∧
      command.entry "collection" = .ok (.text j.base) ∧
      command.entry "pipeline" = .ok (.list stages) ∧
      ∀ (e : Engine) (collections : String → List Entries),
        (∀ a ∈ collections j.base, RowOf schema j.base a) →
        (∀ b ∈ collections j.joined, RowOf schema j.joined b) →
        ∃ out, e.run collections stages (collections j.base) = some out ∧
          ShowsRows q out (pairRows j columns (pairPasses j q.condition?) collections) := by
  have hnamed := parse_named hparse
  obtain ⟨where?, hw⟩ := clause_selector (some (.text j.base)) hnamed.condition fun c hc =>
    compared_literal fun d hd => (hq.condition c hc d hd).imp fun _ hr => hr.1
  obtain ⟨string, htranslate⟩ := joining_command hnamed hq hw
  obtain ⟨subquery, haccepted⟩ := accepted_parts hcheck
  obtain ⟨on, hsource, -⟩ := hq.source
  have hone : ∀ c ∈ columns,
      ¬ (ColumnIn schema j.base c.name ∧ ColumnIn schema j.joined c.name) := by
    intro c hc
    exact selected_once hsource (hq.items ▸ List.mem_map_of_mem hc) haccepted.selected
  refine ⟨_, _, command_accepted hparse hcheck htranslate, rfl, rfl, ?_⟩
  intro e collections ha hb
  exact run_joining e collections hnamed hq hone hw ha hb

theorem pair_matches_passes {j : Joining} {condition? : Option Condition} {a b : Entries}
    (h : pairMatches j condition? a b = true) : pairPasses j condition? a b = true := by
  rw [pairMatches, Bool.and_eq_true] at h
  rw [pairPasses, Bool.and_eq_true, h.1]
  exact ⟨rfl, clause_true_or _ h.2⟩

/-- The rows of the pairs that pass are those of the join just if the pairs that pass match: there
are as many rows as pairs. -/
theorem pair_rows_iff (j : Joining) (columns : List ColumnRef) (condition? : Option Condition)
    (collections : String → List Entries) :
    pairRows j columns (pairPasses j condition?) collections =
        joinedRows j columns condition? collections ↔
      ∀ a ∈ collections j.base, ∀ b ∈ collections j.joined,
        pairPasses j condition? a b = true → pairMatches j condition? a b = true := by
  constructor
  · intro h a ha b hb
    have hlength := congrArg List.length h
    rw [joinedRows, pairRows, pairRows, List.length_map, List.length_map, pairs_of_all,
      pairs_of_all (pairMatches j condition?), ← List.countP_eq_length_filter,
      ← List.countP_eq_length_filter] at hlength
    have hall := (count_eq_iff (fun _ => pair_matches_passes) _).mp hlength.symm
    exact hall (a, b) (mem_pairs ha hb rfl)
  · intro h
    rw [joinedRows, pairRows, pairRows, pairs_congr fun a ha b hb =>
      Bool.eq_iff_iff.mpr ⟨h a ha b hb, pair_matches_passes⟩]

/-- The pipeline of a join gives its rows, with their multiplicity and in the order of the base
table, just if the pairs that pass match: a look-up finds `null` by `null`, and `null` passes a test
for difference, but in a statement neither is true. -/
theorem joined_rows_exact {schema : Value} {sql : String} {line : Nat} {q : Query} {j : Joining}
    {columns : List ColumnRef} (hparse : Sql.parse sql line = .ok q)
    (hcheck : (Check.check schema q.toValue).outcome = .ok ())
    (hq : JoinsTables schema j columns q) :
    ∃ command stages, Pipeline.command schema sql line = .ok command ∧
      command.entry "collection" = .ok (.text j.base) ∧
      command.entry "pipeline" = .ok (.list stages) ∧
      ∀ (e : Engine) (collections : String → List Entries),
        (∀ a ∈ collections j.base, RowOf schema j.base a) →
        (∀ b ∈ collections j.joined, RowOf schema j.joined b) →
        ∃ out, e.run collections stages (collections j.base) = some out ∧
          ShowsRows q out (pairRows j columns (pairPasses j q.condition?) collections) ∧
          (ShowsRows q out (joinedRows j columns q.condition? collections) ↔
            ∀ a ∈ collections j.base, ∀ b ∈ collections j.joined,
              pairPasses j q.condition? a b = true → pairMatches j q.condition? a b = true) := by
  obtain ⟨command, stages, hcommand, hcollection, hstages, hall⟩ :=
    joined_pipeline hparse hcheck hq
  refine ⟨command, stages, hcommand, hcollection, hstages, fun e collections ha hb => ?_⟩
  obtain ⟨out, hrun, hshows⟩ := hall e collections ha hb
  exact ⟨out, hrun, hshows, (shows_rows_iff hshows).trans (pair_rows_iff j columns _ collections)⟩

def salesSchema : Value :=
  doc [("users", doc [("id", .text "int"), ("city", .text "string")]),
    ("orders", doc [("user_id", .text "int"), ("amount", .text "int")])]

/-- The amounts above ten, with the city of the user. -/
def cityAmounts : Query :=
  ⟨.items (.column ⟨some "users", "city"⟩) [.column ⟨some "orders", "amount"⟩],
    .join "users" "orders" (.compare ⟨some "orders", "user_id"⟩ .eq (.column ⟨some "users", "id"⟩)),
    some (.compare ⟨some "orders", "amount"⟩ .gt (.literal (.number 10))), [], none, [], none⟩

def cityAmountsText : String :=
  "SELECT users.city, orders.amount FROM users JOIN orders ON orders.user_id = users.id " ++
    "WHERE orders.amount > 10;"

theorem city_amounts_joins : JoinsTables salesSchema ⟨"users", "id", "orders", "user_id"⟩
    [⟨some "users", "city"⟩, ⟨some "orders", "amount"⟩] cityAmounts where
  source := ⟨_, rfl, .joined⟩
  different := by decide
  items := rfl
  nonempty := by simp
  selected := by
    intro c hc
    rcases List.mem_pair.mp hc with rfl | rfl
    · exact ⟨"users", rfl, .inl rfl, _, rfl, rfl⟩
    · exact ⟨"orders", rfl, .inr rfl, _, rfl, rfl⟩
  condition := by
    intro c hc d hd
    cases hc
    obtain rfl := List.mem_singleton.mp hd
    exact ⟨_, rfl, "orders", rfl, .inr rfl, _, rfl, rfl⟩
  groupBy := rfl
  having := rfl
  orderBy := rfl
  limit := rfl
  no_column := by
    rintro ⟨_, ⟨⟩, ⟨⟩⟩

def user (id : Int) (city : String) : Entries := [(.text "id", .int id), (.text "city", .text city)]

def order (id amount : Int) : Entries :=
  [(.text "user_id", .int id), (.text "amount", .int amount)]

def sales (name : String) : List Entries :=
  if name = "users" then [user 1 "Rome", user 2 "Oslo"]
  else [order 2 50, order 1 20, order 1 5, order 1 30]

theorem sales_users {d : Entries} (hd : d ∈ sales "users") :
    RowOf salesSchema "users" d ∧ Entries.field d "id" ≠ .null := by
  obtain ⟨id, city, rfl⟩ : ∃ id city, d = user id city := by
    revert d
    simp [sales]
  exact ⟨two_column_row rfl .int .text (.inr rfl) (.inr rfl), Value.noConfusion⟩

theorem sales_orders {d : Entries} (hd : d ∈ sales "orders") : RowOf salesSchema "orders" d := by
  obtain ⟨id, amount, rfl⟩ : ∃ id amount, d = order id amount := by
    revert d
    simp [sales]
  exact two_column_row rfl .int .int (.inr rfl) (.inr rfl)

theorem joined_rows_sales :
    ∃ command stages, Pipeline.command salesSchema cityAmountsText 1 = .ok command ∧
      command.entry "pipeline" = .ok (.list stages) ∧
      ∀ e : Engine, ∃ out, e.run sales stages (sales "users") = some out ∧
        ShowsRows cityAmounts out [[.text "Rome", .int 20], [.text "Rome", .int 30],
          [.text "Oslo", .int 50]] := by
  have hparse : Sql.parse cityAmountsText 1 = .ok cityAmounts :=
    parse_lexemes (lexemes_scanned_append ⟨rfl, rfl⟩) rfl
  have hcheck : (Check.check salesSchema cityAmounts.toValue).outcome = .ok () := rfl
  obtain ⟨command, stages, hcommand, -, hstages, hall⟩ :=
    joined_rows_exact hparse hcheck city_amounts_joins
  refine ⟨command, stages, hcommand, hstages, fun e => ?_⟩
  obtain ⟨out, hrun, -, hshows⟩ := hall e sales (fun d hd => (sales_users hd).1)
    fun d hd => sales_orders hd
  have hpasses : ∀ a ∈ sales "users", ∀ b ∈ sales "orders",
      pairPasses ⟨"users", "id", "orders", "user_id"⟩ cityAmounts.condition? a b = true →
        pairMatches ⟨"users", "id", "orders", "user_id"⟩ cityAmounts.condition? a b = true := by
    decide
  exact ⟨out, hrun, hshows.mpr hpasses⟩

/-- The cities of the users with orders. -/
def orderCities : Query :=
  ⟨.items (.column ⟨some "users", "city"⟩) [],
    .join "users" "orders" (.compare ⟨some "users", "id"⟩ .eq (.column ⟨some "orders", "user_id"⟩)),
    none, [], none, [], none⟩

theorem order_cities_joins : JoinsTables salesSchema ⟨"users", "id", "orders", "user_id"⟩
    [⟨some "users", "city"⟩] orderCities where
  source := ⟨_, rfl, .base⟩
  different := by decide
  items := rfl
  nonempty := by simp
  selected := List.forall_mem_singleton.mpr ⟨"users", rfl, .inl rfl, _, rfl, rfl⟩
  condition c hc := by cases hc
  groupBy := rfl
  having := rfl
  orderBy := rfl
  limit := rfl
  no_column := by
    rintro ⟨_, ⟨⟩, ⟨⟩⟩

/-- A user whose number is not known, and an order whose user is not known. -/
def strangers (name : String) : List Entries :=
  if name = "users" then [[(.text "id", .null), (.text "city", .text "Rome")]]
  else [[(.text "user_id", .null), (.text "amount", .int 5)]]

/-- A user whose number is not known is joined to an order whose user is not known. -/
theorem strangers_joined :
    ¬ ∀ {schema command : Value} {sql : String} {line : Nat} {q : Query} {j : Joining}
      {columns : List ColumnRef} {stages : List Value},
      Schema.check schema = .ok () → Sql.parse sql line = .ok q →
      Pipeline.command schema sql line = .ok command → JoinsTables schema j columns q →
      command.entry "pipeline" = .ok (.list stages) →
      ∀ (e : Engine) (collections : String → List Entries),
        (∀ a ∈ collections j.base, RowOf schema j.base a) →
        (∀ b ∈ collections j.joined, RowOf schema j.joined b) →
        ∃ out, e.run collections stages (collections j.base) = some out ∧
          ShowsRows q out (joinedRows j columns q.condition? collections) := by
  intro hall
  have hparse :
      Sql.parse "SELECT users.city FROM users JOIN orders ON users.id = orders.user_id;" 1 =
        .ok orderCities := parse_spelled ⟨rfl, rfl⟩ rfl
  have hcheck : (Check.check salesSchema orderCities.toValue).outcome = .ok () := rfl
  obtain ⟨command, stages, hcommand, -, hstages, hpassed⟩ :=
    joined_pipeline hparse hcheck order_cities_joins
  have husers : ∀ a ∈ strangers "users", RowOf salesSchema "users" a :=
    List.forall_mem_singleton.mpr (two_column_row rfl .null .text (.inl rfl) (.inr rfl))
  have horders : ∀ b ∈ strangers "orders", RowOf salesSchema "orders" b :=
    List.forall_mem_singleton.mpr (two_column_row rfl .null .int (.inl rfl) (.inr rfl))
  obtain ⟨out, hrun, hshows⟩ := hall rfl hparse hcommand order_cities_joins hstages plainEngine
    strangers husers horders
  obtain ⟨out', hrun', hshows'⟩ := hpassed plainEngine strangers husers horders
  cases hrun.symm.trans hrun'
  have hsame := (shows_rows_iff hshows').mp hshows
  have hmatches := (pair_rows_iff _ _ _ strangers).mp hsame _ (List.mem_singleton_self _) _
    (List.mem_singleton_self _) rfl
  cases hmatches

end DocQuery.Proofs
