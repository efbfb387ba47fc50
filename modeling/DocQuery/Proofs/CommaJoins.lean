import DocQuery.Proofs.GroupedRows
import DocQuery.Proofs.JoinedRows
import DocQuery.Proofs.StageOrder

namespace DocQuery.Proofs

open Sql
open Number (Double)
open Value (doc)

/-- A comparison that is about columns of two tables. -/
def AboutTables (schema : Value) (base joined : String) : Condition → Prop
  | .compare c _ (.literal _) | .inList c _ _ => ColumnOf schema base joined c
  | .compare c _ (.column d) => ColumnOf schema base joined c ∧ ColumnOf schema base joined d
  | _ => False

/-- A statement on two tables whose condition compares columns that name their table. -/
structure ListsTables (schema : Value) (base joined : String) (w : Condition) (q : Query) :
    Prop where
  source : q.source = .tables base joined []
  different : base ≠ joined
  condition : q.condition? = some w
  columns : ∀ d ∈ comparisons w, AboutTables schema base joined d

/-- Whether two columns compare; `null` compares with nothing. -/
def relationTrue (r : Relation) (v : Value) : Value → Bool
  | .int n => comparisonTrue (.compare r (.int n)) v
  | .text s => comparisonTrue (.compare r (.text s)) v
  | .real y =>
    match v with
    | .int n => numbersRelated r (.ofInt n) y
    | .real x => numbersRelated r x y
    | .text _ => r = .ne
    | _ => false
  | _ => false

/-- Whether a comparison is true of a pair of rows. -/
def pairTrue (joined : String) (a b : Entries) : Condition → Bool
  | .compare c r (.column d) => relationTrue r (pairValue joined a b c) (pairValue joined a b d)
  | c => columnTrue (pairValue joined a b) c

/-- What a pair holds where its filter looks for a column: nothing, if this is one of the base
table. -/
def soughtValue (joined : String) (b : Entries) (c : ColumnRef) : Value :=
  if c.table? = some joined then Entries.field b c.name else .null

/-- Whether what is found for a column passes the test of a comparison with literals. -/
def literalPasses (value : ColumnRef → Value) : Condition → Bool
  | .compare c r (.literal l) => (FieldTest.compare r (scalarOf l)).holds (value c)
  | .inList c l ls => (FieldTest.among ((l :: ls).map scalarOf)).holds (value c)
  | _ => true

/-- What the stages for two tables ask of a pair of rows: that the columns of the first comparison
are equal, and that all tests with literals pass. -/
def joinPasses (base joined : String) (w : Condition) (a b : Entries) : Bool :=
  (columnParts w).head?.all (fun (c, _, d) =>
    equals (Entries.field a (joinKeys base c d).1) (Entries.field b (joinKeys base c d).2)) &&
  (filterParts w).all (literalPasses (soughtValue joined b))

/-- The command for two tables. -/
theorem comma_command {q : Query} {base joined : String} {w : Condition} {command : Value}
    (hsource : q.source = .tables base joined []) (hcondition : q.condition? = some w)
    (h : Command.commaJoin (some (textList [base, joined])) none (partsOf q) = .ok command) :
    ∃ c r d filter? columns shown string, (columnParts w).head? = some (c, r, d) ∧
      Command.conjunction (some (textList [base, joined]))
        ((filterParts w).map Condition.toValue) = .ok filter? ∧
      q.items.toValue.items = .ok columns ∧
      Command.joinColumns (Command.tableWith none (textList [base, joined])) (.text joined)
        columns = .ok shown ∧
      command = pipelineDocument string (.text base)
        (commaStages base joined c d filter? ++ [Command.projectStage shown]) := by
  obtain ⟨w', c, r, d, filter?, columns, shown, hw, hcolumns, hfilter, hitems, hshown, h⟩ :=
    comma_pipeline hsource h
  obtain rfl : w = w' := Option.some.inj (hcondition.symm.trans hw)
  obtain ⟨string, hcommand, -, -⟩ := pipeline_command_parts h
  exact ⟨c, r, d, filter?, columns, shown, string, hcolumns, hfilter, hitems, hshown, hcommand⟩

/-- A comparison with literals selects by the field that it tests. -/
theorem literal_holds {base? : Option Value} {d : Condition} {f : Value} (ht : Term d)
    (hl : isLiteral d = true) (h : Command.filter base? d.toValue = .ok f)
    (field : String → Value) :
    holds field f = (literalTest? base? d).all fun (name, t) => t.holds (field name) := by
  obtain ⟨name, t, hf, -, htests⟩ := filter_of_term base? ht hl
  have htest : literalTest? base? d = some (name, t) := by
    cases ht <;> exact Option.toList_eq_singleton_iff.mp htests
  obtain rfl : (Selector.field name t).toValue = f := Except.ok.inj (hf.symm.trans h)
  rw [holds_to_value, htest]
  rfl

theorem each_holds {base? : Option Value} {ds : List Condition} {fs : List Value}
    (hds : ∀ d ∈ ds, Term d ∧ isLiteral d = true)
    (h : List.Forall₂ (fun d f => Command.filter base? d.toValue = .ok f) ds fs)
    (field : String → Value) : fs.all (holds field) =
      ds.all fun d => (literalTest? base? d).all fun (name, t) => t.holds (field name) := by
  induction h with
  | nil => rfl
  | cons hf _ ih =>
    obtain ⟨⟨ht, hl⟩, hds⟩ := List.forall_mem_cons.mp hds
    rw [List.all_cons, List.all_cons, literal_holds ht hl hf field, ih hds]

/-- A conjunction selects what all its comparisons do. -/
theorem conjunction_holds {base? filter? : Option Value} {ds : List Condition}
    (hds : ∀ d ∈ ds, Term d ∧ isLiteral d = true)
    (h : Command.conjunction base? (ds.map Condition.toValue) = .ok filter?)
    (field : String → Value) :
    filter?.all (holds field) =
      ds.all fun d => (literalTest? base? d).all fun (name, t) => t.holds (field name) := by
  cases conjunction_cases h with
  | none => rfl
  | one hf =>
    obtain ⟨ht, hl⟩ := hds _ List.mem_cons_self
    simp [literal_holds ht hl hf field]
  | all hfs =>
    rw [← each_holds hds hfs]
    simp [doc, holds, holdsEntries, holds_all]

section

variable {schema : Value} {base joined : String}

theorem filter_parts_mem {w d : Condition} (h : d ∈ filterParts w) : d ∈ comparisons w := by
  match w with
  | .connect l _ r =>
    rcases List.mem_append.mp h with h | h
    · exact List.mem_append_left _ (filter_parts_mem h)
    · exact List.mem_append_right _ (filter_parts_mem h)
  | .compare _ _ (.column _) => cases h
  | .compare _ _ (.literal _) | .aggregate .. | .between .. | .inList .. | .inQuery .. => exact h

theorem filter_parts_literal {w : Condition} {c d : ColumnRef} {r : Relation} :
    .compare c r (.column d) ∉ filterParts w := by
  match w with
  | .connect x _ y =>
    intro h
    rcases List.mem_append.mp h with h | h
    · exact filter_parts_literal h
    · exact filter_parts_literal h
  | .compare _ _ (.column _) => exact List.not_mem_nil
  | .compare _ _ (.literal _) | .aggregate .. | .between .. | .inList .. | .inQuery .. =>
    exact fun h => nomatch List.mem_singleton.mp h

theorem column_parts_mem {w : Condition} {c d : ColumnRef} {r : Relation}
    (h : (c, r, d) ∈ columnParts w) : .compare c r (.column d) ∈ comparisons w := by
  match w with
  | .connect x _ y =>
    rcases List.mem_append.mp h with h | h
    · exact List.mem_append_left _ (column_parts_mem h)
    · exact List.mem_append_right _ (column_parts_mem h)
  | .compare _ _ (.column _) =>
    cases List.mem_singleton.mp h
    exact List.mem_singleton_self _
  | .compare _ _ (.literal _) | .aggregate .. | .between .. | .inList .. | .inQuery .. => cases h

/-- A column of the base table is not found in a pair, since its name has the table in front. -/
theorem sought_field (hne : base ≠ joined) {a : Entries} (ha : ∀ name, Atom (Entries.field a name))
    (b : Entries) {c : ColumnRef} (hn : NamedColumn c) (hc : ColumnOf schema base joined c) :
    fieldAt (pairDocument joined (a, b)) (columnField (some (textList [base, joined])) c) =
      soughtValue joined b c := by
  obtain ⟨t, ht, hor, -⟩ := hc
  have hname := hn.2 t ht
  have hempty : t ≠ "" := by
    rintro rfl
    obtain ⟨x, xs, hx, -⟩ := hname
    cases hx
  have hlist : (Value.text t).same (textList [base, joined]) = false := rfl
  have hfield : columnField (some (textList [base, joined])) c = t ++ "." ++ c.name := by
    simp [columnField, ht, hempty, hlist]
  rw [hfield, soughtValue, ht]
  rcases hor with rfl | rfl
  · rw [if_neg (by simpa using hne), fieldAt, fieldAt?, path_names_dotted hname.no_dot hn.1.no_dot,
      valueAt, pairDocument, get_put, if_neg hne.symm]
    cases hget : Entries.get? a (.text t) with
    | none => rfl
    | some v =>
      have hatom := ha t
      rw [field_of_get hget] at hatom
      cases hatom <;> rfl
  · have hinner : Entries.get? (pairDocument t (a, b)) (.text t) = some (.dict b) := by
      rw [pairDocument, get_put, if_pos rfl]
    rw [if_pos rfl, fieldAt, field_at_dotted hname.no_dot hn.1.no_dot hinner]
    rfl

/-- The filter of a pair passes what its comparisons with literals pass. -/
theorem filter_passes {w : Condition} (hne : base ≠ joined) (hcomb : Comb w)
    (hcolumns : ∀ d ∈ comparisons w, AboutTables schema base joined d) {filter? : Option Value}
    (h : Command.conjunction (some (textList [base, joined]))
      ((filterParts w).map Condition.toValue) = .ok filter?) {a : Entries}
    (ha : ∀ name, Atom (Entries.field a name)) (b : Entries) :
    filter?.all (holds (fieldAt (pairDocument joined (a, b)))) =
      (filterParts w).all (literalPasses (soughtValue joined b)) := by
  have hpart : ∀ d ∈ filterParts w, (Term d ∧ isLiteral d = true) ∧
      ((literalTest? (some (textList [base, joined])) d).all fun (name, t) =>
        t.holds (fieldAt (pairDocument joined (a, b)) name)) =
          literalPasses (soughtValue joined b) d := by
    intro d hd
    have hterm := comb_leaf hcomb d (filter_parts_mem hd)
    have habout := hcolumns d (filter_parts_mem hd)
    match d with
    | .compare c r (.literal l) =>
      have hn := compared_named hterm rfl
      refine ⟨⟨hterm, rfl⟩, ?_⟩
      simp only [literalTest?, Option.all_some, literalPasses, sought_field hne ha b hn habout]
    | .inList c l ls =>
      have hn := compared_named hterm rfl
      refine ⟨⟨hterm, rfl⟩, ?_⟩
      simp only [literalTest?, Option.all_some, literalPasses, sought_field hne ha b hn habout]
    | .compare c r (.column x) => exact absurd hd filter_parts_literal
    | .aggregate .. | .between .. | .inQuery .. | .connect .. => exact habout.elim
  rw [conjunction_holds (fun d hd => (hpart d hd).1) h]
  rw [Bool.eq_iff_iff, List.all_eq_true, List.all_eq_true]
  exact forall₂_congr fun d hd => by rw [(hpart d hd).2]

/-- The stages before the projection leave the pairs that pass. -/
theorem run_comma (e : Engine) (collections : String → List Entries) {w : Condition}
    (hne : base ≠ joined) (hcomb : Comb w)
    (hcolumns : ∀ d ∈ comparisons w, AboutTables schema base joined d) {c d : ColumnRef}
    {r : Relation} (hfirst : (columnParts w).head? = some (c, r, d)) {filter? : Option Value}
    (h : Command.conjunction (some (textList [base, joined]))
      ((filterParts w).map Condition.toValue) = .ok filter?)
    (ha : ∀ a ∈ collections base, RowOf schema base a) :
    e.run collections (commaStages base joined c d filter?) (collections base) =
      some ((matchingPairs (joinPasses base joined w) (collections base)
        (collections joined)).map (pairDocument joined)) := by
  obtain ⟨hc, hd⟩ : NamedColumn c ∧ NamedColumn d := by
    cases comb_leaf hcomb _ (column_parts_mem (List.mem_of_head? hfirst)) with
    | compare hl hr => exact ⟨hl, hr d rfl⟩
  have hkeys : NoDot (joinKeys base c d).1 ∧ NoDot (joinKeys base c d).2 := by
    unfold joinKeys
    split
    · exact ⟨hc.1.no_dot, hd.1.no_dot⟩
    · exact ⟨hd.1.no_dot, hc.1.no_dot⟩
  have hpairs := run_pairs e collections
    ⟨base, (joinKeys base c d).1, joined, (joinKeys base c d).2⟩ (collections base)
  rw [commaStages, run_append, hpairs, Option.bind_some, run_filter, List.filter_map, pairs_filter]
  refine congrArg (fun ps => some (ps.map (pairDocument joined))) (pairs_congr ?_)
  intro a hma b _
  rw [joinPasses, hfirst, field_at_field a hkeys.1, field_at_field b hkeys.2, Option.all_some]
  exact congrArg (_ && ·) (filter_passes hne hcomb hcolumns h (ha a hma).plain b)

end

/-- Lists that are told apart by a view have equal views of their parts only if the parts are
equal. -/
theorem filter_view_perm {α γ : Type} {xs : List α} {p r : α → Bool} {view : α → γ}
    (hr : ∀ x ∈ xs, ∀ y ∈ xs, view x = view y → r x = r y)
    (h : ((xs.filter p).map view).Perm ((xs.filter r).map view)) : ∀ x ∈ xs, p x = r x := by
  have hsub : ∀ x ∈ xs, p x = true → r x = true := by
    intro x hx hp
    have hmem := h.subset (List.mem_map_of_mem (List.mem_filter.mpr ⟨hx, hp⟩))
    obtain ⟨y, hy, hview⟩ := List.mem_map.mp hmem
    obtain ⟨hy, hry⟩ := List.mem_filter.mp hy
    exact (hr y hy x hx hview).symm.trans hry
  have hboth : (xs.filter r).filter p = xs.filter p := by
    rw [List.filter_filter]
    refine List.filter_congr fun x hx => ?_
    cases hp : p x with
    | false => rfl
    | true => rw [hsub x hx hp]; rfl
  have hlength : ((xs.filter r).filter p).length = (xs.filter r).length := by
    rw [hboth]
    simpa using h.length_eq
  have heq := List.filter_sublist.eq_of_length hlength
  intro x hx
  cases hrx : r x with
  | true =>
    have hmem : x ∈ (xs.filter r).filter p := by
      rw [heq]
      exact List.mem_filter.mpr ⟨hx, hrx⟩
    exact (List.mem_filter.mp hmem).2
  | false =>
    cases hpx : p x with
    | false => rfl
    | true =>
      rw [hsub x hx hpx] at hrx
      cases hrx

/-- What is held in the columns of two tables. -/
abbrev ColumnsOf (schema : Value) (base joined : String) : Type :=
  ({c // ColumnIn schema base c} → Option Value) ×
    ({c // ColumnIn schema joined c} → Option Value)

section

variable (schema : Value) (base joined : String)

def pairColumns (p : Entries × Entries) : ColumnsOf schema base joined :=
  (fun c => Entries.get? p.1 (.text c.1), fun c => Entries.get? p.2 (.text c.1))

/-- A column of the base table is found under its name, one of the joined table below the name of
the table. -/
def documentColumns (d : Entries) : ColumnsOf schema base joined :=
  (fun c => valueAt (.dict d) [c.1], fun c => valueAt (.dict d) [joined, c.1])

/-- The pairs of rows of which a condition is true. -/
def truePairs (w : Condition) (collections : String → List Entries) : List (Entries × Entries) :=
  matchingPairs (fun a b => truthBy (pairTrue joined a b) w) (collections base) (collections joined)

/-- Documents correspond one to one to the pairs of rows of which a condition is true. -/
def Corresponds (w : Condition) (collections : String → List Entries) (docs : List Entries) :
    Prop :=
  (docs.map (documentColumns schema base joined)).Perm
    ((truePairs base joined w collections).map (pairColumns schema base joined))

end

theorem truth_congr {w : Condition} {leaf leaf' : Condition → Bool}
    (h : ∀ d ∈ comparisons w, leaf d = leaf' d) : truthBy leaf w = truthBy leaf' w := by
  match w with
  | .connect l _ r =>
    have hl := truth_congr fun d hd => h d (List.mem_append_left _ hd)
    have hr := truth_congr fun d hd => h d (List.mem_append_right _ hd)
    rw [truthBy, truthBy, hl, hr]
  | .compare .. | .aggregate .. | .between .. | .inList .. | .inQuery .. =>
    exact h _ (List.mem_singleton_self _)

section

variable {schema : Value} {base joined : String}

theorem pair_value_columns (hne : base ≠ joined) {p p' : Entries × Entries}
    (h : pairColumns schema base joined p = pairColumns schema base joined p') {c : ColumnRef}
    (hc : ColumnOf schema base joined c) :
    pairValue joined p.1 p.2 c = pairValue joined p'.1 p'.2 c := by
  obtain ⟨t, ht, rfl | rfl, hcolumn⟩ := hc
  · have hget : Entries.get? p.1 (.text c.name) = Entries.get? p'.1 (.text c.name) :=
      congrFun (congrArg Prod.fst h) ⟨c.name, hcolumn⟩
    rw [pairValue, pairValue, ht, if_neg (by simpa using hne), if_neg (by simpa using hne),
      Entries.field, Entries.field, hget]
  · have hget : Entries.get? p.2 (.text c.name) = Entries.get? p'.2 (.text c.name) :=
      congrFun (congrArg Prod.snd h) ⟨c.name, hcolumn⟩
    rw [pairValue, pairValue, if_pos ht, if_pos ht, Entries.field, Entries.field, hget]

/-- Whether a condition is true depends on the columns alone. -/
theorem truth_columns (hne : base ≠ joined) {w : Condition}
    (hcolumns : ∀ d ∈ comparisons w, AboutTables schema base joined d) {p p' : Entries × Entries}
    (h : pairColumns schema base joined p = pairColumns schema base joined p') :
    truthBy (pairTrue joined p.1 p.2) w = truthBy (pairTrue joined p'.1 p'.2) w := by
  refine truth_congr fun d hd => ?_
  have habout := hcolumns d hd
  match d with
  | .compare c r (.literal l) =>
    simp only [pairTrue, columnTrue, pair_value_columns hne h habout]
  | .inList c l ls =>
    simp only [pairTrue, columnTrue, pair_value_columns hne h habout]
  | .compare c r (.column x) =>
    simp only [pairTrue, pair_value_columns hne h habout.1, pair_value_columns hne h habout.2]
  | .aggregate .. | .between .. | .inQuery .. | .connect .. => exact habout.elim

/-- A pair keeps all columns, unless one of the base table is called as the joined table. -/
theorem document_columns (hno : ¬ ColumnIn schema base joined) (p : Entries × Entries) :
    documentColumns schema base joined (pairDocument joined p) =
      pairColumns schema base joined p := by
  refine Prod.ext (funext fun ⟨c, hc⟩ => ?_) (funext fun ⟨c, hc⟩ => ?_)
  · have hname : joined ≠ c := fun he => hno (he ▸ hc)
    simp only [documentColumns, pairColumns, valueAt, pairDocument, get_put, if_neg hname]
    cases Entries.get? p.1 (.text c) <;> rfl
  · simp only [documentColumns, pairColumns, valueAt, pairDocument, get_put, if_pos,
      Option.bind_some]
    cases Entries.get? p.2 (.text c) <;> rfl

theorem about_no_query {w : Condition}
    (h : ∀ d ∈ comparisons w, AboutTables schema base joined d) : asksQuery w = false := by
  match w with
  | .connect l _ r =>
    have hl := about_no_query fun d hd => h d (List.mem_append_left _ hd)
    have hr := about_no_query fun d hd => h d (List.mem_append_right _ hd)
    rw [asksQuery, hl, hr]
    rfl
  | .inQuery .. => exact (h _ (List.mem_singleton_self _)).elim
  | .compare .. | .aggregate .. | .between .. | .inList .. => rfl

theorem pairs_empty {α β : Type} {related : α → β → Bool} {as : List α} {bs : List β}
    (h : matchingPairs related as bs = []) {a : α} {b : β} (ha : a ∈ as) (hb : b ∈ bs) :
    related a b = false := by
  cases hab : related a b with
  | false => rfl
  | true =>
    have hmem := mem_pairs ha hb hab
    rw [h] at hmem
    cases hmem

/-- The joined rows stand where a column with the name of their table was. -/
theorem overwritten_column (hcolumn : ColumnIn schema base joined) {w : Condition}
    {collections : String → List Entries} (ha : ∀ a ∈ collections base, RowOf schema base a)
    {pairs : List (Entries × Entries)}
    (h : Corresponds schema base joined w collections (pairs.map (pairDocument joined))) :
    pairs = [] := by
  rw [List.eq_nil_iff_forall_not_mem]
  intro p hp
  have hmem := h.subset (List.mem_map_of_mem (List.mem_map_of_mem hp))
  obtain ⟨p', hp', hview⟩ := List.mem_map.mp hmem
  have hget : Entries.get? p'.1 (.text joined) = some (.dict p.2) := by
    have hfirst := congrFun (congrArg Prod.fst hview) ⟨joined, hcolumn⟩
    simpa [pairColumns, documentColumns, valueAt, pairDocument, get_put] using hfirst
  have hatom := (ha _ (pairs_mem hp').1).plain joined
  rw [field_of_get hget] at hatom
  cases hatom

/-- The documents of the pairs that pass correspond to those of which the condition is true just if
these are the same, and no column is hidden. -/
theorem corresponds_pairs (hne : base ≠ joined) {w : Condition}
    (hcolumns : ∀ d ∈ comparisons w, AboutTables schema base joined d)
    {collections : String → List Entries} (ha : ∀ a ∈ collections base, RowOf schema base a)
    (related : Entries → Entries → Bool) :
    Corresponds schema base joined w collections
        ((matchingPairs related (collections base) (collections joined)).map
          (pairDocument joined)) ↔
      (∀ a ∈ collections base, ∀ b ∈ collections joined,
        related a b = truthBy (pairTrue joined a b) w) ∧
      (ColumnIn schema base joined →
        matchingPairs related (collections base) (collections joined) = []) := by
  constructor
  · intro h
    refine ⟨?_, fun hcolumn => overwritten_column hcolumn ha h⟩
    by_cases hcolumn : ColumnIn schema base joined
    · have hnone := overwritten_column hcolumn ha h
      have htrue : truePairs base joined w collections = [] := by
        rw [hnone] at h
        exact List.map_eq_nil_iff.mp h.nil_eq.symm
      intro a hma b hmb
      rw [pairs_empty hnone hma hmb, pairs_empty htrue hma hmb]
    · rw [Corresponds, List.map_map, truePairs, pairs_of_all related,
        pairs_of_all (fun a b => truthBy (pairTrue joined a b) w)] at h
      have hview : documentColumns schema base joined ∘ pairDocument joined =
        pairColumns schema base joined := funext fun p => document_columns hcolumn p
      rw [hview] at h
      intro a hma b hmb
      have hmem : (a, b) ∈ matchingPairs (fun _ _ => true) (collections base)
        (collections joined) := mem_pairs hma hmb rfl
      have htruth : ∀ p p', pairColumns schema base joined p = pairColumns schema base joined p' →
          truthBy (pairTrue joined p.1 p.2) w = truthBy (pairTrue joined p'.1 p'.2) w :=
        fun _ _ => truth_columns hne hcolumns
      exact filter_view_perm (fun p _ p' _ => htruth p p') h (a, b) hmem
  · rintro ⟨hsame, hhidden⟩
    have hpairs : matchingPairs related (collections base) (collections joined) =
        truePairs base joined w collections := pairs_congr hsame
    rw [Corresponds, ← hpairs, List.map_map]
    by_cases hcolumn : ColumnIn schema base joined
    · rw [hhidden hcolumn]
      exact .refl _
    · have hview : documentColumns schema base joined ∘ pairDocument joined =
        pairColumns schema base joined := funext fun p => document_columns hcolumn p
      rw [hview]

end

/-- The documents that the stages for two tables leave correspond one to one to the pairs of rows
of which the condition is true exactly if the pairs that pass are the true ones, and no column of
the base table is hidden by the joined rows. -/
theorem comma_join_exact {schema command : Value} {sql : String} {line : Nat} {q : Query}
    {base joined : String} {w : Condition} (hparse : Sql.parse sql line = .ok q)
    (hcommand : Pipeline.command schema sql line = .ok command)
    (hq : ListsTables schema base joined w q) :
    ∃ c d filter? shown, command.entry "collection" = .ok (.text base) ∧
      command.entry "pipeline" =
        .ok (.list (commaStages base joined c d filter? ++ [Command.projectStage shown])) ∧
      ∀ (e : Engine) (collections : String → List Entries),
        (∀ a ∈ collections base, RowOf schema base a) →
        ∃ docs, e.run collections (commaStages base joined c d filter?) (collections base) =
            some docs ∧
          (Corresponds schema base joined w collections docs ↔
            (∀ a ∈ collections base, ∀ b ∈ collections joined,
              joinPasses base joined w a b = truthBy (pairTrue joined a b) w) ∧
            (ColumnIn schema base joined → docs = [])) := by
  obtain ⟨q', hq', -, htranslate⟩ := command_stages hcommand
  obtain rfl : q = q' := Except.ok.inj (hparse.symm.trans hq')
  have hcomb := parse_comb hparse hq.condition
  have hno : q.condition?.any asksQuery = false := by
    rw [hq.condition, Option.any_some]
    exact about_no_query hq.columns
  rw [translate_of, hno, hq.source] at htranslate
  obtain ⟨c, r, d, filter?, -, shown, string, hfirst, hfilter, -, -, rfl⟩ :=
    comma_command hq.source hq.condition htranslate
  refine ⟨c, d, filter?, shown, rfl, rfl, fun e collections ha => ⟨_,
    run_comma e collections hq.different hcomb hq.columns hfirst hfilter ha, ?_⟩⟩
  rw [corresponds_pairs hq.different hq.columns ha, List.map_eq_nil_iff]

/-- Whether AND is the only connective of a condition. -/
def isConjunction : Condition → Bool
  | .connect l w r =>
    Keyword.ofWord? w.toList == some .andWord && isConjunction l && isConjunction r
  | _ => true

/-- All parts of a conjunction have to be true. -/
theorem conjunction_true {w : Condition} (h : isConjunction w = true) (leaf : Condition → Bool) :
    truthBy leaf w = (((columnParts w).all fun (c, r, d) => leaf (.compare c r (.column d))) &&
      (filterParts w).all leaf) := by
  match w with
  | .connect l w r =>
    simp only [isConjunction, Bool.and_eq_true, beq_iff_eq] at h
    obtain ⟨⟨hw, hl⟩, hr⟩ := h
    rw [truthBy, if_pos hw, conjunction_true hl, conjunction_true hr, columnParts, filterParts,
      List.all_append, List.all_append]
    simp only [Bool.and_assoc, Bool.and_left_comm]
  | .compare c r (.column d) => simp [truthBy, columnParts, filterParts]
  | .compare c r (.literal l) => simp [truthBy, columnParts, filterParts]
  | .aggregate .. | .between .. | .inList .. | .inQuery .. =>
    simp [truthBy, columnParts, filterParts]

theorem relation_equal {v w : Value} (hv : Atom v) (hw : Atom w) :
    relationTrue .eq v w = columnsEqual v w := by
  cases hv <;> cases hw <;> rw [Bool.eq_iff_iff] <;>
    simp [relationTrue, comparisonTrue, columnsEqual, FieldTest.accepts, literalRelated]

/-- A column of each table, in either order. -/
def Opposite (base joined : String) (c d : ColumnRef) : Prop :=
  c.table? = some base ∧ d.table? = some joined ∨ c.table? = some joined ∧ d.table? = some base

/-- One equality of columns, one of each table, and tests of the joined table, all joined by AND. -/
structure PlainJoin (base joined : String) (c d : ColumnRef) (w : Condition) : Prop where
  conjunction : isConjunction w = true
  columns : columnParts w = [(c, .eq, d)]
  opposite : Opposite base joined c d
  tests : ∀ x ∈ filterParts w, ∃ r, comparedColumn? x = some r ∧ r.table? = some joined

theorem numbers_same_comm (x y : Double) : x.same y = y.same x := by
  cases x with
  | finite a m e =>
    cases y with
    | finite b n k =>
      have hpow : ∀ x i, x * Double.pow2 i = 0 ↔ x = 0 := by
        intro x i
        have hpos : 0 < Double.pow2 i := Nat.two_pow_pos _
        rw [Nat.mul_eq_zero, or_iff_left hpos.ne']
      -- Of two equal numbers both are zero or none is, so that the signs count for both or none.
      have hzero : m * Double.pow2 (e - k) = n * Double.pow2 (k - e) → (m = 0 ↔ n = 0) := by
        intro h
        rw [← hpow m (e - k), h, hpow]
      rw [Bool.eq_iff_iff]
      simp only [Double.same, Bool.and_eq_true, Bool.or_eq_true, beq_iff_eq]
      constructor
      · rintro ⟨h, hsign⟩
        exact ⟨h.symm, hsign.imp (hzero h).mp Eq.symm⟩
      · rintro ⟨h, hsign⟩
        exact ⟨h.symm, hsign.imp (hzero h.symm).mpr Eq.symm⟩
    | _ => rfl
  | infinite a =>
    cases y with
    | infinite b => exact BEq.comm
    | _ => rfl
  | nan => cases y <;> rfl

theorem columns_equal_comm (v w : Value) : columnsEqual v w = columnsEqual w v := by
  cases v <;> cases w <;> simp [columnsEqual, numbersRelated, numbers_same_comm, BEq.comm]

section

variable {base joined : String} {c d : ColumnRef} {a b : Entries}

theorem pair_atom (ha : ∀ name, Atom (Entries.field a name))
    (hb : ∀ name, Atom (Entries.field b name)) (r : ColumnRef) : Atom (pairValue joined a b r) := by
  rw [pairValue]
  split
  · exact hb _
  · exact ha _

theorem keys_equal (hne : base ≠ joined) (h : Opposite base joined c d)
    (ha : ∀ name, Atom (Entries.field a name)) (hb : ∀ name, Atom (Entries.field b name))
    (hkeys : Entries.field a (joinKeys base c d).1 ≠ .null ∨
      Entries.field b (joinKeys base c d).2 ≠ .null) :
    equals (Entries.field a (joinKeys base c d).1) (Entries.field b (joinKeys base c d).2) =
      pairTrue joined a b (.compare c .eq (.column d)) := by
  rw [columns_equal (ha _) (hb _) hkeys, pairTrue,
    relation_equal (pair_atom ha hb c) (pair_atom ha hb d)]
  rcases h with ⟨hc, hd⟩ | ⟨hc, hd⟩
  · rw [joinKeys, if_pos hc, pairValue, pairValue, if_pos hd, if_neg (by simpa [hc] using hne)]
  · have hbase : c.table? ≠ some base := by simpa [hc] using hne.symm
    rw [joinKeys, if_neg hbase, pairValue, pairValue, if_pos hc,
      if_neg (by simpa [hd] using hne), columns_equal_comm]

/-- A test of the joined table passes where it is true, but for `null` in a test for difference. -/
theorem test_passes (ha : ∀ name, Atom (Entries.field a name))
    (hb : ∀ name, Atom (Entries.field b name)) {w x : Condition} (hx : x ∈ filterParts w)
    (htest : ∃ r, comparedColumn? x = some r ∧ r.table? = some joined)
    (hnull : ∀ r ∈ unequalColumns w, pairValue joined a b r ≠ .null) :
    literalPasses (soughtValue joined b) x = pairTrue joined a b x := by
  obtain ⟨r, hr, hjoined⟩ := htest
  have hsought : soughtValue joined b r = pairValue joined a b r := by
    rw [soughtValue, pairValue, if_pos hjoined, if_pos hjoined]
  cases x with
  | compare e s y =>
    cases y with
    | column f => cases hr
    | literal l =>
      cases hr
      rw [literalPasses, hsought, pairTrue, columnTrue]
      · refine (comparison_holds (pair_atom ha hb r) fun v hv => ?_).symm
        cases hv
        exact hnull r (unequal_leaf (filter_parts_mem hx))
      · simp
  | inList e l ls =>
    cases hr
    rw [literalPasses, hsought, pairTrue, columnTrue]
    · exact (comparison_holds (pair_atom ha hb r) (by simp)).symm
    · simp
  | between e low high =>
    cases hr
    cases hjoined
  | aggregate => cases hr
  | inQuery => cases hr
  | connect => cases hr

/-- Two tables joined as usual: the pairs that pass are the true ones. -/
theorem plain_join_passes (hne : base ≠ joined) {w : Condition} (h : PlainJoin base joined c d w)
    (ha : ∀ name, Atom (Entries.field a name)) (hb : ∀ name, Atom (Entries.field b name))
    (hkeys : Entries.field a (joinKeys base c d).1 ≠ .null ∨
      Entries.field b (joinKeys base c d).2 ≠ .null)
    (hnull : ∀ r ∈ unequalColumns w, pairValue joined a b r ≠ .null) :
    joinPasses base joined w a b = truthBy (pairTrue joined a b) w := by
  have htests : (filterParts w).all (literalPasses (soughtValue joined b)) =
      (filterParts w).all (pairTrue joined a b) := by
    rw [Bool.eq_iff_iff, List.all_eq_true, List.all_eq_true]
    exact forall₂_congr fun x hx => by rw [test_passes ha hb hx (h.tests x hx) hnull]
  have hequal := keys_equal hne h.opposite ha hb hkeys
  rw [joinPasses, conjunction_true h.conjunction, h.columns, htests]
  simp [hequal]

end

def listedAmountsText : String :=
  "SELECT users.city, orders.amount FROM users, orders WHERE orders.user_id = users.id " ++
    "AND orders.amount > 10;"

def listedCondition : Condition :=
  .connect (.compare ⟨some "orders", "user_id"⟩ .eq (.column ⟨some "users", "id"⟩)) "AND"
    (.compare ⟨some "orders", "amount"⟩ .gt (.literal (.number 10)))

/-- The cities of users and the amounts of orders that a condition joins. -/
def listedAmounts (w : Condition) : Query :=
  ⟨.items (.column ⟨some "users", "city"⟩) [.column ⟨some "orders", "amount"⟩],
    .tables "users" "orders" [], some w, [], none, [], none⟩

theorem users_id : ColumnOf salesSchema "users" "orders" ⟨some "users", "id"⟩ :=
  ⟨"users", rfl, .inl rfl, _, rfl, rfl⟩

theorem users_city : ColumnOf salesSchema "users" "orders" ⟨some "users", "city"⟩ :=
  ⟨"users", rfl, .inl rfl, _, rfl, rfl⟩

theorem orders_user : ColumnOf salesSchema "users" "orders" ⟨some "orders", "user_id"⟩ :=
  ⟨"orders", rfl, .inr rfl, _, rfl, rfl⟩

theorem orders_amount : ColumnOf salesSchema "users" "orders" ⟨some "orders", "amount"⟩ :=
  ⟨"orders", rfl, .inr rfl, _, rfl, rfl⟩

theorem listed_tables : ListsTables salesSchema "users" "orders" listedCondition
    (listedAmounts listedCondition) where
  source := rfl
  different := by decide
  condition := rfl
  columns := by
    intro d hd
    rcases List.mem_pair.mp hd with rfl | rfl
    · exact ⟨orders_user, users_id⟩
    · exact orders_amount

theorem listed_plain : PlainJoin "users" "orders" ⟨some "orders", "user_id"⟩ ⟨some "users", "id"⟩
    listedCondition where
  conjunction := rfl
  columns := rfl
  opposite := .inr ⟨rfl, rfl⟩
  tests := by
    intro x hx
    obtain rfl := List.mem_singleton.mp hx
    exact ⟨_, rfl, rfl⟩

theorem comma_join_amounts :
    Sql.parse listedAmountsText 1 = .ok (listedAmounts listedCondition) ∧
      ListsTables salesSchema "users" "orders" listedCondition (listedAmounts listedCondition) ∧
      ∃ command stages shown, Pipeline.command salesSchema listedAmountsText 1 = .ok command ∧
        command.entry "pipeline" = .ok (.list (stages ++ [Command.projectStage shown])) ∧
        ∀ e : Engine, ∃ docs, e.run sales stages (sales "users") = some docs ∧
          Corresponds salesSchema "users" "orders" listedCondition sales docs := by
  have hparse : Sql.parse listedAmountsText 1 = .ok (listedAmounts listedCondition) :=
    parse_lexemes (lexemes_scanned_append ⟨rfl, rfl⟩) rfl
  obtain ⟨tree, command, htree, htranslate⟩ : ∃ tree command,
      Pipeline.check salesSchema (listedAmounts listedCondition).toValue = .ok tree ∧
        Pipeline.translate tree = .ok command := ⟨_, _, rfl, rfl⟩
  have hcommand := command_of_stages hparse htree htranslate
  obtain ⟨c, d, filter?, shown, -, hpipeline, hall⟩ :=
    comma_join_exact hparse hcommand listed_tables
  refine ⟨hparse, listed_tables, command, commaStages "users" "orders" c d filter?, shown, hcommand,
    hpipeline, fun e => ?_⟩
  obtain ⟨docs, hrun, hiff⟩ := hall e sales fun a ha => (sales_users ha).1
  refine ⟨docs, hrun, hiff.mpr ⟨fun a ha b hb => ?_, ?_⟩⟩
  · exact plain_join_passes (by decide) listed_plain (sales_users ha).1.plain
      (sales_orders hb).plain (.inl (sales_users ha).2) (fun r hr => by cases hr)
  · rintro ⟨_, ⟨⟩, ⟨⟩⟩

def romeCondition : Condition :=
  .connect (.compare ⟨some "users", "id"⟩ .eq (.column ⟨some "orders", "user_id"⟩)) "AND"
    (.compare ⟨some "users", "city"⟩ .eq (.literal (.text "Rome")))

theorem rome_tables : ListsTables salesSchema "users" "orders" romeCondition
    (listedAmounts romeCondition) where
  source := rfl
  different := by decide
  condition := rfl
  columns := by
    intro d hd
    rcases List.mem_pair.mp hd with rfl | rfl
    · exact ⟨users_id, orders_user⟩
    · exact users_city

/-- The orders from Rome are lost, since the city is looked for in a document of users. -/
theorem comma_join_loses :
    ¬ ∀ {schema command : Value} {sql : String} {line : Nat} {q : Query} {base joined : String}
      {w : Condition} {c d : ColumnRef} {filter? : Option Value} {shown : Entries},
      Schema.check schema = .ok () → Sql.parse sql line = .ok q →
      Pipeline.command schema sql line = .ok command → ListsTables schema base joined w q →
      command.entry "pipeline" =
        .ok (.list (commaStages base joined c d filter? ++ [Command.projectStage shown])) →
      ∀ (e : Engine) (collections : String → List Entries),
        (∀ a ∈ collections base, RowOf schema base a) →
        (∀ b ∈ collections joined, RowOf schema joined b) →
        ∃ docs, e.run collections (commaStages base joined c d filter?) (collections base) =
            some docs ∧
          Corresponds schema base joined w collections docs := by
  intro hall
  have hparse : Sql.parse ("SELECT users.city, orders.amount FROM users, orders " ++
      "WHERE users.id = orders.user_id AND users.city = 'Rome';") 1 =
        .ok (listedAmounts romeCondition) := parse_lexemes (lexemes_scanned_append ⟨rfl, rfl⟩) rfl
  obtain ⟨tree, command, shown, htree, htranslate, hpipeline⟩ : ∃ tree command shown,
      Pipeline.check salesSchema (listedAmounts romeCondition).toValue = .ok tree ∧
        Pipeline.translate tree = .ok command ∧
        command.entry "pipeline" = .ok (.list (commaStages "users" "orders"
          ⟨some "users", "id"⟩ ⟨some "orders", "user_id"⟩
          (some (doc [("users.city", .text "Rome")])) ++ [Command.projectStage shown])) :=
    ⟨_, _, _, rfl, rfl, rfl⟩
  have hrows : ∀ a ∈ sales "users", RowOf salesSchema "users" a := fun a ha => (sales_users ha).1
  obtain ⟨docs, hdocs, hcorresponds⟩ := hall rfl hparse
    (command_of_stages hparse htree htranslate) rome_tables hpipeline plainEngine sales hrows
    fun b hb => sales_orders hb
  have hfilter : Command.conjunction (some (textList ["users", "orders"]))
      ((filterParts romeCondition).map Condition.toValue) =
        .ok (some (doc [("users.city", .text "Rome")])) := rfl
  rw [run_comma plainEngine sales rome_tables.different (parse_comb hparse rfl)
    rome_tables.columns rfl hfilter hrows] at hdocs
  cases hdocs
  have hsame := ((corresponds_pairs rome_tables.different rome_tables.columns hrows _).mp
    hcorresponds).1 (user 1 "Rome") (by simp [sales]) (order 1 20) (by simp [sales])
  exact absurd hsame (by decide)

end DocQuery.Proofs
