import DocQuery.Command.Text
import DocQuery.Proofs.JoinedPlaces
import DocQuery.Proofs.PrintedFilters
import DocQuery.Proofs.QuotedForms

namespace DocQuery.Proofs

open Sql
open Value (doc)

/-- A value that can be read, whatever its texts and keys are. -/
abbrev Legible : Value → Prop := Readable (fun _ => True) (fun _ => True)

theorem legible_hereditary : Hereditary Legible where
  null := .null
  text _ := .text trivial
  small n hn := by
    refine .int ?_
    rw [Nat.toDigits_of_lt_base (by omega)]
    exact (by decide : 1 ≤ Text.maxDigits)
  list := .list
  dict h := by
    refine .dict (fun e he => ?_) h.values h.nodup
    obtain ⟨k, hk⟩ := h.keys e he
    exact ⟨k, hk, trivial⟩

theorem literal_legible {l : Sql.Literal} (h : Writable (literalLexeme l)) : Legible l.toValue := by
  cases l with
  | number n => exact .int h
  | text s => exact .text trivial

theorem ref_legible (c : ColumnRef) : Legible c.toValue := by
  have htable : Legible (optionalText c.table?) := by
    cases c.table? with
    | none => exact .null
    | some t => exact .text trivial
  have hfields : ∀ f ∈ [("table", optionalText c.table?), ("column", .text c.name)],
      Legible f.2 := by
    simpa using ⟨htable, .text trivial⟩
  exact legible_hereditary.put_all hfields

theorem operand_legible {x : Operand} (h : AllWritable (operandLexemes x)) : Legible x.toValue := by
  cases x with
  | column c => exact ref_legible c
  | literal l => exact literal_legible (h _ List.mem_cons_self)

/-- A test other than a range is made of the value that is compared. -/
theorem document_legible {t : Command.Test} {name : String} {v f : Value} (hv : Legible v)
    (ht : t ≠ .between) (h : t.document (.text name) v = .ok f) : Legible f := by
  cases t with
  | eq =>
    cases h
    exact @Hereditary.entry _ legible_hereditary name v hv
  | between => exact absurd rfl ht
  | _ =>
    cases h
    exact @Hereditary.entry _ legible_hereditary name _ (legible_hereditary.entry hv)

theorem comparison_legible {base? : Option Value} {i v f : Value} {r : Relation} {name : String}
    (hi : Command.fieldOf base? i = .ok (.text name)) (hv : Legible v)
    (h : Command.filter base? (.comparison i r.toValue v) = .ok f) : Legible f := by
  obtain ⟨t, ht, hf⟩ := comparison_document hi h
  exact document_legible hv (relation_test ht).2 hf

/-- The filter of a condition that can be written can be read. -/
theorem filter_legible {base? : Option Value} {f : Value} (c : Condition)
    (hw : AllWritable (conditionLexemes c)) (h : Command.filter base? c.toValue = .ok f) :
    Legible f := by
  cases c with
  | compare c r x =>
    simp only [conditionLexemes, all_writable_append, all_writable_cons] at hw
    rw [Condition.toValue] at h
    exact comparison_legible (field_of_ref base? c) (operand_legible hw.2.2) h
  | aggregate a r l =>
    simp only [conditionLexemes, all_writable_append, all_writable_cons] at hw
    rw [Condition.toValue] at h
    exact comparison_legible (field_of_aggregate base? a) (literal_legible hw.2.2.1) h
  | between c low high =>
    simp only [conditionLexemes, all_writable_cons] at hw
    obtain ⟨-, -, hlow, -, hhigh, -⟩ := hw
    rw [Condition.toValue] at h
    obtain rfl := Except.ok.inj (h.symm.trans rfl)
    have hbounds : ∀ f ∈ [("$gte", low.toValue), ("$lte", high.toValue)], Legible f.2 := by
      simpa using ⟨literal_legible hlow, literal_legible hhigh⟩
    exact @Hereditary.entry _ legible_hereditary c _ (legible_hereditary.put_all hbounds)
  | inList c l ls =>
    simp only [conditionLexemes, all_writable_append, all_writable_cons] at hw
    obtain ⟨⟨⟨-, -, -, hl, -⟩, hls⟩, -⟩ := hw
    have hmembers : ∀ m ∈ l :: ls, Legible m.toValue := by
      refine List.forall_mem_cons.mpr ⟨literal_legible hl, fun m hm => ?_⟩
      exact literal_legible (hls _ (List.mem_flatMap.mpr ⟨m, hm, by simp⟩))
    rw [Condition.toValue] at h
    simp only [Command.filter, field_of_ref, command_lift, ok_bind] at h
    obtain rfl := Except.ok.inj (h.symm.trans rfl)
    exact legible_hereditary.entry
      (legible_hereditary.entry (.list (List.forall_mem_map.mpr hmembers)))
  | inQuery c q =>
    rw [Condition.toValue] at h
    simp only [Command.filter, field_of_ref, command_lift, ok_bind] at h
    cases h
  | connect l w r =>
    simp only [conditionLexemes, all_writable_append, all_writable_cons] at hw
    rw [Condition.toValue, Command.filter] at h
    simp only [bind_ok] at h
    obtain ⟨left, hleft, right, hright, key, -, hx⟩ := h
    cases hx
    have hl := filter_legible l hw.1 hleft
    have hr := filter_legible r hw.2.2 hright
    exact legible_hereditary.entry (.list (by simpa using ⟨hl, hr⟩))

theorem match_legible {filter? : Option Value} (h : ∀ f, filter? = some f → Legible f) :
    ∀ s ∈ (filter?.map Command.matchStage).toList, Legible s := by
  intro s hs
  obtain ⟨f, hf, rfl⟩ : ∃ f, filter? = some f ∧ Command.matchStage f = s := by simpa using hs
  exact legible_hereditary.entry (h f hf)

theorem clause_legible {base? f? : Option Value} {k : Keyword} {c? : Option Condition}
    (hw : AllWritable (clauseLexemes k c?)) (h : ClauseFilter base? c? f?) :
    ∀ s ∈ (f?.map Command.matchStage).toList, Legible s := by
  apply match_legible
  cases h with
  | none => simp
  | @some f c hf =>
    intro g hg
    cases hg
    exact filter_legible c (all_writable_cons.mp hw).2 hf

theorem filter_parts_writable {c : Condition} (h : AllWritable (conditionLexemes c)) :
    ∀ d ∈ filterParts c, AllWritable (conditionLexemes d) := by
  cases c with
  | connect l w r =>
    simp only [conditionLexemes, all_writable_append, all_writable_cons] at h
    rw [filterParts]
    intro d hd
    rcases List.mem_append.mp hd with hd | hd
    · exact filter_parts_writable h.1 d hd
    · exact filter_parts_writable h.2.2 d hd
  | compare c r x =>
    cases x with
    | column d => simp [filterParts]
    | literal l => simpa [filterParts] using h
  | _ => simpa [filterParts] using h

theorem related_left {α β : Type} {R : α → β → Prop} {xs : List α} {ys : List β} {y : β}
    (h : List.Forall₂ R xs ys) (hy : y ∈ ys) : ∃ x ∈ xs, R x y := by
  induction h with
  | nil => cases hy
  | @cons x _ _ _ hxy _ ih =>
    rcases List.mem_cons.mp hy with rfl | hy
    · exact ⟨x, List.mem_cons_self, hxy⟩
    · obtain ⟨z, hz, hzy⟩ := ih hy
      exact ⟨z, List.mem_cons_of_mem x hz, hzy⟩

/-- The filter of all conditions at once can be read. -/
theorem conjunction_legible {base? filter? : Option Value} {cs : List Condition}
    (hw : ∀ c ∈ cs, AllWritable (conditionLexemes c))
    (h : Command.conjunction base? (cs.map Condition.toValue) = .ok filter?) :
    ∀ s ∈ (filter?.map Command.matchStage).toList, Legible s := by
  apply match_legible
  rintro f rfl
  cases conjunction_cases h with
  | one hf => exact filter_legible _ (hw _ List.mem_cons_self) hf
  | all hfs =>
    refine legible_hereditary.entry (.list fun g hg => ?_)
    obtain ⟨c, hc, hg⟩ := related_left hfs hg
    exact filter_legible c (hw c hc) hg

/-- A command made of stages that can be read and of a collection whose name is a word. -/
def RunsLegible (command : Value) : Prop :=
  ∃ collection stages, Command.pipelineCommand collection stages = .ok command ∧
    (∀ t, collection = .text t → IsName t) ∧ ∀ s ∈ stages, Legible s

section Statements
variable {q : Query} {command : Value}

theorem group_legible {base? : Option Value} (hnamed : Named q)
    (hw : AllWritable (statementLexemes q))
    (h : Command.groupCommand base? (partsOf q) = .ok command) : RunsLegible command := by
  have hparts := writable_parts hw
  obtain ⟨where?, having?, hwhere, hh, hcommand⟩ := group_command_filters h
  have hbound : ∀ n : Nat, q.limit? = some n → Legible (.int n) := by
    intro n hn
    have hlimit := hparts.limit
    rw [hn, limitLexemes, all_writable_cons, all_writable_cons] at hlimit
    exact .int hlimit.2.1
  exact ⟨_, _, hcommand, fun t ht => named_table hnamed.source ht,
    legible_hereditary.group_stages q hbound (clause_legible hparts.condition hwhere)
      (clause_legible hparts.having hh)⟩

theorem clause_join_legible {base joined : String} {on : Condition} (hnamed : Named q)
    (hw : AllWritable (statementLexemes q)) (hsource : q.source = .join base joined on)
    (hno : q.condition?.any asksQuery = false)
    (h : Command.translate q.toValue = .ok command) : RunsLegible command := by
  obtain ⟨c, r, d, rfl⟩ := clause_columns hsource hno h
  obtain ⟨where?, hwhere, -⟩ := clause_filter (some (.text base)) hnamed.condition
    fun c hc => by rwa [hc] at hno
  rw [clause_pipeline hsource hno hwhere, command_lift_ok] at h
  refine ⟨_, _, h, fun t ht => ?_,
    legible_hereditary.join_stages _ _ (clause_legible (writable_parts hw).condition hwhere)⟩
  refine named_table hnamed.source ?_
  rw [hsource, ← ht]
  rfl

theorem comma_join_legible {base joined : String} {more : List String} (hnamed : Named q)
    (hw : AllWritable (statementLexemes q)) (hsource : q.source = .tables base joined more)
    (h : Command.commaJoin (some (textList (base :: joined :: more))) none (partsOf q) =
      .ok command) : RunsLegible command := by
  have hbase : IsName base := by
    have hnames := hnamed.source
    rw [hsource] at hnames
    exact hnames base List.mem_cons_self
  obtain ⟨w, c, r, d, filter?, columns, shown, hc, -, hfilter, hitems, hshown, h⟩ :=
    comma_pipeline hsource h
  have hparts := filter_parts_writable (clause_writable (writable_parts hw).condition hc)
  have hfilters := conjunction_legible hparts hfilter
  refine ⟨_, _, h, fun t ht => Value.text.inj ht ▸ hbase, fun s hs => ?_⟩
  rcases List.mem_append.mp hs with hs | hs
  · rcases List.mem_append.mp hs with hs | hs
    · rcases List.mem_pair.mp hs with rfl | rfl
      · exact legible_hereditary.lookup _ _ _
      · exact legible_hereditary.unwind _
    · exact hfilters s hs
  · obtain rfl := List.mem_singleton.mp hs
    cases hq : q.items with
    | all =>
      -- A star names no table, and which table has a column of this name is not known.
      rw [hq] at hitems
      cases hitems
      cases hshown
    | items x xs =>
      rw [hq] at hitems
      obtain rfl : (x :: xs).map SelectItem.toValue = columns := Except.ok.inj hitems
      rw [join_columns_of, List.map_map] at hshown
      obtain rfl := Except.ok.inj hshown
      exact legible_hereditary.shown (namedPath joined) _

theorem plain_legible {columns : List Value} {shown : Entries}
    (hcolumns : (partsOf q).columns.items = .ok columns)
    (hshown : columns.foldlM Command.showPlain [] = .ok shown) :
    Legible (Command.projectStage shown) := by
  have hlist : (partsOf q).columns = q.items.toValue := rfl
  rw [hlist] at hcolumns
  cases hitems : q.items with
  | all =>
    rw [hitems] at hcolumns
    cases hcolumns
    cases hshown
    exact @Hereditary.shown _ legible_hereditary String id ["*"]
  | items x xs =>
    rw [hitems] at hcolumns
    obtain rfl : (x :: xs).map SelectItem.toValue = columns := Except.ok.inj hcolumns
    have hskip : ∀ state a, Command.showPlain state (Aggregate.toValue a) = .ok state := by
      intro state a
      cases a <;> rfl
    rw [fold_plain hskip, show_plain_of] at hshown
    obtain rfl := Except.ok.inj hshown
    exact legible_hereditary.shown ColumnRef.name _

theorem subquery_legible {c : Condition} (hnamed : Named q) (hc : q.condition? = some c)
    (hasks : asksQuery c = true) (h : Command.subqueryCommand (partsOf q) = .ok command) :
    RunsLegible command := by
  have hcondition : (partsOf q).condition = c.toValue := by simp [partsOf, hc, optionalCondition]
  obtain ⟨x, inner, t, a, more, columns, shown, -, -, -, hcolumns, hshown, h⟩ :=
    subquery_pipeline hcondition hasks h
  refine ⟨_, _, h, fun t ht => named_table hnamed.source ht, fun s hs => ?_⟩
  rcases List.mem_append.mp hs with hs | hs
  · exact legible_hereditary.member_stages ⟨t, x.name, t, a.name⟩ s hs
  · split at hs
    · cases hs
    · obtain rfl := List.mem_singleton.mp hs
      exact plain_legible hcolumns hshown

/-- A pipeline for a parsed statement can be read. -/
theorem statement_legible {stages : Value} (hnamed : Named q)
    (hw : AllWritable (statementLexemes q)) (h : Command.translate q.toValue = .ok command)
    (hpipeline : command.entry "pipeline" = .ok stages) : RunsLegible command := by
  cases hasks : q.condition?.any asksQuery with
  | true =>
    obtain ⟨c, hc, hc'⟩ := Option.any_eq_true _ _ |>.mp hasks
    rw [translate_of, hasks, if_pos rfl, command_lift_ok] at h
    exact subquery_legible hnamed hc hc' h
  | false =>
    cases hs : q.source with
    | join a b on => exact clause_join_legible hnamed hw hs hasks h
    | tables a b more =>
      rw [translate_of, hasks, hs] at h
      exact comma_join_legible hnamed hw hs h
    | table a =>
      rw [translate_of, hasks, hs] at h
      cases hgroups : groupsRows q with
      | true =>
        rw [hgroups] at h
        exact group_legible hnamed hw h
      | false =>
        rw [hgroups] at h
        exact absurd hpipeline (find_no_pipeline h stages)

end Statements

/-- A call ends at the first parenthesis, so it does not start before its method. -/
theorem no_call_before {method before rest : List Char} (hmethod : '(' ∉ method)
    (hbefore : '(' ∉ before) (hsome : before ≠ []) :
    ¬ (method ++ ['(']).isPrefixOf (before ++ (method ++ '(' :: rest)) = true := by
  have hplain : ∀ cs : List Char, '(' ∉ cs → ∀ more,
      (cs ++ '(' :: more).takeWhile (· != '(') = cs := by
    intro cs hcs more
    refine take_while_all (fun c hc => ?_) (by simp)
    simpa using fun h : c = '(' => hcs (h ▸ hc)
  intro hcall
  obtain ⟨more, hmore⟩ := List.isPrefixOf_iff_prefix.mp hcall
  have hsame : method ++ '(' :: more = before ++ method ++ '(' :: rest := by simpa using hmore
  have hshort := hplain method hmethod more
  have hlong := hplain (before ++ method) (by simp [hbefore, hmethod]) rest
  rw [hsame, hlong] at hshort
  have hlength := congrArg List.length hshort
  have hpositive := List.length_pos_of_ne_nil hsome
  rw [List.length_append] at hlength
  omega

theorem call_skipped {method before rest : List Char} (hmethod : '(' ∉ method)
    (hbefore : '(' ∉ before) : Command.argumentsIn method id (before ++ (method ++ '(' :: rest)) =
      Command.argumentsIn method id (method ++ '(' :: rest) := by
  induction before with
  | nil => rfl
  | cons c before ih =>
    have hno := @no_call_before method (c :: before) rest hmethod hbefore (List.cons_ne_nil c _)
    rw [List.cons_append] at hno ⊢
    rw [Command.argumentsIn, if_neg hno]
    exact ih fun hmem => hbefore (List.mem_cons_of_mem c hmem)

theorem up_to_close (args : List Char) : Command.upToClose (args ++ [')']) = some args := by
  simp [Command.upToClose]

theorem call_arguments (method args : List Char) :
    Command.argumentsIn method id (method ++ '(' :: (args ++ [')'])) = some args := by
  obtain ⟨c, cs, htext⟩ : ∃ c cs, method ++ '(' :: (args ++ [')']) = c :: cs :=
    List.exists_cons_of_ne_nil (by simp)
  have hcall : (method ++ ['(']).isPrefixOf (method ++ '(' :: (args ++ [')'])) = true :=
    List.isPrefixOf_iff_prefix.mpr ⟨args ++ [')'], by simp⟩
  have hdrop : (method ++ '(' :: (args ++ [')'])).drop (method ++ ['(']).length =
      args ++ [')'] := by
    have hsplit : method ++ '(' :: (args ++ [')']) = method ++ ['('] ++ (args ++ [')']) := by simp
    rw [hsplit, List.drop_left]
  rw [htext] at hcall hdrop ⊢
  rw [Command.argumentsIn, if_pos hcall, hdrop, id, up_to_close]

theorem pipeline_text_chars (name shown : String) : (Command.pipelineText name shown).toList =
    'd' :: 'b' :: '.' :: (name.toList ++ '.' :: ("aggregate".toList ++
      '(' :: (shown.toList ++ [')']))) := by
  have htext : Command.pipelineText name shown = "db." ++ name ++ ".aggregate(" ++ shown ++ ")" :=
    rfl
  rw [htext]
  simp

/-- The collection and the arguments are found in the text of a command. -/
theorem pipeline_text_parts {name : String} (hname : IsName name) (shown : String) :
    Command.collectionIn "aggregate".toList (Command.pipelineText name shown).toList =
        some name.toList ∧
      Command.argumentsIn "aggregate".toList id (Command.pipelineText name shown).toList =
        some shown.toList := by
  have hword : ∀ c ∈ name.toList, Text.isWord c = true :=
    fun c hc => word_part_word (hname.parts c hc)
  have hparen : '(' ∉ name.toList := fun hc => absurd (hname.parts _ hc) (by decide)
  rw [pipeline_text_chars]
  constructor
  · have hstop : ∀ d, ('.' :: ("aggregate".toList ++ '(' :: (shown.toList ++ [')']))).head? =
        some d → Text.isWord d = false := by
      intro d hd
      cases hd
      rfl
    have hsome : name.toList.isEmpty = false := by simpa using hname.ne_empty
    have hat : Command.collectionAt "aggregate".toList ('d' :: 'b' :: '.' :: (name.toList ++
        '.' :: ("aggregate".toList ++ '(' :: (shown.toList ++ [')'])))) = some name.toList := by
      simp only [Command.collectionAt, take_while_all hword hstop, drop_while_all hword hstop,
        hsome]
      simp [List.isPrefixOf]
    rw [Command.collectionIn, hat]
  · have hskip := @call_skipped "aggregate".toList ('d' :: 'b' :: '.' :: (name.toList ++ ['.']))
      (shown.toList ++ [')']) (by decide) (by simpa using hparen)
    rw [call_arguments] at hskip
    simpa using hskip

/-- The text of a pipeline command is simplified as its stages are. -/
theorem simplify_text_of {name shown : String} {stages : List Value} (hname : IsName name)
    (hread : Literal.read shown.toList = .ok (.list stages)) :
    Command.simplifyPipelineText (Command.pipelineText name shown) = (do
      let moved ← Command.filtersFirst (.list stages)
      return Command.pipelineText name (← (Value.list moved).str)) := by
  obtain ⟨hcollection, harguments⟩ := pipeline_text_parts hname shown
  simp only [Command.simplifyPipelineText, hcollection, harguments, hread, String.ofList_toList]

/-- The collection and the stages of a pipeline for a parsed statement are read back from its text,
and simplifying the text gives the text of the simplified command. -/
theorem pipeline_text_agrees {sql name : String} {line : Nat} {q : Query} {command : Value}
    {stages : List Value} (hparse : Sql.parse sql line = .ok q)
    (h : Command.translate q.toValue = .ok command)
    (hpipeline : command.entry "pipeline" = .ok (.list stages))
    (hcollection : command.entry "collection" = .ok (.text name)) :
    ∃ string args simple text, command.entry "string" = .ok (.text string) ∧
      Command.collectionIn "aggregate".toList string.toList = some name.toList ∧
      Command.argumentsIn "aggregate".toList id string.toList = some args ∧
      Literal.read args = .ok (.list stages) ∧
      Command.simplify command = .ok simple ∧ simple.entry "string" = .ok (.text text) ∧
      Command.simplifyPipelineText string = .ok text := by
  have hw := parse_writable hparse
  obtain ⟨collection, stages', hcommand, hnamed, hlegible⟩ :=
    statement_legible (parse_named hparse) hw h hpipeline
  obtain ⟨string, collection₀, stages₀, rfl, -, -, hstages, -⟩ := statement_stages h hpipeline
  cases hpipeline
  cases hcollection
  simp only [Command.pipelineCommand, bind_ok] at hcommand
  obtain ⟨name', hname, shown, hshown, hx⟩ := hcommand
  cases hx
  cases hname
  -- The stages are printed, and so are the moved ones.
  obtain ⟨shown', hshown', hread⟩ := read_literal (.list hlegible)
  obtain rfl : shown' = shown := Except.ok.inj (hshown'.symm.trans (map_error_ok.mp hshown))
  obtain ⟨hcollection, harguments⟩ := pipeline_text_parts (hnamed _ rfl) shown'
  have hmoved := filters_first_stages hstages
  obtain ⟨text, htext⟩ : Succeeds (Value.list (withFiltersFirst stages)).str := by
    obtain ⟨text, htext, -⟩ := read_literal (v := .list (withFiltersFirst stages))
      (.list fun s hs => hlegible s (filters_first_mem.mp hs))
    exact map_error_succeeds.mpr ⟨text, htext⟩
  refine ⟨_, shown'.toList,
    pipelineDocument (Command.pipelineText name text) (.text name) (withFiltersFirst stages),
    Command.pipelineText name text, rfl, hcollection, harguments, hread, ?_, rfl, ?_⟩
  · rw [simplify_moved, hmoved, ok_bind, pipeline_command_text _ (str_text name) htext]
    rfl
  · rw [simplify_text_of (hnamed _ rfl) hread, hmoved, ok_bind, htext]
    rfl

/-- The users of a city whose name has a quote and a backslash in it. -/
def oddCity : Query :=
  ⟨.items (.column ⟨none, "city"⟩) [.aggregate .countAll], .table "users",
    some (.compare ⟨none, "city"⟩ .eq (.literal (.text "a\"\\b"))), ["city"], none, [], none⟩

def oddCityText : String :=
  "SELECT city, COUNT(*) FROM users WHERE city = 'a\"\\b' GROUP BY city;"

theorem pipeline_text_agrees_odd :
    Sql.parse oddCityText 1 = .ok oddCity ∧ ∃ command stages string args simple text,
      Command.translate oddCity.toValue = .ok command ∧
      command.entry "pipeline" = .ok (.list stages) ∧
      command.entry "collection" = .ok (.text "users") ∧
      command.entry "string" = .ok (.text string) ∧
      Command.collectionIn "aggregate".toList string.toList = some "users".toList ∧
      Command.argumentsIn "aggregate".toList id string.toList = some args ∧
      Literal.read args = .ok (.list stages) ∧
      Command.simplify command = .ok simple ∧ simple.entry "string" = .ok (.text text) ∧
      Command.simplifyPipelineText string = .ok text := by
  have hparse : Sql.parse oddCityText 1 = .ok oddCity := parse_spelled ⟨rfl, rfl⟩ rfl
  obtain ⟨command, stages, htranslate, hstages, hcollection⟩ : ∃ command stages,
      Command.translate oddCity.toValue = .ok command ∧
        command.entry "pipeline" = .ok (.list stages) ∧
        command.entry "collection" = .ok (.text "users") := ⟨_, _, rfl, rfl, rfl⟩
  obtain ⟨string, args, simple, text, hagrees⟩ :=
    pipeline_text_agrees hparse htranslate hstages hcollection
  exact ⟨hparse, command, stages, string, args, simple, text, htranslate, hstages, hcollection,
    hagrees⟩

end DocQuery.Proofs
