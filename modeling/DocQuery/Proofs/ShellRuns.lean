import DocQuery.Transpiler
import DocQuery.Proofs.BatchedStatements

namespace DocQuery.Proofs

open Shell

theorem trim_leading {c : Char} (hc : Text.isBlank c = true) (cs : List Char) :
    Text.trim (c :: cs) = Text.trim cs := by
  simp [Text.trim, Text.dropBlanks, hc]

theorem trim_trailing {c : Char} (hc : Text.isBlank c = true) (cs : List Char) :
    Text.trim (cs ++ [c]) = Text.trim cs := by
  have hlast : ∀ xs, dropLastBlanks (xs ++ [c]) = dropLastBlanks xs := by
    intro xs
    rw [last_blanks_append]
    exact if_pos (by simp [dropLastBlanks, Text.dropBlanks, hc])
  change dropLastBlanks (Text.dropBlanks (cs ++ [c])) = dropLastBlanks (Text.dropBlanks cs)
  rw [Text.dropBlanks, Text.dropBlanks, List.dropWhile_append]
  split
  · rename_i hnone
    rw [List.isEmpty_iff.mp hnone, List.dropWhile_cons, if_pos hc]
    rfl
  · exact hlast _

/-- What a statement is made of, from a part of a text between semicolons. -/
def partStatement (part : List Char) : Option String :=
  if (Text.trim part).isEmpty then none else some (String.ofList (Text.trim part ++ [';']))

theorem part_statement_congr {part part' : List Char} (h : Text.trim part = Text.trim part') :
    partStatement part = partStatement part' := by
  rw [partStatement, partStatement, h]

/-- The statements of a text without comments. -/
def partStatements (cs : List Char) : List String :=
  (Batch.splitAtSemicolons cs).filterMap partStatement

theorem blank_ne {c d : Char} (hc : Text.isBlank c = true) (hd : Text.isBlank d = false) :
    c ≠ d := by
  rintro rfl
  rw [hc] at hd
  cases hd

theorem part_statements_leading {c : Char} (hc : Text.isBlank c = true) (cs : List Char) :
    partStatements (c :: cs) = partStatements cs := by
  obtain ⟨part, parts, hsplit, -⟩ := split_parts cs
  have hcons : Batch.splitAtSemicolons (c :: cs) = (c :: part) :: parts := by
    rw [Batch.splitAtSemicolons, hsplit]
    exact if_neg (blank_ne hc rfl)
  rw [partStatements, partStatements, hcons, hsplit, List.filterMap_cons, List.filterMap_cons,
    part_statement_congr (trim_leading hc part)]

/-- A character at the end of a text is the last one of its last part. -/
theorem split_append {c : Char} (hc : c ≠ ';') (cs : List Char) : ∃ parts part,
    Batch.splitAtSemicolons cs = parts ++ [part] ∧
      Batch.splitAtSemicolons (cs ++ [c]) = parts ++ [part ++ [c]] := by
  induction cs with
  | nil => exact ⟨[], [], rfl, if_neg hc⟩
  | cons d cs ih =>
    obtain ⟨parts, part, hsplit, happend⟩ := ih
    rw [List.cons_append, Batch.splitAtSemicolons, Batch.splitAtSemicolons, hsplit, happend]
    by_cases hd : d = ';'
    · refine ⟨[] :: parts, part, ?_, ?_⟩ <;> cases parts <;> simp [hd]
    · cases parts with
      | nil => exact ⟨[], d :: part, by simp [hd], by simp [hd]⟩
      | cons first parts => exact ⟨(d :: first) :: parts, part, by simp [hd], by simp [hd]⟩

theorem part_statements_trailing {c : Char} (hc : Text.isBlank c = true) (cs : List Char) :
    partStatements (cs ++ [c]) = partStatements cs := by
  obtain ⟨parts, part, hsplit, happend⟩ := split_append (blank_ne hc rfl) cs
  have hpart : partStatement (part ++ [c]) = partStatement part :=
    part_statement_congr (trim_trailing hc part)
  rw [partStatements, partStatements, hsplit, happend, List.filterMap_append, List.filterMap_append]
  simp only [List.filterMap_cons, List.filterMap_nil, hpart]

theorem drop_comments_leading {c : Char} (hc : Text.isBlank c = true) (cs : List Char) :
    Batch.dropComments false (c :: cs) = c :: Batch.dropComments false cs := by
  rw [Batch.dropComments]
  · split
    · rfl
    · exact if_neg (by decide)
  · exact fun _ hdash _ => blank_ne hc rfl hdash

/-- White space at the end of a text goes only with a comment. -/
theorem drop_comments_trailing {c : Char} (hc : Text.isBlank c = true) (inComment : Bool)
    (cs : List Char) : Batch.dropComments inComment (cs ++ [c]) = Batch.dropComments inComment cs ∨
      Batch.dropComments inComment (cs ++ [c]) = Batch.dropComments inComment cs ++ [c] := by
  fun_induction Batch.dropComments inComment cs with
  | case1 inComment =>
    cases inComment with
    | false => exact .inr (drop_comments_leading hc [])
    | true =>
      by_cases hline : c = '\n'
      · exact .inr (by rw [hline]; rfl)
      · exact .inl (by simp [Batch.dropComments, hline])
  | case2 _ cs ih => simpa [Batch.dropComments] using ih
  | case3 d cs hd ih => simpa [Batch.dropComments, hd] using ih
  | case4 _ _ tail _ ih => simpa [Batch.dropComments] using ih
  | case5 inComment d cs hd hopen hne ih =>
    rw [Bool.not_eq_true] at hopen
    subst hopen
    -- The last character is no dash, so it makes no comment of `d`.
    have hrest : Batch.dropComments false (d :: (cs ++ [c])) =
        d :: Batch.dropComments false (cs ++ [c]) := by
      rw [Batch.dropComments, if_neg hd, if_neg (by decide)]
      intro tail hdash hcs
      cases cs with
      | nil => exact blank_ne hc rfl (List.cons.inj hcs).1
      | cons e es => exact hne es hdash (by rw [(List.cons.inj hcs).1])
    rcases ih with hgone | hkept
    · exact .inl (hrest.trans (congrArg (d :: ·) hgone))
    · exact .inr (hrest.trans (congrArg (d :: ·) hkept))

theorem statements_leading (blanks cs : List Char) (h : ∀ c ∈ blanks, Text.isBlank c = true) :
    Batch.statements (String.ofList (blanks ++ cs)) = Batch.statements (String.ofList cs) := by
  induction blanks with
  | nil => rfl
  | cons c blanks ih =>
    obtain ⟨hc, hblanks⟩ := List.forall_mem_cons.mp h
    rw [← ih hblanks, Batch.statements, Batch.statements, String.toList_ofList,
      String.toList_ofList, List.cons_append, drop_comments_leading hc]
    exact part_statements_leading hc _

theorem statements_trailing (cs blanks : List Char) (h : ∀ c ∈ blanks, Text.isBlank c = true) :
    Batch.statements (String.ofList (cs ++ blanks)) = Batch.statements (String.ofList cs) := by
  -- From the end: the last character is dropped with a comment, or kept and trimmed.
  induction blanks using List.reverseRecOn with
  | nil => rw [List.append_nil]
  | append_singleton blanks c ih =>
    obtain ⟨hblanks, hc⟩ := List.forall_mem_append.mp h
    have hblank := hc c (List.mem_singleton_self c)
    rw [← ih hblanks, Batch.statements, Batch.statements, String.toList_ofList,
      String.toList_ofList, ← List.append_assoc]
    rcases drop_comments_trailing hblank false (cs ++ blanks) with hgone | hkept
    · rw [hgone]
    · rw [hkept]
      exact part_statements_trailing hblank _

/-- White space around a text is no part of its statements. -/
theorem statements_strip (text : String) :
    Batch.statements (Text.strip text) = Batch.statements text := by
  have hblank : ∀ cs : List Char, ∀ c ∈ cs.takeWhile Text.isBlank, Text.isBlank c = true :=
    fun _ _ => List.mem_takeWhile_imp
  have hstart := statements_leading _ (Text.dropBlanks text.toList) (hblank text.toList)
  rw [Text.dropBlanks, List.takeWhile_append_dropWhile, String.ofList_toList] at hstart
  have hend := statements_trailing (Text.trim text.toList)
    ((Text.dropBlanks text.toList).reverse.takeWhile Text.isBlank).reverse
    (fun c hc => hblank _ c (List.mem_reverse.mp hc))
  rw [Text.trim, Text.dropBlanks, ← List.reverse_append, List.takeWhile_append_dropWhile,
    List.reverse_reverse] at hend
  exact hend.symm.trans hstart.symm

/-- A file that holds a schema: a JSON value other than `null`. -/
def HoldsSchema (files : Files) (path : String) (v : Value) : Prop :=
  Schema.readJson files path = .ok v ∧ v ≠ .null

theorem read_exists {files : Files} {path : String} {v : Value}
    (h : Schema.readJson files path = .ok v) : files.exists_ path = true := by
  cases hlocate : files.locate path with
  | ok file => simp [Files.exists_, Files.find?, hlocate, Except.toOption]
  | error e =>
    have hread : files.read path = .error e := by rw [Files.read, hlocate]; rfl
    rw [Schema.readJson, hread] at h
    cases h

theorem schema_in_iff {files : Files} {path : String} {v : Value} :
    (schemaIn files path).1 = some v ↔ HoldsSchema files path v := by
  constructor
  · intro h
    cases hread : Schema.readJson files path with
    | error e =>
      have hnone : (schemaIn files path).1 = none := by
        rw [schemaIn, hread]
        split
        · rfl
        · cases e with
          | file e => rfl
          | json e => cases e <;> rfl
      rw [hnone] at h
      cases h
    | ok w =>
      rw [schemaIn, read_exists hread, hread] at h
      cases w <;> cases h <;> exact ⟨hread, Value.noConfusion⟩
  · rintro ⟨hread, hnull⟩
    rw [schemaIn, read_exists hread, hread]
    cases v with
    | null => exact absurd rfl hnull
    | _ => rfl

/-- A line that asks for the schema in a file. -/
def AsksFor (line path : String) : Prop :=
  ∃ rest, Text.strip line = ":set schema " ++ rest ∧ path = Text.strip rest

/-- A line that ends the shell. -/
def EndsShell (line : String) : Prop :=
  Text.lower (Text.strip line) = "exit" ∨ Text.lower (Text.strip line) = "quit"

/-- A line for the transpiler: one that is not for the shell itself. -/
structure ForTranspiler (line : String) : Prop where
  not_blank : Text.strip line ≠ ""
  stays : ¬EndsShell line
  not_show : Text.strip line ≠ ":show schema"
  not_set : ∀ path, ¬AsksFor line path

theorem new_path_iff {line path : String} :
    newPath? (Text.strip line) = some path ↔ AsksFor line path := by
  have hdrop : ∀ rest, (setSchema.toList ++ rest).drop setSchema.length = rest :=
    fun rest => List.drop_left' rfl
  rw [newPath?, Option.ite_none_right_eq_some, List.isPrefixOf_iff_prefix]
  constructor
  · rintro ⟨⟨rest, hrest⟩, hpath⟩
    rw [← hrest, hdrop] at hpath
    refine ⟨String.ofList rest, ?_, (Option.some.inj hpath).symm⟩
    rw [← String.ofList_toList (s := Text.strip line), ← hrest, String.ofList_append,
      String.ofList_toList]
    rfl
  · rintro ⟨rest, hline, rfl⟩
    have hlist : (Text.strip line).toList = setSchema.toList ++ rest.toList := by
      rw [hline, String.toList_append]
      rfl
    refine ⟨⟨rest.toList, hlist.symm⟩, ?_⟩
    rw [hlist, hdrop, String.ofList_toList]

/-- A line with a colon in front is not one that ends the shell. -/
theorem colon_stays {line : String} (rest : List Char)
    (h : Text.strip line = String.ofList (':' :: rest)) : ¬EndsShell line := by
  have hlower : (Text.lower (Text.strip line)).toList = ':' :: Text.lowerFrom [':'] rest := by
    rw [h, Text.lower, String.toList_ofList, String.toList_ofList]
    rfl
  rintro (hexit | hquit)
  · rw [hexit] at hlower
    exact absurd (List.cons.inj hlower).1 (by decide)
  · rw [hquit] at hlower
    exact absurd (List.cons.inj hlower).1 (by decide)

theorem asks_stays {line path : String} (h : AsksFor line path) :
    ¬EndsShell line ∧ Text.strip line ≠ "" ∧ Text.strip line ≠ ":show schema" := by
  obtain ⟨rest, hline, -⟩ := h
  have hlist : (Text.strip line).toList = ":set schema ".toList ++ rest.toList := by
    rw [hline, String.toList_append]
  refine ⟨colon_stays ("set schema ".toList ++ rest.toList) ?_, ?_, ?_⟩
  · rw [← String.ofList_toList (s := Text.strip line), hlist]
    rfl
  · intro hblank
    rw [hblank] at hlist
    cases hlist
  · intro hshow
    rw [hshow] at hlist
    exact absurd (List.cons.inj (List.cons.inj (List.cons.inj hlist).2).2).1 (by decide)

/-- The kinds of lines, in the order in which the shell looks for them. -/
theorem line_cases (line : String) : EndsShell line ∨ Text.strip line = "" ∨
    Text.strip line = ":show schema" ∨ (∃ path, AsksFor line path) ∨ ForTranspiler line := by
  by_cases hends : EndsShell line
  · exact .inl hends
  by_cases hblank : Text.strip line = ""
  · exact .inr (.inl hblank)
  by_cases hshow : Text.strip line = ":show schema"
  · exact .inr (.inr (.inl hshow))
  by_cases hasks : ∃ path, AsksFor line path
  · exact .inr (.inr (.inr (.inl hasks)))
  · exact .inr (.inr (.inr (.inr ⟨hblank, hends, hshow, not_exists.mp hasks⟩)))

/-- Some texts, each on lines of its own. -/
def onLines (texts : List String) : String :=
  String.ofList (texts.flatMap fun text => text.toList ++ ['\n'])

theorem results_on_lines (answers : List String) : results answers = onLines answers := by
  apply String.toList_injective
  rw [results, onLines, String.toList_join, String.toList_ofList, List.flatMap_map]
  refine congrArg answers.flatMap (funext fun text => ?_)
  rw [String.toList_append]
  rfl

theorem logged_answers (verbose : Bool) (line : String) (answers : List String) :
    logged verbose s!"Input received: {line}" ++ printed (results answers) =
      ⟨onLines answers,
        if verbose then "[DEBUG] Input received: " ++ line ++ "\n" else ""⟩ := by
  rw [results_on_lines]
  cases verbose with
  | false => exact congrArg₂ Streams.mk String.empty_append String.append_empty
  | true =>
    refine congrArg₂ Streams.mk String.empty_append (String.append_empty.trans ?_)
    have htext : "[DEBUG] " ++ ("Input received: " ++ line) = "[DEBUG] Input received: " ++ line :=
      String.append_assoc.symm
    exact congrArg (· ++ "\n") htext

section Steps
variable {files : Files} {verbose : Bool} {s : State} {line path : String}

theorem ends_test : (Text.lower (Text.strip line) == "exit" ||
    Text.lower (Text.strip line) == "quit") = true ↔ EndsShell line := by
  simp [EndsShell]

theorem step_ends (h : EndsShell line) : step files verbose s line = none := by
  unfold step
  exact if_pos (ends_test.mpr h)

theorem step_blank (h : Text.strip line = "") :
    step files verbose s line = some (s, printed "") := by
  have hstays : ¬EndsShell line := by
    rw [EndsShell, h]
    decide
  unfold step
  rw [if_neg (mt ends_test.mp hstays), if_pos (by rw [h]; rfl)]

theorem step_show (h : Text.strip line = ":show schema") :
    step files verbose s line = some (s, printed s!"Current schema: {s.path}\n") := by
  unfold step
  rw [if_neg (mt ends_test.mp (colon_stays "show schema".toList h)),
    if_neg (by rw [h]; decide), if_pos (by rw [h]; rfl)]

theorem step_asks (h : AsksFor line path) :
    step files verbose s line = some (exchange files s path) := by
  obtain ⟨hstays, hblank, hshow⟩ := asks_stays h
  unfold step
  rw [if_neg (mt ends_test.mp hstays), if_neg (by simpa using hblank),
    if_neg (by simpa using hshow), new_path_iff.mpr h]

theorem step_statements (h : ForTranspiler line) : step files verbose s line =
    some (s, ⟨onLines (Batch.transpile s.schema line),
      if verbose then "[DEBUG] Input received: " ++ Text.strip line ++ "\n" else ""⟩) := by
  have hpath : newPath? (Text.strip line) = none :=
    Option.eq_none_iff_forall_ne_some.mpr fun path hpath => h.not_set path (new_path_iff.mp hpath)
  have hanswers : Batch.transpile s.schema (Text.strip line) = Batch.transpile s.schema line := by
    rw [Batch.transpile, Batch.transpile, statements_strip]
  unfold step
  rw [if_neg (mt ends_test.mp h.stays), if_neg (by simpa using h.not_blank),
    if_neg (by simpa using h.not_show), hpath, hanswers, logged_answers]

theorem exchange_held {v : Value} (h : HoldsSchema files path v) :
    exchange files s path = (⟨v, path⟩, printed s!"Schema updated to: {path}\n") := by
  have hschema := schema_in_iff.mpr h
  rw [exchange]
  cases hin : schemaIn files path with
  | mk schema? message =>
    rw [hin] at hschema
    cases hschema
    rfl

theorem exchange_refused (h : ∀ v, ¬HoldsSchema files path v) :
    exchange files s path = (s, ⟨"", (schemaIn files path).2⟩) := by
  rw [exchange]
  cases hin : schemaIn files path with
  | mk schema? message =>
    cases schema? with
    | none => rfl
    | some v => exact absurd (schema_in_iff.mp (congrArg Prod.fst hin)) (h v)

/-- A step keeps the state, or takes up the schema in a file together with its path. Only a line
that asks for a schema does the latter. -/
theorem step_cases {next : State} {shown : Streams}
    (h : step files verbose s line = some (next, shown)) :
    next = s ∨ ∃ path v, AsksFor line path ∧ HoldsSchema files path v ∧ next = ⟨v, path⟩ := by
  rcases line_cases line with hends | hblank | hshow | ⟨path, hasks⟩ | hstatements
  · rw [step_ends hends] at h
    cases h
  · rw [step_blank hblank] at h
    cases h
    exact .inl rfl
  · rw [step_show hshow] at h
    cases h
    exact .inl rfl
  · rw [step_asks hasks] at h
    by_cases hheld : ∃ v, HoldsSchema files path v
    · obtain ⟨v, hv⟩ := hheld
      rw [exchange_held hv] at h
      cases h
      exact .inr ⟨path, v, hasks, hv, rfl⟩
    · rw [exchange_refused (not_exists.mp hheld)] at h
      cases h
      exact .inl rfl
  · rw [step_statements hstatements] at h
    cases h
    exact .inl rfl

theorem step_holds {next : State} {shown : Streams} (hs : HoldsSchema files s.path s.schema)
    (h : step files verbose s line = some (next, shown)) :
    HoldsSchema files next.path next.schema := by
  rcases step_cases h with rfl | ⟨path, v, -, hv, rfl⟩
  · exact hs
  · exact hv

end Steps

/-- The state at the prompt after some lines, unless one of them ends the shell. -/
def stateAfter (files : Files) (verbose : Bool) : State → List String → Option State
  | s, [] => some s
  | s, line :: lines =>
    (step files verbose s line).bind fun r => stateAfter files verbose r.1 lines

theorem streams_assoc (a b c : Streams) : a ++ b ++ c = a ++ (b ++ c) :=
  congrArg₂ Streams.mk (String.append_assoc ..) (String.append_assoc ..)

theorem nothing_shown (a : Streams) : printed "" ++ a = a :=
  congrArg₂ Streams.mk String.empty_append String.empty_append

section Runs
variable {files : Files} {verbose : Bool} {s next : State} {line : String} {lines : List String}

theorem after_cons (h : stateAfter files verbose s (line :: lines) = some next) :
    ∃ s' shown, step files verbose s line = some (s', shown) ∧
      stateAfter files verbose s' lines = some next := by
  obtain ⟨⟨s', shown⟩, hstep, hnext⟩ := Option.bind_eq_some_iff.mp h
  exact ⟨s', shown, hstep, hnext⟩

/-- At every prompt the schema is that of the file with the path. -/
theorem after_holds (hs : HoldsSchema files s.path s.schema)
    (h : stateAfter files verbose s lines = some next) :
    HoldsSchema files next.path next.schema := by
  induction lines generalizing s with
  | nil =>
    cases h
    exact hs
  | cons line lines ih =>
    obtain ⟨s', shown, hstep, hnext⟩ := after_cons h
    exact ih (step_holds hs hstep) hnext

/-- Whether a line asks for a schema. -/
def asks (line : String) : Bool := (newPath? (Text.strip line)).isSome

theorem asks_iff : asks line = true ↔ ∃ path, AsksFor line path := by
  rw [asks, Option.isSome_iff_exists]
  exact exists_congr fun path => new_path_iff

/-- The state at a prompt comes from the lines that ask for a schema. -/
theorem after_asks (h : stateAfter files verbose s lines = some next) :
    stateAfter files verbose s (lines.filter asks) = some next := by
  induction lines generalizing s with
  | nil => exact h
  | cons line lines ih =>
    obtain ⟨s', shown, hstep, hnext⟩ := after_cons h
    by_cases hasks : asks line = true
    · rw [List.filter_cons_of_pos hasks, stateAfter, hstep]
      exact ih hnext
    · rw [List.filter_cons_of_neg hasks]
      rcases step_cases hstep with rfl | ⟨path, v, hpath, -⟩
      · exact ih hnext
      · exact absurd (asks_iff.mpr ⟨path, hpath⟩) hasks

theorem loop_step {shown : Streams} (h : step files verbose s line = some (next, shown)) :
    loop files verbose s (line :: lines) = prompt ++ shown ++ loop files verbose next lines := by
  rw [loop, h]

/-- A run goes on from the state at a prompt. -/
theorem loop_after (h : stateAfter files verbose s lines = some next) :
    ∃ shown, ∀ later, loop files verbose s (lines ++ later) =
      shown ++ loop files verbose next later := by
  induction lines generalizing s with
  | nil =>
    cases h
    exact ⟨printed "", fun later => (nothing_shown _).symm⟩
  | cons line lines ih =>
    obtain ⟨s', shown, hstep, hnext⟩ := after_cons h
    obtain ⟨rest, hrest⟩ := ih hnext
    refine ⟨prompt ++ shown ++ rest, fun later => ?_⟩
    rw [List.cons_append, loop_step hstep, hrest, streams_assoc _ rest]

end Runs

/-- The answer to a line at a prompt: the text that is printed, that of the errors and of the log,
and the state at the next prompt. -/
def Answered (files : Files) (verbose : Bool) (s : State) (line out err : String) (next : State) :
    Prop :=
  ∀ later,
    (loop files verbose s (line :: later)).out =
        "sql2mongo> " ++ out ++ (loop files verbose next later).out ∧
      (loop files verbose s (line :: later)).err = err ++ (loop files verbose next later).err

/-- A prompt whose schema is that of the file it names, with the answers to all kinds of lines. -/
structure Consistent (files : Files) (verbose : Bool) (s : State) : Prop where
  content : HoldsSchema files s.path s.schema
  refused : ∀ line path, AsksFor line path → (∀ v, ¬HoldsSchema files path v) →
    Answered files verbose s line "" (schemaIn files path).2 s
  exchanged : ∀ line path v, AsksFor line path → HoldsSchema files path v →
    Answered files verbose s line ("Schema updated to: " ++ path ++ "\n") "" ⟨v, path⟩
  named : ∀ line, Text.strip line = ":show schema" →
    Answered files verbose s line ("Current schema: " ++ s.path ++ "\n") "" s
  answered : ∀ line, ForTranspiler line →
    Answered files verbose s line (onLines (Batch.transpile s.schema line))
      (if verbose then "[DEBUG] Input received: " ++ Text.strip line ++ "\n" else "") s
  blank : ∀ line, Text.strip line = "" → Answered files verbose s line "" "" s
  ended : ∀ line, EndsShell line → ∀ later,
    (loop files verbose s (line :: later)).out = "sql2mongo> " ∧
      (loop files verbose s (line :: later)).err = ""
  finished : (loop files verbose s []).out = "sql2mongo> \nExiting shell...\n"

theorem answered_of {files : Files} {verbose : Bool} {s next : State} {line out err : String}
    (h : step files verbose s line = some (next, ⟨out, err⟩)) :
    Answered files verbose s line out err next := by
  intro later
  rw [loop_step h]
  exact ⟨rfl, congrArg (· ++ _) String.empty_append⟩

theorem consistent_of {files : Files} {verbose : Bool} {s : State}
    (h : HoldsSchema files s.path s.schema) : Consistent files verbose s where
  content := h
  refused line path hasks hnone :=
    answered_of ((step_asks hasks).trans (congrArg some (exchange_refused hnone)))
  exchanged line path v hasks hv :=
    answered_of ((step_asks hasks).trans (congrArg some (exchange_held hv)))
  named line hshow := answered_of (step_show hshow)
  answered line hstatements := answered_of (step_statements hstatements)
  blank line hblank := answered_of (step_blank hblank)
  ended line hends later := by
    rw [loop, step_ends hends]
    exact ⟨rfl, rfl⟩
  finished := rfl

theorem open_shell {files : Files} {path : String} {verbose : Bool} {s : State}
    (h : (Transpiler.openShell files path verbose).1 = some s) :
    HoldsSchema files path s.schema ∧ s.path = path := by
  rw [Transpiler.openShell] at h
  cases hin : schemaIn files path with
  | mk schema? message =>
    rw [hin] at h
    cases schema? with
    | none => cases h
    | some v =>
      cases h
      exact ⟨schema_in_iff.mp (congrArg Prod.fst hin), rfl⟩

/-- At every prompt of a run the schema is the content of the file with the path that is shown; a
line that asks for a schema changes both or neither, and the answers to statements are printed for
this schema. Only lines that asked for a schema have led to the prompt, and the run goes on from
it. -/
theorem shell_schema_consistent {files : Files} {path : String} {verbose : Bool}
    {opened s : State} {earlier : List String}
    (hopen : (Transpiler.openShell files path verbose).1 = some opened)
    (hs : stateAfter files verbose opened earlier = some s) :
    Consistent files verbose s ∧
      stateAfter files verbose opened (earlier.filter asks) = some s ∧
      ∃ out err, ∀ input later,
        (Text.lines input.toList).map String.ofList = earlier ++ later →
        (Transpiler.runShell files path verbose input).streams.out =
            out ++ (loop files verbose s later).out ∧
          (Transpiler.runShell files path verbose input).streams.err =
            err ++ (loop files verbose s later).err := by
  obtain ⟨hschema, rfl⟩ := open_shell hopen
  refine ⟨consistent_of (after_holds hschema hs), after_asks hs, ?_⟩
  obtain ⟨shown, hloop⟩ := loop_after hs
  -- The run starts with the banner, which does not depend on the lines.
  cases hbegin : Transpiler.openShell files opened.path verbose with
  | mk state? banner =>
    rw [hbegin] at hopen
    cases hopen
    refine ⟨(banner ++ shown).out, (banner ++ shown).err, fun input later hinput => ?_⟩
    have hrun : (Transpiler.runShell files opened.path verbose input).streams =
        banner ++ shown ++ loop files verbose s later := by
      rw [Transpiler.runShell, hbegin, streams_assoc, ← hloop, ← hinput]
    rw [hrun]
    exact ⟨rfl, rfl⟩

def asciiFile (text : String) : File := .bytes (text.toList.map fun c => UInt8.ofNat c.toNat)

/-- A directory with two schemas, a file that holds `null` and one that is no JSON. -/
def schemaFiles : Files :=
  [("shop.json", asciiFile "\x7b\"users\": \x7b\"id\": \"int\"\x7d\x7d"),
    ("null.json", asciiFile "null"), ("cut.json", asciiFile "\x7b\"users\":"),
    ("blog.json", asciiFile "\x7b\"posts\": \x7b\"id\": \"int\"\x7d\x7d")]

/-- The first three schemas are asked for in vain. -/
def schemaScript : List String :=
  [":set schema null.json", ":set schema cut.json", "SELECT id;", ":set schema news.json",
    "  :set schema  blog.json "]

def postsText : String := "SELECT id FROM posts; SELECT $"

theorem posts_for_transpiler : ForTranspiler postsText where
  not_blank := by decide +kernel
  stays := by
    rw [EndsShell]
    decide +kernel
  not_show := by decide +kernel
  not_set path hasks := by
    have hnone : newPath? (Text.strip postsText) = none := by decide +kernel
    rw [← new_path_iff, hnone] at hasks
    cases hasks

theorem shell_schema_consistent_blog : ∃ opened s : State,
    (Transpiler.openShell schemaFiles "shop.json" false).1 = some opened ∧
      stateAfter schemaFiles false opened schemaScript = some s ∧
      (∀ later, (loop schemaFiles false s (":show schema" :: later)).out =
        "sql2mongo> Current schema: blog.json\n" ++ (loop schemaFiles false s later).out) ∧
      ∀ later, (loop schemaFiles false s (postsText :: later)).out =
        "sql2mongo> " ++ "db.posts.find(\x7b\x7d, \x7b id: 1 \x7d)\n" ++
          "Error: Illegal character '$' at line 1, column 8\n" ++
            (loop schemaFiles false s later).out := by
  have hrun : ((Transpiler.openShell schemaFiles "shop.json" false).1.bind fun opened =>
      (stateAfter schemaFiles false opened schemaScript).map fun s =>
        (s.path, Batch.transpile s.schema postsText)) =
      some ("blog.json", ["db.posts.find(\x7b\x7d, \x7b id: 1 \x7d)",
        "Error: Illegal character '$' at line 1, column 8"]) := by
    decide +kernel
  obtain ⟨opened, hopen, hrest⟩ := Option.bind_eq_some_iff.mp hrun
  obtain ⟨s, hs, hshown⟩ := Option.map_eq_some_iff.mp hrest
  obtain ⟨hpath, hanswers⟩ := Prod.ext_iff.mp hshown
  have hconsistent := (shell_schema_consistent hopen hs).1
  refine ⟨opened, s, hopen, hs, fun later => ?_, fun later => ?_⟩
  · have hnamed := (hconsistent.named ":show schema" (by decide +kernel) later).1
    rwa [show s.path = _ from hpath] at hnamed
  · have hanswered := (hconsistent.answered _ posts_for_transpiler later).1
    rwa [show Batch.transpile s.schema postsText = _ from hanswers] at hanswered

end DocQuery.Proofs
