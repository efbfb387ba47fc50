import DocQuery.Batch
import DocQuery.Proofs.ErrorPositions
import DocQuery.Proofs.Lines
import DocQuery.Proofs.Notes
import DocQuery.Service
import DocQuery.Session

namespace DocQuery.Proofs

open Sql

/-- The place up to which a text is read: the token at fault, or else the end of the scan. -/
def readStop (text : String) : Nat :=
  match (scan text 0).parse with
  | .error (.unexpected t) => t.offset
  | _ => (scan text 0).finish.offset

/-- The lines that are counted in what is read of a text. -/
def linesRead (text : String) : Nat := countedLines (text.toList.take (readStop text))

theorem token_at_fault {s : Scan} {t : Token} (h : s.parse = .error (.unexpected t)) :
    t ∈ s.tokens := by
  rw [Scan.parse] at h
  split at h
  · split at h <;> cases h
  · split at h
    · rename_i ts hdrop
      cases h
      exact List.mem_of_mem_drop (hdrop ▸ List.mem_cons_self)
    · rw [Scan.atEnd] at h
      split at h <;> cases h

/-- A parse goes on by the lines of what it reads. -/
theorem line_after_read (text : String) (line : Nat) :
    lineAfter text line = line + linesRead text := by
  obtain ⟨hfinish, htokens⟩ := scan_lines text 0
  have hfirst : lineAfter text 0 = linesRead text := by
    rw [Nat.zero_add] at hfinish
    rw [lineAfter, Scan.lineAfter, linesRead, readStop]
    cases hparse : (scan text 0).parse with
    | ok q => exact hfinish
    | error e =>
      cases e with
      | unexpected t => exact (htokens t (token_at_fault hparse)).trans (Nat.zero_add _)
      | _ => exact hfinish
  rw [← hfirst, Nat.add_comm, ← line_after_later, Nat.zero_add]

/-- The lines that are read in some statements. -/
def linesOf (statements : List String) : Nat := (statements.map linesRead).sum

/-- The text of a simplified command, or of a failure. -/
def outcomeText : Except Failure Value → String
  | .error e => "Error: " ++ e.message
  | .ok command =>
    match Pipeline.textOf command with
    | some (.text s) => s
    | _ => ""

/-- The outcome of a statement that is read on its own, after `n` lines. -/
def outcomeAfter (schema : Value) (n : Nat) (sql : String) : Except Failure Value :=
  (Pipeline.outcome schema sql 1).mapError (·.later n)

theorem outcome_after (schema : Value) (n : Nat) (sql : String) :
    Pipeline.outcome schema sql (1 + n) = outcomeAfter schema n sql :=
  Pipeline.outcome_later schema sql 1 n

theorem answer_text (schema : Value) (sql : String) (line : Nat) :
    Batch.answer schema sql line = outcomeText (Pipeline.outcome schema sql line) := by
  unfold Batch.answer outcomeText Pipeline.outcome
  rfl

/-- Each statement of a batch is answered as it is alone, after the lines of those before it. -/
theorem answers_isolated (schema : Value) (ss : List String) (n : Nat) :
    Batch.answers schema (1 + n) ss =
      ss.mapIdx fun i sql => outcomeText (outcomeAfter schema (n + linesOf (ss.take i)) sql) := by
  induction ss generalizing n with
  | nil => rfl
  | cons s ss ih =>
    rw [Batch.answers, line_after_read, Nat.add_assoc, ih, answer_text, outcome_after,
      List.mapIdx_cons]
    simp [linesOf, Nat.add_assoc]

/-- A request to the service, with the variables and the databases that it finds. -/
structure Visit where
  env : Service.Environment
  backend : Service.Backend
  body : Value

namespace Visit

def answer (v : Visit) (s : Service.State) : Service.Response × Service.State × Report :=
  Service.run v.env v.backend s v.body

/-- The statement of a request, with its schema, if it is to be run. -/
def statement? (v : Visit) : Option (String × Value) :=
  if !v.body.present then none
  else
    match Service.request v.body with
    | .error _ => none
    | .ok (sql, schema) => if sql == "" || !schema.present then none else some (sql, schema)

def lines (v : Visit) : Nat := v.statement?.elim 0 (linesRead ·.1)

/-- The failure of the statement of a request when it is translated on its own. -/
def failure? (v : Visit) : Option Failure :=
  v.statement?.bind fun p =>
    match Pipeline.command p.2 p.1 1 with
    | .error e => some e
    | .ok _ => none

/-- The service after some requests. -/
def after (vs : List Visit) : Service.State := vs.foldl (fun s v => (v.answer s).2.1) Service.start

theorem answer_statement {v : Visit} {p : String × Value} (h : v.statement? = some p)
    (s : Service.State) : v.answer s = Service.runStatement v.env v.backend s p.1 p.2 := by
  unfold statement? at h
  unfold answer Service.run
  cases hpresent : v.body.present with
  | false => simp [hpresent] at h
  | true =>
    cases hrequest : Service.request v.body with
    | error f => simp [hpresent, hrequest] at h
    | ok request =>
      simp only [hpresent, hrequest, Bool.not_true, Bool.false_eq_true, if_false] at h ⊢
      by_cases hmissing : (request.1 == "" || !request.2.present) = true
      · rw [if_pos hmissing] at h
        cases h
      · rw [if_neg hmissing] at h ⊢
        cases h
        rfl

theorem answer_refused {v : Visit} (h : v.statement? = none) :
    ∃ r, ∀ s, v.answer s = (r, s, .print "") := by
  unfold statement? at h
  unfold answer Service.run
  cases hpresent : v.body.present with
  | false => exact ⟨_, fun s => rfl⟩
  | true =>
    cases hrequest : Service.request v.body with
    | error f => exact ⟨_, fun s => rfl⟩
    | ok request =>
      simp only [hpresent, hrequest, Bool.not_true, Bool.false_eq_true, if_false] at h ⊢
      by_cases hmissing : (request.1 == "" || !request.2.present) = true
      · simp only [if_pos hmissing]
        exact ⟨_, fun s => rfl⟩
      · rw [if_neg hmissing] at h
        cases h

end Visit

/-- A connection is made in the same way on any line. -/
theorem connect_lines (env : Service.Environment) (connected : Bool) :
    ∃ (result : Except String Bool) (calls : List Call), ∀ line,
      Service.connect env ⟨line, connected⟩ = (result.map (Service.State.mk line), calls) := by
  cases connected with
  | true => exact ⟨.ok true, [], fun _ => rfl⟩
  | false =>
    simp only [Service.connect, Bool.false_eq_true, if_false]
    split
    · exact ⟨.error _, [], fun _ => rfl⟩
    · exact ⟨.error _, [], fun _ => rfl⟩
    · exact ⟨.ok true, _, fun _ => rfl⟩

section

variable (env : Service.Environment) (b : Service.Backend) (connected : Bool) (command : Value)

theorem run_documents_lines : ∃ result connected' calls, ∀ line,
    Service.runDocuments env b ⟨line, connected⟩ command = (result, ⟨line, connected'⟩, calls) := by
  obtain ⟨result, calls, hconnect⟩ := connect_lines env connected
  simp only [Service.runDocuments, hconnect]
  cases result with
  | error message => exact ⟨_, _, _, fun _ => rfl⟩
  | ok connected' =>
    simp only [Except.map]
    cases Call.ofCommand command with
    | error f => exact ⟨_, _, _, fun _ => rfl⟩
    | ok made => exact ⟨_, _, _, fun _ => rfl⟩

/-- A command is run in the same way on any line, and counts none. -/
theorem run_command_lines (sql : String) : ∃ response connected' calls, ∀ line,
    Service.runCommand env b ⟨line, connected⟩ sql command =
      (response, ⟨line, connected'⟩, calls) := by
  obtain ⟨result, connected', more, hdocuments⟩ := run_documents_lines env b connected command
  simp only [Service.runCommand, hdocuments]
  cases Service.runRows env b sql with
  | mk rows calls =>
    cases rows with
    | error message => exact ⟨_, _, _, fun _ => rfl⟩
    | ok =>
      cases result with
      | error message => exact ⟨_, _, _, fun _ => rfl⟩
      | ok documents =>
        dsimp only
        cases Service.answer command b documents with
        | error f => exact ⟨_, _, _, fun _ => rfl⟩
        | ok response => exact ⟨_, _, _, fun _ => rfl⟩

end

/-- A request that comes after `n` lines is answered as the first one is, but for the lines of a
failed translation. -/
theorem visit_isolated (v : Visit) (connected : Bool) (n : Nat) :
    v.answer ⟨1 + n, connected⟩ =
      (v.failure?.elim (v.answer ⟨1, connected⟩).1
          (fun e => Service.failed 500 (e.later n).message),
        ⟨1 + n + v.lines, (v.answer ⟨1, connected⟩).2.1.connected⟩,
        (v.answer ⟨1, connected⟩).2.2) := by
  cases hv : v.statement? with
  | none =>
    obtain ⟨response, hr⟩ := v.answer_refused hv
    rw [hr, hr, Visit.lines, Visit.failure?, hv]
    rfl
  | some p =>
    have hlines : v.lines = linesRead p.1 := by rw [Visit.lines, hv, Option.elim_some]
    rw [Visit.answer_statement hv, Visit.answer_statement hv, hlines]
    unfold Service.runStatement
    cases hcommand : Pipeline.command p.2 p.1 1 with
    | error e =>
      have hfailure : v.failure? = some e := by
        simp only [Visit.failure?, hv, Option.bind_some, hcommand]
      simp only [Pipeline.command_later, line_after_read, hcommand, hfailure, Except.mapError,
        Option.elim_some]
    | ok command =>
      have hfailure : v.failure? = none := by
        simp only [Visit.failure?, hv, Option.bind_some, hcommand]
      obtain ⟨response, connected', calls, hrun⟩ :=
        run_command_lines v.env v.backend connected command p.1
      simp only [Pipeline.command_later, line_after_read, hcommand, hfailure, Except.mapError,
        Option.elim_none, hrun]

/-- The failure of a translation is the answer of a fresh service. -/
theorem visit_failure {v : Visit} {e : Failure} (h : v.failure? = some e) (connected : Bool) :
    (v.answer ⟨1, connected⟩).1 = Service.failed 500 e.message := by
  rw [Visit.failure?, Option.bind_eq_some_iff] at h
  obtain ⟨p, hp, he⟩ := h
  rw [Visit.answer_statement hp]
  unfold Service.runStatement
  split at he
  · rename_i hcommand
    cases he
    simp only [hcommand]
  · cases he

theorem visits_after (vs : List Visit) (line : Nat) (connected : Bool) :
    ∃ connected', vs.foldl (fun s v => (v.answer s).2.1) ⟨1 + line, connected⟩ =
      ⟨1 + line + (vs.map Visit.lines).sum, connected'⟩ := by
  induction vs generalizing line connected with
  | nil => exact ⟨connected, rfl⟩
  | cons v vs ih =>
    rw [List.foldl_cons, visit_isolated, List.map_cons, List.sum_cons, Nat.add_assoc, Nat.add_assoc]
    obtain ⟨connected', h⟩ := ih (line + v.lines) (v.answer ⟨1, connected⟩).2.1.connected
    refine ⟨connected', h.trans ?_⟩
    simp only [Nat.add_assoc]

/-- The lines that a session reads for a request. -/
def requestLines : Session.Request → Nat
  | .parse sql _ => linesRead sql
  | _ => 0

/-- A session after some requests. -/
def sessionAfter (s : Session) (rs : List Session.Request) : Session :=
  rs.foldl (fun s r => (s.step r).1) s

/-- What a reply says of a stage of a statement. -/
def stageResult? : Session.Reply → Option (Except Failure Value)
  | .parsed r _ => some (r.mapError .parse)
  | .checked c => some ((c.outcome.mapError .check).map fun _ => c.tree)
  | .translated r _ => some (r.mapError .translate)
  | .simplified r => some (r.mapError .simplify)
  | _ => none

/-- The result of the last of some stages, or of the first that fails. -/
def stagesResult? (s : Session) (r : Session.Request) :
    List Session.Request → Option (Except Failure Value)
  | [] => stageResult? (s.step r).2
  | r' :: rs =>
    match stageResult? (s.step r).2 with
    | some (.ok _) => stagesResult? (s.step r).1 r' rs
    | result? => result?

/-- The result of a statement in a session, whose slots it takes for its tree and its command. -/
def statementResult? (s : Session) (sql tree command : String) : Option (Except Failure Value) :=
  stagesResult? s (.parse sql tree) [.check tree, .translate tree command, .simplify command]

theorem store_line (s : Session) (name : String) (statement : Nat) (r : Except ε Value) :
    (s.storeResult name statement r).line = s.line := by
  cases r <;> rfl

theorem share_line (s : Session) (statement : Nat) (new? : Option Value) :
    (s.share statement new?).line = s.line := by
  cases new? <;> rfl

/-- Only parsing counts lines. -/
theorem step_line (s : Session) (r : Session.Request) :
    (s.step r).1.line = s.line + requestLines r := by
  cases r with
  | parse sql slot =>
    simp only [Session.step, Session.parse, store_line, requestLines]
    exact line_after_read sql s.line
  | check slot =>
    simp only [Session.step, requestLines]
    split <;> rfl
  | print slot =>
    simp only [Session.step, requestLines]
    split <;> rfl
  | translate slot target =>
    simp only [Session.step, requestLines]
    split
    · rfl
    · exact store_line _ _ _ _
  | simplify slot =>
    simp only [Session.step, requestLines]
    split
    · rfl
    · exact share_line _ _ _
  | _ => rfl

theorem session_line (s : Session) (rs : List Session.Request) :
    (sessionAfter s rs).line = s.line + (rs.map requestLines).sum := by
  induction rs generalizing s with
  | nil => rfl
  | cons r rs ih =>
    have hrest := ih (s.step r).1
    rw [step_line, Nat.add_assoc] at hrest
    exact hrest

theorem get_stored (s : Session) (slot : Slot) : (s.store slot).get? slot.name = some slot := by
  simp [Session.store, Session.get?]

/-- Notes that are renewed have no part in a command. -/
theorem translate_with_notes (schema : Value) (q : Query) :
    Command.translate (Session.withNotes (Check.check schema q.toValue).tree) =
      Command.translate (Check.check schema q.toValue).tree := by
  obtain ⟨p, hp, hq⟩ := check_leaves_tree schema q
  rw [hp]
  simp only [Session.withNotes]
  split
  · split
    · exact translate_trees (hq.noted _ _ _) hq none
    · rfl
  · rfl

section

variable {s : Session} {slot : String} {t : Slot} (ht : s.get? slot = some t)

include ht

theorem simplify_stage :
    stagesResult? s (.simplify slot) [] = some (Pipeline.simplify t.value) := by
  simp only [stagesResult?, Session.step, ht]
  rfl

theorem translate_stage (target : String) :
    stagesResult? s (.translate slot target) [.simplify target] =
      some (Pipeline.translate t.value >>= Pipeline.simplify) := by
  simp only [stagesResult?, Session.step, ht]
  rw [Pipeline.translate]
  cases Command.translate t.value with
  | error e => rfl
  | ok command => exact simplify_stage (get_stored _ ⟨target, command, t.statement⟩)

theorem check_stage (target : String) {q : Query} (hq : t.value = q.toValue) :
    stagesResult? s (.check slot) [.translate slot target, .simplify target] =
      some (Pipeline.check s.schema q.toValue >>= fun tree =>
        Pipeline.translate tree >>= Pipeline.simplify) := by
  obtain rfl : t.name = slot := by simpa using List.find?_some ht
  simp only [stagesResult?, Session.step, ht, hq, Pipeline.check]
  cases hcheck : (Check.check s.schema q.toValue).outcome with
  | error e => rfl
  | ok =>
    have hstage := translate_stage
      (get_stored s { t with value := Session.withNotes (Check.check s.schema q.toValue).tree })
      target
    rw [Pipeline.translate, translate_with_notes] at hstage
    exact hstage

end

/-- A statement has its own outcome in every session, whatever the slots and the base table are. -/
theorem statement_outcome (s : Session) (sql tree command : String) :
    statementResult? s sql tree command = some (Pipeline.outcome s.schema sql s.line) := by
  -- Each stage finds in its slot what the stage before it has stored there.
  simp only [statementResult?, stagesResult?, Session.step, Session.parse, Pipeline.outcome,
    Pipeline.command, Pipeline.parse]
  cases Sql.parse sql s.line with
  | error e => rfl
  | ok q =>
    have hstage := check_stage
      (get_stored { s with line := lineAfter sql s.line, parsed := s.parsed + 1 }
        ⟨tree, q.toValue, s.parsed + 1⟩) command rfl
    rw [← bind_assoc] at hstage
    exact hstage

/-- Statements are isolated. In a batch, each has one answer, in order, of its own outcome; a
service answers each request as a fresh one does; and in a session, whatever was asked of it before,
a statement has its own outcome. Only the lines of a failure are greater, by those that were read
before. -/
theorem statements_isolated :
    (∀ text line, lineAfter text line = line + linesRead text) ∧
    (∀ schema text, Batch.transpile schema text =
      (Batch.statements text).mapIdx fun i sql =>
        outcomeText (outcomeAfter schema (linesOf ((Batch.statements text).take i)) sql)) ∧
    (∀ (earlier : List Visit) (v : Visit), ∃ connected,
      Visit.after earlier = ⟨1 + (earlier.map Visit.lines).sum, connected⟩ ∧
      v.answer (Visit.after earlier) =
        (v.failure?.elim (v.answer ⟨1, connected⟩).1
            (fun e => Service.failed 500 (e.later (earlier.map Visit.lines).sum).message),
          ⟨(Visit.after earlier).line + v.lines, (v.answer ⟨1, connected⟩).2.1.connected⟩,
          (v.answer ⟨1, connected⟩).2.2) ∧
      ∀ e, v.failure? = some e → (v.answer ⟨1, connected⟩).1 = Service.failed 500 e.message) ∧
    (∀ (schema : Value) (earlier : List Session.Request) (sql tree command : String),
      (sessionAfter (.start schema) earlier).line = 1 + (earlier.map requestLines).sum ∧
      statementResult? (sessionAfter (.start schema) earlier) sql tree command =
        some (outcomeAfter (sessionAfter (.start schema) earlier).schema
          (earlier.map requestLines).sum sql)) := by
  refine ⟨line_after_read, fun schema text => ?_, fun earlier v => ?_,
    fun schema earlier sql tree command => ?_⟩
  · simpa [Batch.transpile] using answers_isolated schema (Batch.statements text) 0
  · obtain ⟨connected, hafter⟩ := visits_after earlier 0 false
    have hstate : Visit.after earlier = ⟨1 + (earlier.map Visit.lines).sum, connected⟩ := hafter
    refine ⟨connected, hstate, ?_, fun e he => visit_failure he connected⟩
    rw [hstate]
    exact visit_isolated v connected _
  · have hline : (sessionAfter (.start schema) earlier).line =
        1 + (earlier.map requestLines).sum := session_line (.start schema) earlier
    refine ⟨hline, ?_⟩
    rw [statement_outcome, hline, outcome_after]

-- The first statement is read up to its third line, where the second one fails.
example : linesRead "SELECT name\nFROM\r\nWHERE\nage;" = 2 ∧
    Batch.transpile (.doc []) "SELECT name\nFROM\r\nWHERE\nage; SELECT $" =
      ["Error: Syntax error at 'WHERE', line 3",
        "Error: Illegal character '$' at line 3, column 8"] := by
  decide +kernel

end DocQuery.Proofs
