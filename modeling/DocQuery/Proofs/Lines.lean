import DocQuery.Pipeline

namespace DocQuery

namespace Sql

/-- A token with its line number greater by `n`. -/
def Token.later (n : Nat) (t : Token) : Token := { t with line := t.line + n }

def ScanError.later (n : Nat) : ScanError → ScanError
  | illegal c line column => illegal c (line + n) column
  | longNumeral digits => longNumeral digits

def Cursor.later (n : Nat) (c : Cursor) : Cursor := { c with line := c.line + n }

def Cursor.Step.later (n : Nat) : Cursor.Step → Cursor.Step
  | skip next => skip (next.later n)
  | token t next => token (t.later n) (next.later n)
  | fail e next => fail (e.later n) (next.later n)
  | done => done

def Scan.later (n : Nat) (s : Scan) : Scan :=
  ⟨s.tokens.map (·.later n), s.error?.map (·.later n), s.finish.later n⟩

/-- A failure with the line number of its text, if it has one, greater by `n`. -/
def ParseError.later (n : Nat) : ParseError → ParseError
  | scan e => scan (e.later n)
  | unexpected t => unexpected (t.later n)
  | unexpectedEnd => unexpectedEnd

/-- Only an illegal character has a line; a numeral is too long on any. -/
theorem LexClass.lexeme_error {cls : LexClass} {cs : List Char} {e : ScanError}
    (h : cls.lexeme cs = .error e) (n : Nat) : e.later n = e := by
  cases cls with
  | word =>
    simp only [lexeme] at h
    split at h <;> cases h
  | numeral =>
    simp only [lexeme] at h
    split at h <;> cases h
    rfl
  | quoted => cases h
  | symbol s => cases h

/-- A step does not read the number of its line. -/
theorem Cursor.step_later (n : Nat) (c : Cursor) : (c.later n).step = c.step.later n := by
  have hrest : (c.later n).rest = c.rest := rfl
  cases hcs : c.rest with
  | nil => simp only [step, hrest, hcs, Step.later]
  | cons ch cs =>
    simp only [step, hrest, hcs]
    split
    · rfl
    · split
      · -- the lines of a run of breaks are added to the greater number as to the smaller one
        simp only [Step.later, passBreaks, pass, later, Nat.add_right_comm]
      · cases munch (ch :: cs) with
        | none => rfl
        | some found =>
          cases hl : found.1.lexeme found.2 with
          | ok l =>
            simp only [hl]
            rfl
          | error e =>
            simp only [hl, Step.later, LexClass.lexeme_error hl n]
            rfl

theorem Cursor.scan_later (n fuel : Nat) (c : Cursor) :
    (c.later n).scan fuel = (c.scan fuel).later n := by
  induction fuel generalizing c with
  | zero => rfl
  | succ fuel ih =>
    simp only [Cursor.scan, Cursor.step_later]
    cases c.step with
    | skip next => exact ih next
    | token t next =>
      simp only [Step.later, ih next]
      rfl
    | fail e next => rfl
    | done => rfl

theorem scan_later (text : String) (line n : Nat) :
    scan text (line + n) = (scan text line).later n :=
  Cursor.scan_later n _ (Cursor.start text.toList line)

theorem Scan.parse_later (n : Nat) (s : Scan) :
    (s.later n).parse = s.parse.mapError (·.later n) := by
  obtain ⟨tokens, error?, finish⟩ := s
  have hlexemes : (tokens.map (·.later n)).map (·.lexeme) = tokens.map (·.lexeme) := by
    rw [List.map_map]
    rfl
  simp only [later, parse, hlexemes, List.length_map, ← List.map_drop]
  cases Query.ofLexemes (tokens.map (·.lexeme)) with
  | ok q => cases error? <;> rfl
  | error left =>
    dsimp only
    cases tokens.drop (tokens.length - left) with
    | nil => cases error? <;> rfl
    | cons t ts => rfl

theorem Scan.line_after_later (n : Nat) (s : Scan) : (s.later n).lineAfter = s.lineAfter + n := by
  rw [lineAfter, Scan.parse_later, lineAfter]
  cases s.parse with
  | ok q => rfl
  | error e => cases e <;> rfl

theorem parse_later (text : String) (line n : Nat) :
    parse text (line + n) = (parse text line).mapError (·.later n) := by
  rw [parse, scan_later, Scan.parse_later, parse]

theorem line_after_later (text : String) (line n : Nat) :
    lineAfter text (line + n) = lineAfter text line + n := by
  rw [lineAfter, scan_later, Scan.line_after_later, lineAfter]

end Sql

/-- A failure with its line number, if it has one, greater by `n`: only a text has lines. -/
def Failure.later (n : Nat) : Failure → Failure
  | parse e => parse (e.later n)
  | check e => check e
  | translate e => translate e
  | simplify f => simplify f

namespace Pipeline

/-- The simplified command of a statement. -/
def outcome (schema : Value) (sql : String) (line : Nat) : Except Failure Value :=
  command schema sql line >>= simplify

theorem parse_later (sql : String) (line n : Nat) :
    parse sql (line + n) = (parse sql line).mapError (·.later n) := by
  rw [parse, Sql.parse_later, parse]
  cases Sql.parse sql line <;> rfl

/-- The stages after the first have no lines. -/
theorem stages_later (schema tree : Value) (n : Nat) :
    (check schema tree >>= translate).mapError (·.later n) = check schema tree >>= translate := by
  simp only [check]
  cases (Check.check schema tree).outcome with
  | error e => rfl
  | ok =>
    generalize (Check.check schema tree).tree = noted
    change (translate noted).mapError _ = translate noted
    rw [translate]
    cases Command.translate noted <;> rfl

theorem command_later (schema : Value) (sql : String) (line n : Nat) :
    command schema sql (line + n) = (command schema sql line).mapError (·.later n) := by
  simp only [command, parse_later]
  cases parse sql line with
  | error e => rfl
  | ok tree => exact (stages_later schema tree n).symm

theorem outcome_later (schema : Value) (sql : String) (line n : Nat) :
    outcome schema sql (line + n) = (outcome schema sql line).mapError (·.later n) := by
  rw [outcome, command_later, outcome]
  cases command schema sql line with
  | error e => rfl
  | ok command =>
    change simplify command = (simplify command).mapError _
    rw [simplify]
    cases Command.simplify command <;> rfl

end Pipeline

end DocQuery
