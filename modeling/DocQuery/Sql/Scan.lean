import DocQuery.Sql.Token
import DocQuery.Text.Digit

namespace DocQuery.Sql

/-- Why no token can be given. -/
inductive ScanError where
  | illegal (c : Char) (line column : Nat)
  | longNumeral (digits : Nat)
deriving DecidableEq, Repr

def ScanError.message : ScanError → String
  | illegal c line column => s!"Illegal character '{c}' at line {line}, column {column}"
  | longNumeral n => Text.longNumeralMessage n

def isWordStart (c : Char) : Bool := c.isAlpha || c == '_'

def isWordPart (c : Char) : Bool := c.isAlphanum || c == '_'

def isSpace (c : Char) : Bool := c == ' ' || c == '\t'

def isBreak (c : Char) : Bool := c == '\n' || c == '\r'

/-- The classes of lexemes. -/
inductive LexClass where
  | word
  | numeral
  | quoted
  | symbol (s : Symbol)
deriving DecidableEq, Repr

/-- The longest lexeme at the start of a text, with its class. -/
def munch : List Char → Option (LexClass × List Char)
  | [] => none
  | c :: rest =>
    if isWordStart c then some (.word, c :: rest.takeWhile isWordPart)
    else if Text.isDigit c then some (.numeral, c :: rest.takeWhile Text.isDigit)
    else if c == '\'' then
      if rest.contains '\'' then some (.quoted, c :: rest.takeWhile (· != '\'') ++ ['\'']) else none
    else (Symbol.read? (c :: rest)).map (fun s => (.symbol s, s.spelling.toList))

/-- What a lexeme of a class says. -/
def LexClass.lexeme : LexClass → List Char → Except ScanError Lexeme
  | .word, cs =>
    match Keyword.ofWord? cs with
    | some k => .ok (.keyword k (String.ofList cs))
    | none => .ok (.identifier (String.ofList cs))
  | .numeral, cs =>
    if cs.length ≤ Text.maxDigits then .ok (.number (Text.numeral cs)) else .error (.longNumeral cs.length)
  | .quoted, cs => .ok (.text (String.ofList (cs.drop 1).dropLast))
  | .symbol s, _ => .ok (.symbol s)

/-- A place in a text: what is left of it, the number of characters passed, the current line and
the offset of the last line feed's successor. -/
structure Cursor where
  rest : List Char
  offset : Nat
  line : Nat
  lineStart : Nat
deriving DecidableEq, Repr

namespace Cursor

def start (text : List Char) (line : Nat) : Cursor := ⟨text, 0, line, 0⟩

/-- The place after the next `used`. -/
def pass (c : Cursor) (used : List Char) : Cursor :=
  { c with
    rest := c.rest.drop used.length
    offset := c.offset + used.length
    lineStart :=
      if used.contains '\n' then
        c.offset + used.length - (used.reverse.takeWhile (· != '\n')).length
      else c.lineStart }

/-- A run of line breaks counts as the greater of its numbers of line feeds and of carriage
returns. -/
def breakCount (run : List Char) : Nat := max (run.count '\n') (run.count '\r')

def passBreaks (c : Cursor) (run : List Char) : Cursor :=
  { c.pass run with line := c.line + breakCount run }

inductive Step where
  | skip (next : Cursor)
  | token (t : Token) (next : Cursor)
  | fail (e : ScanError) (next : Cursor)
  | done

/-- One step: past a space or a run of line breaks, or over a lexeme. An illegal character is not
passed; a numeral that is too long is. -/
def step (c : Cursor) : Step :=
  match c.rest with
  | [] => .done
  | ch :: _ =>
    if isSpace ch then .skip (c.pass [ch])
    else if isBreak ch then .skip (c.passBreaks (c.rest.takeWhile isBreak))
    else
      match munch c.rest with
      | none => .fail (.illegal ch c.line (c.offset - c.lineStart + 1)) c
      | some (cls, used) =>
        match cls.lexeme used with
        | .ok l => .token ⟨l, c.line, c.offset⟩ (c.pass used)
        | .error e => .fail e (c.pass used)

/-- The first step that is not a skip. -/
def seek : Nat → Cursor → Step × Cursor
  | 0, c => (.done, c)
  | n + 1, c =>
    match c.step with
    | .skip c' => seek n c'
    | s => (s, c)

end Cursor

/-- The tokens of a text up to its end or up to a failure, and the place where scanning stopped. -/
structure Scan where
  tokens : List Token
  error? : Option ScanError
  finish : Cursor
deriving DecidableEq, Repr

/-- Every step passes a character, so that one step for each character and one more are enough. -/
def Cursor.scan : Nat → Cursor → Scan
  | 0, c => ⟨[], none, c⟩
  | n + 1, c =>
    match c.step with
    | .skip c' => scan n c'
    | .token t c' => let s := scan n c'; { s with tokens := t :: s.tokens }
    | .fail e c' => ⟨[], some e, c'⟩
    | .done => ⟨[], none, c⟩

/-- Scans a text whose first line has the given number. -/
def scan (text : String) (line : Nat) : Scan :=
  (Cursor.start text.toList line).scan (text.toList.length + 1)

/-- A scanner: the line it has reached and, once it has a text, its place there. -/
structure Scanner where
  line : Nat
  cursor? : Option Cursor

namespace Scanner

def fresh : Scanner := ⟨1, none⟩

def input (s : Scanner) (text : String) : Scanner :=
  { s with cursor? := some (Cursor.start text.toList s.line) }

def moved (c : Cursor) : Scanner := ⟨c.line, some c⟩

/-- The answer to a request for a token. -/
inductive Answer where
  | token (t : Token)
  | finished
  | failed (e : ScanError)
  | noInput

def token (s : Scanner) : Answer × Scanner :=
  match s.cursor? with
  | none => (.noInput, s)
  | some c =>
    match c.seek (c.rest.length + 1) with
    | (.token t next, _) => (.token t, moved next)
    | (.fail e next, _) => (.failed e, moved next)
    | (_, last) => (.finished, moved last)

/-- Scans a new text to its end. -/
def tokenize (s : Scanner) (text : String) : Scan × Scanner :=
  let result := scan text s.line
  (result, moved result.finish)

end Scanner

end DocQuery.Sql
