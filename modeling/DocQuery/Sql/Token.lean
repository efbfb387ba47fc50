namespace DocQuery.Sql

inductive Keyword where
  | select | fromWord | whereWord | andWord | orWord | limit | order | byWord | asc | desc
  | inWord | between | count | min | max | avg | sum | group | having | join | on
deriving DecidableEq, Repr

namespace Keyword

def spelling : Keyword → String
  | select => "SELECT"
  | fromWord => "FROM"
  | whereWord => "WHERE"
  | andWord => "AND"
  | orWord => "OR"
  | limit => "LIMIT"
  | order => "ORDER"
  | byWord => "BY"
  | asc => "ASC"
  | desc => "DESC"
  | inWord => "IN"
  | between => "BETWEEN"
  | count => "COUNT"
  | min => "MIN"
  | max => "MAX"
  | avg => "AVG"
  | sum => "SUM"
  | group => "GROUP"
  | having => "HAVING"
  | join => "JOIN"
  | on => "ON"

def all : List Keyword :=
  [select, fromWord, whereWord, andWord, orWord, limit, order, byWord, asc, desc, inWord, between,
   count, min, max, avg, sum, group, having, join, on]

/-- The keyword that a word of ASCII characters spells, in any letter case. -/
def ofWord? (cs : List Char) : Option Keyword :=
  all.find? (fun k => k.spelling.toList == cs.map Char.toUpper)

end Keyword

inductive Symbol where
  | eq | ne | gt | lt | ge | le | comma | semicolon | star | lparen | rparen | dot
deriving DecidableEq, Repr

namespace Symbol

def spelling : Symbol → String
  | eq => "="
  | ne => "!="
  | gt => ">"
  | lt => "<"
  | ge => ">="
  | le => "<="
  | comma => ","
  | semicolon => ";"
  | star => "*"
  | lparen => "("
  | rparen => ")"
  | dot => "."

def name : Symbol → String
  | eq => "EQ"
  | ne => "NE"
  | gt => "GT"
  | lt => "LT"
  | ge => "GE"
  | le => "LE"
  | comma => "COMMA"
  | semicolon => "SEMICOLON"
  | star => "STAR"
  | lparen => "LPAREN"
  | rparen => "RPAREN"
  | dot => "DOT"

/-- The symbol at the start of a text, the longer one where two fit. -/
def read? : List Char → Option Symbol
  | '!' :: '=' :: _ => some ne
  | '>' :: '=' :: _ => some ge
  | '<' :: '=' :: _ => some le
  | '=' :: _ => some eq
  | '>' :: _ => some gt
  | '<' :: _ => some lt
  | ',' :: _ => some comma
  | ';' :: _ => some semicolon
  | '*' :: _ => some star
  | '(' :: _ => some lparen
  | ')' :: _ => some rparen
  | '.' :: _ => some dot
  | _ => none

end Symbol

/-- What a token says. A keyword keeps the letter case in which it was written. -/
inductive Lexeme where
  | keyword (k : Keyword) (word : String)
  | identifier (name : String)
  | number (n : Nat)
  | text (s : String)
  | symbol (s : Symbol)
deriving DecidableEq, Repr

namespace Lexeme

/-- The name of the token class. -/
def className : Lexeme → String
  | keyword k _ => k.spelling
  | identifier _ => "IDENTIFIER"
  | number _ => "NUMBER"
  | text _ => "STRING"
  | symbol s => s.name

/-- The value of the token as text. -/
def value : Lexeme → String
  | keyword _ word => word
  | identifier name => name
  | number n => toString n
  | text s => s
  | symbol s => s.spelling

end Lexeme

/-- A token with its line and the number of characters before it. -/
structure Token where
  lexeme : Lexeme
  line : Nat
  offset : Nat
deriving DecidableEq, Repr

end DocQuery.Sql
