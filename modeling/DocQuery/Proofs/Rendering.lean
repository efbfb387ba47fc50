import DocQuery.Proofs.ReadLexemes
import DocQuery.Proofs.Scanning
import Mathlib.Data.List.Induction
import Mathlib.Tactic.TFAE

namespace DocQuery.Proofs

open Sql

def written : Lexeme → List Char
  | .keyword _ w => w.toList
  | .identifier a => a.toList
  | .number n => Nat.toDigits 10 n
  | .text s => '\'' :: s.toList ++ ['\'']
  | .symbol s => s.spelling.toList

/-- Whether a blank stands between two lexemes: not inside of parentheses or names, nor before the
argument of an aggregate. -/
def spaced : Lexeme → Lexeme → Bool
  | .symbol .lparen, _ | .symbol .dot, _ => false
  | _, .symbol .comma | _, .symbol .semicolon | _, .symbol .rparen | _, .symbol .dot => false
  | .keyword k _, .symbol .lparen => (Func.ofKeyword? k).isNone
  | _, _ => true

def layout : Lexemes → List Char
  | [] => []
  | [l] => written l
  | l :: l' :: ls => written l ++ ((if spaced l l' then [' '] else []) ++ layout (l' :: ls))

/-- A statement as text. -/
def render (q : Query) : String := String.ofList (layout (queryLexemes q))

/-- The users of some cities with an order of more than ten, and how many there are. -/
def buyersPerCity : Query :=
  ⟨.items (.column ⟨some "users", "city"⟩) [.aggregate .countAll], .table "users",
    some (.connect (.inQuery ⟨none, "id"⟩ ⟨.items (.column ⟨none, "user_id"⟩) [], .table "orders",
      some (.compare ⟨none, "amount"⟩ .gt (.literal (.number 10))), [], none, [], none⟩) "AND"
      (.inList ⟨none, "city"⟩ (.text "Rome") [.text "Oslo"])),
    ["city"], none, [⟨"count", .desc⟩], some 5⟩

set_option maxRecDepth 4096 in
example : render buyersPerCity = "SELECT users.city, COUNT(*) FROM users WHERE id IN " ++
    "(SELECT user_id FROM orders WHERE amount > 10) AND city IN ('Rome', 'Oslo') " ++
    "GROUP BY city ORDER BY COUNT(*) DESC LIMIT 5;" := by
  rfl

/-- The characters that may follow a lexeme without a blank, and the blank. -/
def isBoundary (c : Char) : Bool := [' ', ',', ';', ')', '.', '('].contains c

theorem boundary_cases {c : Char} (h : isBoundary c = true) :
    isWordPart c = false ∧ Text.isDigit c = false ∧ c ≠ '=' := by
  simp only [isBoundary, List.contains_eq_mem, List.mem_cons, List.not_mem_nil, or_false,
    decide_eq_true_eq] at h
  rcases h with rfl | rfl | rfl | rfl | rfl | rfl <;> decide

/-- A lexeme ends before the rest of a text. -/
def EndsBefore (l : Lexeme) (rest : List Char) : Prop :=
  l = .symbol .lparen ∨ l = .symbol .dot ∨ ∀ c, rest.head? = some c → isBoundary c = true

theorem EndsBefore.boundary {l : Lexeme} {rest : List Char} (h : EndsBefore l rest)
    (hl : ∀ s, l ≠ .symbol s) : ∀ c, rest.head? = some c → isBoundary c = true := by
  rcases h with h | h | h
  · exact absurd h (hl _)
  · exact absurd h (hl _)
  · exact h

theorem upper_letter {c : Char} (h : c.toUpper.isAlpha = true) : c.isAlpha = true := by
  unfold Char.toUpper at h
  split at h
  · rename_i hc
    have hlower : c.isLower = true := by
      delta Char.isLower
      simpa using hc
    delta Char.isAlpha
    rw [hlower, Bool.or_true]
  · exact h

/-- A keyword is a word of letters. -/
theorem keyword_name {k : Keyword} {w : String} (h : Keyword.ofWord? w.toList = some k) :
    IsName w := by
  have hspell := keyword_spelled h
  have hletters : ∀ d ∈ k.spelling.toList, d.isAlpha = true := by
    cases k <;> exact List.all_eq_true.mp rfl
  have hall : ∀ d ∈ w.toList, d.isAlpha = true := by
    intro d hd
    refine upper_letter (hletters _ ?_)
    rw [← hspell]
    exact List.mem_map_of_mem hd
  cases hw : w.toList with
  | nil =>
    rw [hw] at hspell
    cases k <;> cases hspell
  | cons c cs =>
    rw [hw] at hall
    obtain ⟨hc, hcs⟩ := List.forall_mem_cons.mp hall
    refine ⟨c, cs, hw, by simp [isWordStart, hc], fun d hd => ?_⟩
    simp [isWordPart, Char.isAlphanum, hcs d hd]

theorem digit_value {c : Char} (h : c.isDigit = true) :
    Text.digitValue? c = some (c.toNat - '0'.toNat) := by
  obtain ⟨hlow, hhigh⟩ : 48 ≤ c.toNat ∧ c.toNat ≤ 57 := Char.isDigit_iff_toNat.mp h
  have hfind : Text.digitRanges.find? c.toNat = some (48, 57) := by
    rw [Text.digitRanges, Text.Ranges.find?, if_neg (by omega), if_pos hhigh]
  rw [Text.digitValue?, hfind, Option.map_some]
  exact congrArg some (Nat.mod_eq_of_lt (by omega))

theorem digit_no_start {c : Char} (h : c.isDigit = true) : isWordStart c = false := by
  obtain ⟨hlow, hhigh⟩ : 48 ≤ c.val.toNat ∧ c.val.toNat ≤ 57 := Char.isDigit_iff_toNat.mp h
  have hupper : 65 ≤ c.val.toNat → 90 < c.val.toNat := by omega
  have hlower : 97 ≤ c.val.toNat → 122 < c.val.toNat := by omega
  have hline : c ≠ '_' := by
    rintro rfl
    exact absurd hhigh (by decide)
  delta isWordStart Char.isAlpha Char.isUpper Char.isLower
  simpa [UInt32.le_iff_toNat_le, ← Char.toNat_val, hline] using ⟨hupper, hlower⟩

theorem numeral_digits (n : Nat) : Text.numeral (Nat.toDigits 10 n) = n := by
  have hfold : ∀ (cs : List Char) (m : Nat), (∀ c ∈ cs, c.isDigit = true) →
      cs.foldl (fun n c => 10 * n + (Text.digitValue? c).getD 0) m = Nat.ofDigitChars 10 cs m := by
    intro cs
    induction cs with
    | nil => exact fun m _ => rfl
    | cons c cs ih =>
      intro m hcs
      obtain ⟨hc, hcs⟩ := List.forall_mem_cons.mp hcs
      rw [List.foldl_cons, ih _ hcs, Nat.ofDigitChars_cons, digit_value hc]
      rfl
  rw [Text.numeral, hfold _ _ fun c hc => Nat.isDigit_of_mem_toDigits (by decide) (by decide) hc,
    Nat.ofDigitChars_ten_toDigits]

theorem numeral_bound (cs : List Char) : Text.numeral cs < 10 ^ cs.length := by
  have hdigit : ∀ c, (Text.digitValue? c).getD 0 < 10 := by
    intro c
    rw [Text.digitValue?]
    cases Text.digitRanges.find? c.toNat with
    | none => exact Nat.zero_lt_succ _
    | some r => exact Nat.mod_lt _ (by decide)
  induction cs using List.reverseRecOn with
  | nil => decide
  | append_singleton cs c ih =>
    have hc := hdigit c
    rw [Text.numeral] at ih
    rw [Text.numeral, List.foldl_append, List.foldl_cons, List.foldl_nil, List.length_append,
      List.length_singleton, Nat.pow_succ]
    omega

theorem symbol_read {s : Symbol} {rest : List Char} (h : EndsBefore (.symbol s) rest) :
    Symbol.read? (s.spelling.toList ++ rest) = some s := by
  refine symbol_read_iff.mpr fun hs c hc => ?_
  rcases h with h | h | h
  · cases h
    simp at hs
  · cases h
    simp at hs
  · exact (boundary_cases (h c hc)).2.2

/-- A writable lexeme is the longest one where it ends. -/
theorem written_munched {l : Lexeme} {rest : List Char} (hl : Writable l) (h : EndsBefore l rest) :
    ∃ cls, Munched cls (written l) rest ∧ cls.lexeme (written l) = .ok l := by
  have hword : ∀ {w : String}, IsName w → (∀ c, rest.head? = some c → isBoundary c = true) →
      Munched .word w.toList rest := by
    rintro w ⟨c, cs, hw, hc, hcs⟩ hrest
    rw [hw]
    exact .word hc hcs fun d hd => (boundary_cases (hrest d hd)).1
  cases l with
  | keyword k w =>
    have hk : Keyword.ofWord? w.toList = some k := hl
    refine ⟨.word, hword (keyword_name hk) (h.boundary (by simp)), ?_⟩
    simp [written, LexClass.lexeme, hk]
  | identifier a =>
    obtain ⟨hname, hk⟩ : IsName a ∧ Keyword.ofWord? a.toList = none := hl
    refine ⟨.word, hword hname (h.boundary (by simp)), ?_⟩
    simp [written, LexClass.lexeme, hk]
  | number n =>
    have hdigits : ∀ c ∈ Nat.toDigits 10 n, c.isDigit = true :=
      fun c hc => Nat.isDigit_of_mem_toDigits (by decide) (by decide) hc
    refine ⟨.numeral, ?_, ?_⟩
    · rw [written]
      cases hcs : Nat.toDigits 10 n with
      | nil => exact absurd hcs Nat.toDigits_ne_nil
      | cons c cs =>
        rw [hcs] at hdigits
        have hend := h.boundary (by simp)
        refine .numeral ?_ (fun d hd => ?_) fun d hd => (boundary_cases (hend d hd)).2.1
        · exact digit_no_start (hdigits c List.mem_cons_self)
        · rw [Text.isDigit, digit_value (hdigits d hd)]
          rfl
    · have hlength : (Nat.toDigits 10 n).length ≤ Text.maxDigits := hl
      rw [written, LexClass.lexeme, if_pos hlength, numeral_digits]
  | text s =>
    have hs : '\'' ∉ s.toList := hl
    exact ⟨.quoted, .quoted hs, by simp [written, LexClass.lexeme]⟩
  | symbol s => exact ⟨.symbol s, .symbol (symbol_read h), rfl⟩

/-- Where no blank is needed, a lexeme ends by itself. -/
theorem unspaced_ends {l l' : Lexeme} (h : spaced l l' = false) (rest : List Char) :
    EndsBefore l (written l' ++ rest) := by
  have hhead : ∀ {c : Char} {cs : List Char}, isBoundary c = true → EndsBefore l (c :: cs) :=
    fun hc => .inr (.inr fun d hd => by cases hd; exact hc)
  unfold spaced at h
  split at h
  · exact .inl rfl
  · exact .inr (.inl rfl)
  · exact hhead rfl
  · exact hhead rfl
  · exact hhead rfl
  · exact hhead rfl
  · exact hhead rfl
  · cases h

theorem layout_cons (l : Lexeme) (ls : Lexemes) : ∃ rest, layout (l :: ls) = written l ++ rest := by
  cases ls with
  | nil => exact ⟨[], (List.append_nil _).symm⟩
  | cons l' ls => exact ⟨_, rfl⟩

/-- The lexemes of a layout are those that were laid out. -/
theorem layout_scans {ls : Lexemes} (hls : AllWritable ls) : Scans (layout ls) ls := by
  induction ls with
  | nil => exact .nil
  | cons l ls ih =>
    obtain ⟨hl, hls⟩ := all_writable_cons.mp hls
    cases ls with
    | nil =>
      obtain ⟨cls, hm, hlexeme⟩ := @written_munched l [] hl (.inr (.inr (by simp)))
      have hscans := Scans.lexeme hm hlexeme .nil
      rwa [List.append_nil] at hscans
    | cons l' ls =>
      have hrest := ih hls
      rw [layout]
      cases hspace : spaced l l' with
      | true =>
        obtain ⟨cls, hm, hlexeme⟩ := @written_munched l (' ' :: layout (l' :: ls)) hl
          (.inr (.inr fun c hc => by cases hc; rfl))
        exact .lexeme hm hlexeme (.gap rfl hrest)
      | false =>
        obtain ⟨rest, hlayout⟩ := layout_cons l' ls
        have hends := unspaced_ends hspace rest
        rw [← hlayout] at hends
        obtain ⟨cls, hm, hlexeme⟩ := written_munched hl hends
        exact .lexeme hm hlexeme hrest

/-- The lexemes of a text can be written. -/
theorem munched_writable {cls : LexClass} {used rest : List Char} {l : Lexeme}
    (hm : Munched cls used rest) (hl : cls.lexeme used = .ok l) : Writable l := by
  cases hm with
  | @word c cs _ hc hcs =>
    simp only [LexClass.lexeme] at hl
    split at hl
    · rename_i k hk
      cases hl
      simpa [Writable] using hk
    · rename_i hk
      cases hl
      exact ⟨⟨c, cs, by simp, hc, hcs⟩, by simpa using hk⟩
  | @numeral c cs =>
    simp only [LexClass.lexeme] at hl
    split at hl
    · rename_i hlength
      cases hl
      have hbound := numeral_bound (c :: cs)
      refine (Nat.length_toDigits_le_iff (by decide) (by decide)).mpr ?_
      exact hbound.trans_le (Nat.pow_le_pow_right (by decide) hlength)
    · cases hl
  | @quoted _ cs hcs =>
    cases hl
    simpa [Writable] using hcs
  | symbol =>
    cases hl
    trivial

theorem scans_writable {cs : List Char} {ls : Lexemes} (h : Scans cs ls) : AllWritable ls := by
  induction h with
  | nil => exact all_writable_nil
  | gap _ _ ih => exact ih
  | lexeme hm hl _ ih => exact all_writable_cons.mpr ⟨munched_writable hm hl, ih⟩

/-- A statement that can be written: its conditions join one comparison to all those before it,
its names are words that are not reserved, its numbers are not too long, and its texts have no
quotes. -/
def Renderable (q : Query) : Prop := HasCombs q ∧ AllWritable (queryLexemes q)

/-- Every parsed statement can be written. -/
theorem parse_renderable {text : String} {line : Nat} {q : Query}
    (h : Sql.parse text line = .ok q) : Renderable q := by
  obtain ⟨ls, hscans, hq⟩ := parse_scans.mp h
  exact of_lexemes_read (scans_writable hscans) hq

theorem parse_writable {text : String} {line : Nat} {q : Query}
    (h : Sql.parse text line = .ok q) : AllWritable (statementLexemes q) :=
  (all_writable_append.mp (parse_renderable h).2).1

/-- Every parsed statement is as it is read. -/
theorem parse_named {text : String} {line : Nat} {q : Query} (h : Sql.parse text line = .ok q) :
    Named q :=
  statement_named (parse_renderable h).1 (parse_writable h)

/-- The condition of every parsed statement is a comb of comparisons. -/
theorem parse_comb {text : String} {line : Nat} {q : Query} {c : Condition}
    (h : Sql.parse text line = .ok q) (hc : q.condition? = some c) : Comb c :=
  (parse_named h).condition c hc

/-- The subquery of a parsed statement is as it is read. -/
theorem inner_named {text : String} {line : Nat} {q inner : Query} {c : ColumnRef}
    (h : Sql.parse text line = .ok q) (hc : q.condition? = some (.inQuery c inner)) :
    Named inner := by
  have hcombs := (parse_renderable h).1
  have hlexemes := clause_writable (writable_parts (parse_writable h)).condition hc
  obtain ⟨items, source, condition?, groupBy, having?, orderBy, limit?⟩ := q
  obtain rfl : condition? = some (.inQuery c inner) := hc
  simp only [HasCombs, ClauseComb, NestedCombs] at hcombs
  simp only [conditionLexemes, all_writable_append] at hlexemes
  exact statement_named hcombs.2.1.2 hlexemes.1.2

theorem render_parses {q : Query} (h : Renderable q) (line : Nat) :
    Sql.parse (render q) line = .ok q := by
  obtain ⟨hcombs, hlexemes⟩ := h
  refine parse_scans.mpr ⟨queryLexemes q, ?_, query_read hcombs⟩
  rw [render, String.toList_ofList]
  exact layout_scans hlexemes

/-- The statements that can be written are those that can be parsed, and each is parsed back from
its own text. -/
theorem render_parse_exact (q : Query) :
    [Renderable q, ∃ text line, Sql.parse text line = .ok q,
      ∀ line, Sql.parse (render q) line = .ok q].TFAE := by
  tfae_have 1 → 3 := render_parses
  tfae_have 3 → 2 := fun h => ⟨render q, 1, h 1⟩
  tfae_have 2 → 1 := by
    rintro ⟨text, line, h⟩
    exact parse_renderable h
  tfae_finish

end DocQuery.Proofs
