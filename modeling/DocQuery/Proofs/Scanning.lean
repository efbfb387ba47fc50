import DocQuery.Proofs.Parsed

namespace DocQuery.Proofs

open Sql

/-- The characters between lexemes. -/
def isGap (c : Char) : Bool := isSpace c || isBreak c

/-- A lexeme of a class before the rest of a text, which does not go on with it. -/
inductive Munched : LexClass → List Char → List Char → Prop where
  | word (hc : isWordStart c = true) (hcs : ∀ d ∈ cs, isWordPart d = true)
      (hrest : ∀ d, rest.head? = some d → isWordPart d = false) : Munched .word (c :: cs) rest
  | numeral (hstart : isWordStart c = false) (hcs : ∀ d ∈ c :: cs, Text.isDigit d = true)
      (hrest : ∀ d, rest.head? = some d → Text.isDigit d = false) : Munched .numeral (c :: cs) rest
  | quoted (hcs : '\'' ∉ cs) : Munched .quoted ('\'' :: cs ++ ['\'']) rest
  | symbol (hs : Symbol.read? (s.spelling.toList ++ rest) = some s) :
      Munched (.symbol s) s.spelling.toList rest

theorem symbol_start (s : Symbol) : ∃ c cs, s.spelling.toList = c :: cs ∧ isWordStart c = false ∧
    Text.isDigit c = false ∧ c ≠ '\'' ∧ isGap c = false := by
  cases s <;> exact ⟨_, _, rfl, rfl, by decide, by decide, rfl⟩

/-- A lexeme is not empty, and starts with no gap. -/
theorem Munched.start {cls : LexClass} {used rest : List Char} (h : Munched cls used rest) :
    ∃ c cs, used = c :: cs ∧ isGap c = false := by
  cases h with
  | @word c cs _ hc =>
    refine ⟨c, cs, rfl, ?_⟩
    by_contra hgap
    simp only [isGap, isSpace, isBreak, Bool.not_eq_false, Bool.or_eq_true, beq_iff_eq] at hgap
    rcases hgap with (rfl | rfl) | (rfl | rfl) <;> cases hc
  | @numeral c cs _ _ hcs =>
    refine ⟨c, cs, rfl, ?_⟩
    have hc := hcs c List.mem_cons_self
    by_contra hgap
    simp only [isGap, isSpace, isBreak, Bool.not_eq_false, Bool.or_eq_true, beq_iff_eq] at hgap
    rcases hgap with (rfl | rfl) | (rfl | rfl) <;> exact absurd hc (by decide)
  | @quoted cs => exact ⟨'\'', cs ++ ['\''], rfl, rfl⟩
  | @symbol _ s =>
    obtain ⟨c, cs, hs, -, -, -, hgap⟩ := symbol_start s
    exact ⟨c, cs, hs, hgap⟩

theorem read_symbol {cs : List Char} {s : Symbol} (h : Symbol.read? cs = some s) :
    ∃ rest, cs = s.spelling.toList ++ rest := by
  unfold Symbol.read? at h
  split at h <;> cases h <;> exact ⟨_, rfl⟩

/-- Only an equals sign goes on with a symbol. -/
theorem symbol_read_iff {s : Symbol} {rest : List Char} :
    Symbol.read? (s.spelling.toList ++ rest) = some s ↔
      (s = .gt ∨ s = .lt → ∀ c, rest.head? = some c → c ≠ '=') := by
  cases s with
  | gt | lt =>
    rcases rest with _ | ⟨c, rest⟩
    · exact iff_of_true rfl (by simp)
    · by_cases hc : c = '='
      · subst hc
        exact iff_of_false (by simp [Symbol.spelling, Symbol.read?]) (by simp)
      · exact iff_of_true (by simp [Symbol.spelling, Symbol.read?, hc]) (by simpa using hc)
  | _ => exact iff_of_true rfl (by simp)

theorem take_while_all {p : Char → Bool} {cs rest : List Char} (hcs : ∀ d ∈ cs, p d = true)
    (hrest : ∀ d, rest.head? = some d → p d = false) : (cs ++ rest).takeWhile p = cs := by
  rw [List.takeWhile_append_of_pos hcs]
  cases rest with
  | nil => simp
  | cons d rest => simp [hrest d rfl]

/-- The longest lexeme at the start of a text is one before the rest of it. -/
theorem munch_iff {cs used : List Char} {cls : LexClass} :
    munch cs = some (cls, used) ↔ ∃ rest, cs = used ++ rest ∧ Munched cls used rest := by
  constructor
  · intro h
    unfold munch at h
    split at h
    · cases h
    · rename_i c cs
      split at h
      · rename_i hc
        cases h
        refine ⟨cs.dropWhile isWordPart, by simp, .word hc ?_ ?_⟩
        · exact fun d hd => List.mem_takeWhile_imp hd
        · exact fun d hd => by simpa [hd] using List.head?_dropWhile_not isWordPart cs
      · rename_i hstart
        split at h
        · rename_i hc
          cases h
          refine ⟨cs.dropWhile Text.isDigit, by simp, .numeral (by simpa using hstart) ?_ ?_⟩
          · exact List.forall_mem_cons.mpr ⟨hc, fun d hd => List.mem_takeWhile_imp hd⟩
          · exact fun d hd => by simpa [hd] using List.head?_dropWhile_not Text.isDigit cs
        · split at h
          · rename_i hquote
            split at h
            · rename_i hclosed
              cases h
              obtain rfl := beq_iff_eq.mp hquote
              obtain ⟨inner, rest, rfl, hinner⟩ :=
                List.eq_append_cons_of_mem (List.contains_iff_mem.mp hclosed)
              have htake : (inner ++ '\'' :: rest).takeWhile (· != '\'') = inner :=
                take_while_all (fun d hd => by simpa using ne_of_mem_of_not_mem hd hinner) (by simp)
              rw [htake]
              exact ⟨rest, by simp, .quoted hinner⟩
            · cases h
          · obtain ⟨s, hs, he⟩ := Option.map_eq_some_iff.mp h
            cases he
            obtain ⟨rest, hrest⟩ := read_symbol hs
            exact ⟨rest, hrest, .symbol (hrest ▸ hs)⟩
  · rintro ⟨rest, rfl, h⟩
    cases h with
    | @word c cs _ hc hcs hrest =>
      rw [List.cons_append, munch, if_pos hc, take_while_all hcs hrest]
    | @numeral c cs _ hstart hcs hrest =>
      obtain ⟨hc, hcs⟩ := List.forall_mem_cons.mp hcs
      rw [List.cons_append, munch, if_neg (by simp [hstart]), if_pos hc, take_while_all hcs hrest]
    | @quoted cs _ hcs =>
      have htake : (cs ++ '\'' :: rest).takeWhile (· != '\'') = cs :=
        take_while_all (fun d hd => by simpa using ne_of_mem_of_not_mem hd hcs) (by simp)
      have hsplit : '\'' :: cs ++ ['\''] ++ rest = '\'' :: (cs ++ '\'' :: rest) := by simp
      rw [hsplit, munch, if_neg (by decide), if_neg (by decide), if_pos (beq_self_eq_true _),
        if_pos (by simp), htake]
    | @symbol _ s hs =>
      obtain ⟨c, cs, hspell, hstart, hdigit, hquote, -⟩ := symbol_start s
      rw [hspell, List.cons_append] at hs
      rw [hspell, List.cons_append, munch, if_neg (by simp [hstart]), if_neg (by simp [hdigit]),
        if_neg (by simpa using hquote), hs, Option.map_some, hspell]

/-- The lexemes of a text. -/
inductive Scans : List Char → Lexemes → Prop where
  | nil : Scans [] []
  | gap (hc : isGap c = true) (h : Scans cs ls) : Scans (c :: cs) ls
  | lexeme (hm : Munched cls used rest) (hl : cls.lexeme used = .ok l) (h : Scans rest ls) :
      Scans (used ++ rest) (l :: ls)

theorem scans_nil {ls : Lexemes} : Scans [] ls ↔ ls = [] := by
  constructor
  · intro h
    generalize hcs : [] = cs at h
    cases h with
    | nil => rfl
    | gap => cases hcs
    | lexeme hm =>
      obtain ⟨c, cs, rfl, -⟩ := hm.start
      cases hcs
  · rintro rfl
    exact .nil

/-- Gaps have no lexemes. -/
theorem scans_gap {c : Char} {cs : List Char} {ls : Lexemes} (hc : isGap c = true) :
    Scans (c :: cs) ls ↔ Scans cs ls := by
  refine ⟨fun h => ?_, .gap hc⟩
  generalize hcs : c :: cs = cs' at h
  cases h with
  | nil => cases hcs
  | gap _ h =>
    cases hcs
    exact h
  | lexeme hm =>
    obtain ⟨d, ds, rfl, hd⟩ := hm.start
    cases hcs
    rw [hc] at hd
    cases hd

theorem scans_gaps {gaps cs : List Char} {ls : Lexemes} (hgaps : ∀ c ∈ gaps, isGap c = true) :
    Scans (gaps ++ cs) ls ↔ Scans cs ls := by
  induction gaps with
  | nil => rfl
  | cons c gaps ih =>
    obtain ⟨hc, hgaps⟩ := List.forall_mem_cons.mp hgaps
    rw [List.cons_append, scans_gap hc, ih hgaps]

/-- Where no gap is, the longest lexeme comes first. -/
theorem scans_munch {c : Char} {cs : List Char} {ls : Lexemes} (hc : isGap c = false) :
    Scans (c :: cs) ls ↔ ∃ cls used rest l ls', munch (c :: cs) = some (cls, used) ∧
      c :: cs = used ++ rest ∧ cls.lexeme used = .ok l ∧ ls = l :: ls' ∧ Scans rest ls' := by
  constructor
  · intro h
    generalize hcs : c :: cs = cs' at h
    cases h with
    | nil => cases hcs
    | gap hd =>
      cases hcs
      rw [hc] at hd
      cases hd
    | @lexeme cls used rest l ls' hm hl h =>
      exact ⟨cls, used, rest, l, ls', munch_iff.mpr ⟨rest, rfl, hm⟩, rfl, hl, rfl, h⟩
  · rintro ⟨cls, used, rest, l, ls', hm, hcs, hl, rfl, h⟩
    obtain ⟨rest', hrest, hm⟩ := munch_iff.mp hm
    obtain rfl := List.append_cancel_left (hcs.symm.trans hrest)
    rw [hcs]
    exact .lexeme hm hl h

/-- A step over gaps passes some of them, and nothing else. -/
theorem step_gap {c : Cursor} {ch : Char} {cs : List Char} (hrest : c.rest = ch :: cs)
    (hgap : isGap ch = true) : ∃ gaps next, c.step = .skip next ∧ c.rest = gaps ++ next.rest ∧
      gaps ≠ [] ∧ ∀ d ∈ gaps, isGap d = true := by
  by_cases hspace : isSpace ch = true
  · refine ⟨[ch], c.pass [ch], ?_, ?_, by simp, by simpa using hgap⟩
    · simp [Cursor.step, hrest, hspace]
    · simp [Cursor.pass, hrest]
  · have hbreak : isBreak ch = true := by simpa [isGap, hspace] using hgap
    refine ⟨c.rest.takeWhile isBreak, c.passBreaks (c.rest.takeWhile isBreak), ?_, ?_, ?_, ?_⟩
    · simp [Cursor.step, hrest, hspace, hbreak]
    · have hdrop : (c.passBreaks (c.rest.takeWhile isBreak)).rest = c.rest.dropWhile isBreak := by
        rw [Cursor.passBreaks, Cursor.pass, List.dropWhile_eq_drop_findIdx_not,
          List.takeWhile_eq_take_findIdx_not]
        simp
      rw [hdrop, List.takeWhile_append_dropWhile]
    · simp [hrest, hbreak]
    · intro d hd
      have hd := List.mem_takeWhile_imp hd
      simp [isGap, hd]

section

variable {c : Cursor} {ch : Char} {cs : List Char} (hrest : c.rest = ch :: cs)
  (hgap : isGap ch = false)

include hrest hgap

/-- Elsewhere a step is over the longest lexeme. -/
theorem step_lexeme {cls : LexClass} {used : List Char} {l : Lexeme}
    (hm : munch c.rest = some (cls, used)) (hl : cls.lexeme used = .ok l) :
    c.step = .token ⟨l, c.line, c.offset⟩ (c.pass used) := by
  obtain ⟨hspace, hbreak⟩ : isSpace ch = false ∧ isBreak ch = false := by
    simpa [isGap] using hgap
  rw [hrest] at hm
  simp [Cursor.step, hrest, hspace, hbreak, hm, hl]

/-- A step fails where there is no lexeme, or one that says nothing. -/
theorem step_fails
    (h : ∀ cls used, munch c.rest = some (cls, used) → ∀ l, cls.lexeme used ≠ .ok l) :
    ∃ e next, c.step = .fail e next := by
  obtain ⟨hspace, hbreak⟩ : isSpace ch = false ∧ isBreak ch = false := by
    simpa [isGap] using hgap
  rw [hrest] at h
  cases hm : munch (ch :: cs) with
  | none =>
    refine ⟨.illegal ch c.line (c.offset - c.lineStart + 1), c, ?_⟩
    simp [Cursor.step, hrest, hspace, hbreak, hm]
  | some found =>
    cases hl : found.1.lexeme found.2 with
    | ok l => exact absurd hl (h found.1 found.2 hm l)
    | error e =>
      refine ⟨e, c.pass found.2, ?_⟩
      simp [Cursor.step, hrest, hspace, hbreak, hm, hl]

end

/-- The scanner finds the lexemes from its place on, and no error, just if there are such. -/
theorem cursor_scans {n : Nat} {c : Cursor} (hn : c.rest.length < n) {ls : Lexemes} :
    Scans c.rest ls ↔ (c.scan n).error? = none ∧ (c.scan n).tokens.map (·.lexeme) = ls := by
  induction n generalizing c ls with
  | zero => cases hn
  | succ n ih =>
    cases hrest : c.rest with
    | nil =>
      have hdone : c.step = .done := by simp [Cursor.step, hrest]
      rw [scans_nil, Cursor.scan, hdone]
      simp [eq_comm]
    | cons ch cs =>
      cases hgap : isGap ch with
      | true =>
        obtain ⟨gaps, next, hstep, hsplit, hne, hgaps⟩ := step_gap hrest hgap
        have hshort : next.rest.length < n := by
          have hlength := congrArg List.length hsplit
          have hpos := List.length_pos_iff.mpr hne
          rw [List.length_append] at hlength
          omega
        rw [← hrest, hsplit, scans_gaps hgaps, Cursor.scan, hstep]
        exact ih hshort
      | false =>
        rw [scans_munch hgap, ← hrest]
        by_cases hfound : ∃ cls used l, munch c.rest = some (cls, used) ∧ cls.lexeme used = .ok l
        · obtain ⟨cls, used, l, hm, hl⟩ := hfound
          obtain ⟨rest, hsplit, hmunched⟩ := munch_iff.mp hm
          have hpass : (c.pass used).rest = rest := by
            rw [Cursor.pass, hsplit]
            exact List.drop_left
          have hshort : (c.pass used).rest.length < n := by
            obtain ⟨d, ds, rfl, -⟩ := hmunched.start
            rw [hsplit, List.length_append, List.length_cons] at hn
            rw [hpass]
            omega
          have hnext := @ih (c.pass used) hshort
          rw [hpass] at hnext
          rw [Cursor.scan, step_lexeme hrest hgap hm hl]
          constructor
          · rintro ⟨cls', used', rest', l', ls', hm', hsplit', hl', rfl, h⟩
            cases hm.symm.trans hm'
            cases hl.symm.trans hl'
            obtain rfl := List.append_cancel_left (hsplit.symm.trans hsplit')
            obtain ⟨herror, htokens⟩ := hnext.mp h
            exact ⟨herror, congrArg (l :: ·) htokens⟩
          · rintro ⟨herror, htokens⟩
            refine ⟨cls, used, rest, l, _, hm, hsplit, hl, htokens.symm, ?_⟩
            exact hnext.mpr ⟨herror, rfl⟩
        · obtain ⟨e, next, hfail⟩ := step_fails hrest hgap fun cls used hm l hl =>
            hfound ⟨cls, used, l, hm, hl⟩
          rw [Cursor.scan, hfail]
          refine iff_of_false ?_ (by simp)
          rintro ⟨cls, used, -, l, -, hm, -, hl, -⟩
          exact hfound ⟨cls, used, l, hm, hl⟩

/-- The scanner finds the lexemes of a text just if it has such, whatever the number of its first
line is. -/
theorem scan_iff {text : String} {line : Nat} {ls : Lexemes} :
    Scans text.toList ls ↔
      (scan text line).error? = none ∧ (scan text line).tokens.map (·.lexeme) = ls :=
  @cursor_scans _ (Cursor.start text.toList line) (Nat.lt_succ_self _) _

/-- A text is parsed as its lexemes are. -/
theorem parse_scans {text : String} {line : Nat} {q : Query} :
    Sql.parse text line = .ok q ↔ ∃ ls, Scans text.toList ls ∧ Query.ofLexemes ls = .ok q := by
  rw [Sql.parse, Scan.parse]
  constructor
  · intro h
    split at h
    · rename_i q' hq
      split at h
      · cases h
      · rename_i herror
        cases h
        exact ⟨_, scan_iff.mpr ⟨herror, rfl⟩, hq⟩
    · split at h <;> cases h
  · rintro ⟨ls, hscans, hq⟩
    obtain ⟨herror, rfl⟩ := (@scan_iff _ line _).mp hscans
    simp only [hq, herror]

end DocQuery.Proofs
