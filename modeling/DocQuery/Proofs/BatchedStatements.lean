import DocQuery.Batch
import DocQuery.Proofs.ExactStatements
import DocQuery.Proofs.Scanning

namespace DocQuery.Proofs

open Sql Text

/-- What starts a comment. -/
def dashes : List Char := ['-', '-']

/-- A text that a batch cuts nowhere. -/
def Uncut (cs : List Char) : Prop := ';' ∉ cs ∧ ¬dashes <:+: cs

def UncutTexts (ls : Lexemes) : Prop := ∀ s, .text s ∈ ls → Uncut s.toList

theorem range_found {rs : Ranges} {n : Nat} {r : Nat × Nat} (h : rs.find? n = some r) :
    r ∈ rs ∧ r.1 ≤ n ∧ n ≤ r.2 := by
  induction rs with
  | nil => cases h
  | cons s rs ih =>
    obtain ⟨low, high⟩ := s
    rw [Ranges.find?] at h
    split at h
    · cases h
    · split at h
      · cases h
        exact ⟨List.mem_cons_self, by omega, by omega⟩
      · obtain ⟨hmem, hr⟩ := ih h
        exact ⟨List.mem_cons_of_mem _ hmem, hr⟩

/-- White space is no part of a word or of a numeral. -/
theorem blank_cases {c : Char} (h : isBlank c = true) :
    isWordPart c = false ∧ isDigit c = false := by
  obtain ⟨r, hr⟩ := Option.isSome_iff_exists.mp h
  obtain ⟨hmem, hlow, hhigh⟩ := range_found hr
  constructor
  · by_contra hword
    have hbounds := word_part_bounds (Bool.not_eq_false _ ▸ hword)
    have hapart : ∀ r ∈ blankRanges, r.2 < 48 ∨ 122 < r.1 := by decide
    have hr := hapart r hmem
    omega
  · by_contra hdigit
    obtain ⟨v, hv⟩ := Option.isSome_iff_exists.mp (Bool.not_eq_false _ ▸ hdigit)
    obtain ⟨d, hd, -⟩ := Option.map_eq_some_iff.mp hv
    obtain ⟨hdmem, hdlow, hdhigh⟩ := range_found hd
    have hapart : ∀ d ∈ digitRanges, ∀ r ∈ blankRanges, d.2 < r.1 ∨ r.2 < d.1 := by decide
    have hr := hapart d hdmem r hmem
    omega

theorem gap_blank {c : Char} (h : isGap c = true) : isBlank c = true := by
  simp only [isGap, isSpace, isBreak, Bool.or_eq_true, beq_iff_eq] at h
  rcases h with (rfl | rfl) | (rfl | rfl) <;> decide

/-- The characters of a lexeme: a literal is quoted, and all others have no white space, no dash,
and no semicolon except the one that ends a statement. -/
theorem munched_chars {cls : LexClass} {used rest : List Char} (h : Munched cls used rest) :
    (∃ cs, cls = .quoted ∧ used = '\'' :: cs ++ ['\'']) ∨
      ∀ c ∈ used, isBlank c = false ∧ c ≠ '-' ∧ (c = ';' → cls = .symbol .semicolon) := by
  have hplain : ∀ c, isWordPart c = true ∨ isDigit c = true →
      isBlank c = false ∧ c ≠ '-' ∧ c ≠ ';' := by
    intro c hc
    refine ⟨?_, ?_, ?_⟩
    · by_contra hblank
      obtain ⟨hword, hdigit⟩ := blank_cases (Bool.not_eq_false _ ▸ hblank)
      simp [hword, hdigit] at hc
    · rintro rfl
      exact absurd hc (by decide)
    · rintro rfl
      exact absurd hc (by decide)
  cases h with
  | @word c cs _ hc hcs =>
    refine .inr fun d hd => ?_
    have hpart : isWordPart d = true := by
      rcases List.mem_cons.mp hd with rfl | hd
      · exact word_start_part hc
      · exact hcs d hd
    obtain ⟨hblank, hdash, hsemi⟩ := hplain d (.inl hpart)
    exact ⟨hblank, hdash, fun h => absurd h hsemi⟩
  | @numeral c cs _ _ hcs =>
    refine .inr fun d hd => ?_
    obtain ⟨hblank, hdash, hsemi⟩ := hplain d (.inr (hcs d hd))
    exact ⟨hblank, hdash, fun h => absurd h hsemi⟩
  | @quoted cs => exact .inl ⟨cs, rfl, rfl⟩
  | @symbol _ s =>
    have hall : (s.spelling.toList.all fun c =>
        !isBlank c && c != '-' && (c != ';' || decide (s = .semicolon))) = true := by
      cases s <;> rfl
    refine .inr fun c hc => ?_
    simpa [and_assoc, ← imp_iff_not_or] using List.all_eq_true.mp hall c hc

/-- Before a semicolon a lexeme ends as well. -/
theorem munched_next {cls : LexClass} {used rest rest' : List Char} (h : Munched cls used rest)
    (hnext : rest'.head? = rest.head? ∨ rest'.head? = some ';') : Munched cls used rest' := by
  have hend : ∀ {p : Char → Bool}, p ';' = false → (∀ d, rest.head? = some d → p d = false) →
      ∀ d, rest'.head? = some d → p d = false := by
    intro p hp hrest d hd
    rcases hnext with hnext | hnext
    · exact hrest d (hnext ▸ hd)
    · cases hnext.symm.trans hd
      exact hp
  cases h with
  | word hc hcs hrest => exact .word hc hcs (hend (by decide) hrest)
  | numeral hstart hcs hrest => exact .numeral hstart hcs (hend (by decide) hrest)
  | quoted hcs => exact .quoted hcs
  | @symbol _ s hs =>
    refine .symbol (symbol_read_iff.mpr fun hpart d hd => ?_)
    have hrest : ∀ d, rest.head? = some d → (d == '=') = false :=
      fun d hd => beq_false_of_ne (symbol_read_iff.mp hs hpart d hd)
    simpa using hend (by decide) hrest d hd

/-- The text without the white space at its end. -/
def dropLastBlanks (cs : List Char) : List Char := (dropBlanks cs.reverse).reverse

theorem last_blanks_append (xs ys : List Char) : dropLastBlanks (xs ++ ys) =
    if dropLastBlanks ys = [] then dropLastBlanks xs else xs ++ dropLastBlanks ys := by
  simp only [dropLastBlanks, dropBlanks, List.reverse_append, List.dropWhile_append,
    List.reverse_eq_nil_iff, List.isEmpty_iff]
  split <;> simp

theorem last_blanks_kept {cs : List Char} {c : Char} (hc : isBlank c = false) :
    dropLastBlanks (cs ++ [c]) = cs ++ [c] := by
  simp [dropLastBlanks, dropBlanks, hc]

theorem last_blanks_start (cs : List Char) : dropLastBlanks cs <+: cs := by
  have hsuffix : dropBlanks cs.reverse <:+ cs.reverse := List.dropWhile_suffix isBlank
  rw [← List.reverse_prefix, List.reverse_reverse] at hsuffix
  exact hsuffix

theorem last_blanks_head (cs : List Char) :
    dropLastBlanks cs = [] ∨ (dropLastBlanks cs).head? = cs.head? := by
  obtain ⟨blanks, hcs⟩ := last_blanks_start cs
  cases hkept : dropLastBlanks cs with
  | nil => exact .inl rfl
  | cons c kept =>
    rw [hkept] at hcs
    exact .inr (hcs ▸ rfl)

/-- A quoted lexeme is the text between its quotes. -/
theorem quoted_lexeme {cs : List Char} {l : Lexeme}
    (h : LexClass.quoted.lexeme ('\'' :: cs ++ ['\'']) = .ok l) : l = .text (String.ofList cs) := by
  cases h
  simp

/-- Symbols and literals show how they are written. -/
theorem lexeme_written {cls : LexClass} {used rest : List Char} {l : Lexeme}
    (hm : Munched cls used rest) (hl : cls.lexeme used = .ok l) :
    (∀ s, l = .symbol s → cls = .symbol s ∧ used = s.spelling.toList) ∧
      ∀ s, l = .text s → used = '\'' :: s.toList ++ ['\''] := by
  cases hm with
  | word =>
    simp only [LexClass.lexeme] at hl
    split at hl <;> cases hl <;> simp
  | numeral =>
    simp only [LexClass.lexeme] at hl
    split at hl <;> cases hl
    simp
  | quoted =>
    cases quoted_lexeme hl
    simp
  | symbol =>
    cases hl
    simp

/-- A lexeme is not changed by dropping white space after it. -/
theorem last_blanks_munched {cls : LexClass} {used rest : List Char} (h : Munched cls used rest)
    (pre : List Char) : dropLastBlanks (used ++ pre) = used ++ dropLastBlanks pre := by
  have hused : dropLastBlanks used = used := by
    -- A literal may hold white space, but ends with its quote.
    rcases munched_chars h with ⟨cs, -, rfl⟩ | hchars
    · exact last_blanks_kept (by decide)
    · obtain ⟨c, cs, rfl, -⟩ := h.start
      rw [← List.dropLast_append_getLast (List.cons_ne_nil c cs)]
      exact last_blanks_kept (hchars _ (List.getLast_mem _)).1
  rw [last_blanks_append]
  split
  · rename_i hpre
    rw [hused, hpre, List.append_nil]
  · rfl

theorem scans_none {cs : List Char} (h : Scans cs []) : ∀ c ∈ cs, isGap c = true := by
  generalize hls : ([] : Lexemes) = ls at h
  induction h with
  | nil => simp
  | gap hc _ ih => exact List.forall_mem_cons.mpr ⟨hc, ih hls⟩
  | lexeme => cases hls

/-- White space before the first lexeme is a gap, and can be left out. -/
theorem scans_drop_blanks {cs : List Char} {ls : Lexemes} (h : Scans cs ls) :
    Scans (dropBlanks cs) ls := by
  induction cs with
  | nil => exact h
  | cons c cs ih =>
    rw [dropBlanks, List.dropWhile_cons]
    split
    · rename_i hblank
      cases hgap : isGap c with
      | true => exact ih ((scans_gap hgap).mp h)
      | false =>
        obtain ⟨cls, used, rest, l, ls', hm, hcs, -⟩ := (scans_munch hgap).mp h
        obtain ⟨rest', hrest, hmunched⟩ := munch_iff.mp hm
        obtain ⟨d, ds, rfl, -⟩ := hmunched.start
        cases hcs
        rcases munched_chars hmunched with ⟨inner, -, hquoted⟩ | hchars
        · cases hquoted
          exact absurd hblank (by decide)
        · have hc := (hchars c List.mem_cons_self).1
          rw [hblank] at hc
          cases hc
    · exact h

/-- The text of a statement is cut at the semicolon that ends it, and at no other. White space
before that semicolon can be left out. -/
theorem scans_cut {cs : List Char} {ls body : Lexemes} (h : Scans cs ls)
    (hls : ls = body ++ [.symbol .semicolon]) (hbody : .symbol .semicolon ∉ body)
    (htexts : ∀ s, .text s ∈ ls → ';' ∉ s.toList) :
    ∃ pre gaps, cs = pre ++ ';' :: gaps ∧ ';' ∉ pre ∧ (∀ c ∈ gaps, isGap c = true) ∧
      Scans (dropLastBlanks pre ++ [';']) ls := by
  -- The rest after each lexeme is cut at the same semicolon. It may lose its white space there,
  -- since a lexeme ends before a semicolon as it does before a gap.
  induction h generalizing body with
  | nil => cases body <;> cases hls
  | @gap c cs ls hc h ih =>
    obtain ⟨pre, gaps, rfl, hpre, hgaps, hscans⟩ := ih hls hbody htexts
    refine ⟨c :: pre, gaps, rfl, ?_, hgaps, ?_⟩
    · intro hmem
      rcases List.mem_cons.mp hmem with rfl | hmem
      · cases hc
      · exact hpre hmem
    · have hcut := last_blanks_append [c] pre
      rw [List.singleton_append] at hcut
      rw [hcut]
      split
      · rename_i hblank
        have hnone : dropLastBlanks [c] = [] := by
          simp [dropLastBlanks, dropBlanks, gap_blank hc]
        rw [hnone]
        rwa [hblank] at hscans
      · exact .gap hc hscans
  | @lexeme cls used rest l ls hm hl h ih =>
    cases body with
    | nil =>
      obtain ⟨rfl, rfl⟩ := List.cons_eq_cons.mp hls
      obtain ⟨rfl, rfl⟩ := (lexeme_written hm hl).1 _ rfl
      refine ⟨[], rest, rfl, by simp, scans_none h, ?_⟩
      have hscans : Scans (Symbol.semicolon.spelling.toList ++ []) [.symbol .semicolon] :=
        .lexeme (.symbol rfl) hl .nil
      exact hscans
    | cons l' body =>
      obtain ⟨rfl, hrest⟩ := List.cons_eq_cons.mp hls
      have hsemi : l ≠ .symbol .semicolon := fun h => hbody (h ▸ List.mem_cons_self)
      obtain ⟨pre, gaps, rfl, hpre, hgaps, hscans⟩ := ih hrest
        (fun h => hbody (List.mem_cons_of_mem _ h)) fun s hs => htexts s (List.mem_cons_of_mem _ hs)
      have hused : ';' ∉ used := by
        intro hmem
        rcases munched_chars hm with ⟨inner, rfl, rfl⟩ | hchars
        · cases quoted_lexeme hl
          have hinner := htexts _ List.mem_cons_self
          simp at hmem hinner
          exact hinner hmem
        · obtain rfl := (hchars _ hmem).2.2 rfl
          cases hl
          exact hsemi rfl
      refine ⟨used ++ pre, gaps, (List.append_assoc _ _ _).symm, ?_, hgaps, ?_⟩
      · simp [hused, hpre]
      · rw [last_blanks_munched hm, List.append_assoc]
        refine .lexeme (munched_next hm ?_) hl hscans
        rcases last_blanks_head pre with hnone | hhead
        · exact .inr (by rw [hnone]; rfl)
        · refine .inl ?_
          simp [hhead]

theorem dashes_skip {c : Char} {cs : List Char} (hc : c ≠ '-') (h : dashes <:+: c :: cs) :
    dashes <:+: cs := by
  rcases List.infix_cons_iff.mp h with hstart | hrest
  · exact absurd (List.cons_prefix_cons.mp hstart).1.symm hc
  · exact hrest

/-- Dashes do not go over another character. -/
theorem dashes_apart {xs ys : List Char} {c : Char} (hc : c ≠ '-')
    (h : dashes <:+: xs ++ c :: ys) : dashes <:+: xs ∨ dashes <:+: ys := by
  induction xs with
  | nil => exact .inr (dashes_skip hc h)
  | cons x xs ih =>
    rcases List.infix_cons_iff.mp h with hstart | hrest
    · obtain ⟨rfl, hnext⟩ := List.cons_prefix_cons.mp hstart
      cases xs with
      | nil => exact absurd (List.cons_prefix_cons.mp hnext).1.symm hc
      | cons y xs =>
        obtain ⟨rfl, -⟩ := List.cons_prefix_cons.mp hnext
        exact .inl ⟨[], xs, rfl⟩
    · exact (ih hrest).imp_left List.infix_cons

theorem dashes_after {xs ys : List Char} (hxs : '-' ∉ xs) (h : dashes <:+: xs ++ ys) :
    dashes <:+: ys := by
  induction xs with
  | nil => exact h
  | cons x xs ih =>
    have hx : x ≠ '-' := fun he => hxs (he ▸ List.mem_cons_self)
    exact ih (fun h => hxs (List.mem_cons_of_mem _ h)) (dashes_skip hx h)

/-- Only literals have dashes. -/
theorem scans_no_dashes {cs : List Char} {ls : Lexemes} (h : Scans cs ls)
    (htexts : ∀ s, .text s ∈ ls → ¬dashes <:+: s.toList) : ¬dashes <:+: cs := by
  induction h with
  | nil => simp [dashes]
  | @gap c cs ls hc h ih =>
    have hne : c ≠ '-' := by
      rintro rfl
      cases hc
    exact fun hdashes => ih htexts (dashes_skip hne hdashes)
  | @lexeme cls used rest l ls hm hl h ih =>
    have hrest := ih fun s hs => htexts s (List.mem_cons_of_mem _ hs)
    intro hdashes
    rcases munched_chars hm with ⟨inner, rfl, rfl⟩ | hchars
    · cases quoted_lexeme hl
      have hinner := htexts _ List.mem_cons_self
      rw [String.toList_ofList] at hinner
      rw [List.cons_append, List.cons_append, List.append_assoc] at hdashes
      rcases dashes_apart (by decide) (dashes_skip (by decide) hdashes) with htext | hafter
      · exact hinner htext
      · exact hrest hafter
    · exact hrest (dashes_after (fun h => (hchars _ h).2.1 rfl) hdashes)

/-- Without dashes there are no comments. -/
theorem drop_comments_none {cs : List Char} (h : ¬dashes <:+: cs) :
    Batch.dropComments false cs = cs := by
  induction cs with
  | nil => rfl
  | cons c cs ih =>
    have hrest := ih fun hdashes => h (List.infix_cons hdashes)
    rw [Batch.dropComments]
    · split
      · rw [hrest]
      · rw [if_neg (by decide), hrest]
    · rintro tail rfl rfl
      exact h ⟨[], tail, rfl⟩

theorem drop_comments_dash {cs : List Char}
    (h : (Batch.dropComments false cs).head? = some '-') : cs.head? = some '-' := by
  cases cs with
  | nil => cases h
  | cons c cs =>
    by_cases hc : c = '-'
    · exact congrArg some hc
    · rw [Batch.dropComments] at h
      · split at h
        · exact absurd (Option.some.inj h) hc
        · exact h
      · exact fun tail hdash _ => hc hdash

/-- Comments go, with their dashes. -/
theorem drop_comments_dashes (inComment : Bool) (cs : List Char) :
    ¬dashes <:+: Batch.dropComments inComment cs := by
  fun_induction Batch.dropComments inComment cs with
  | case1 => simp [dashes]
  | case2 _ cs ih => exact fun h => ih (dashes_skip (by decide) h)
  | case3 _ cs _ ih => exact ih
  | case4 _ _ tail _ ih => exact ih
  | case5 _ c cs _ _ hne ih =>
    intro h
    rcases List.infix_cons_iff.mp h with hstart | hrest
    · obtain ⟨rfl, tail, hnext⟩ := List.cons_prefix_cons.mp hstart
      obtain ⟨tail', hcs⟩ := List.head?_eq_some_iff.mp
        (drop_comments_dash (by rw [← hnext]; rfl))
      exact hne tail' rfl hcs
    · exact ih hrest

/-- The parts of a text have no semicolons, and the first one starts the text. -/
theorem split_parts (cs : List Char) : ∃ part parts,
    Batch.splitAtSemicolons cs = part :: parts ∧ part <+: cs ∧
      ∀ p ∈ part :: parts, ';' ∉ p ∧ p <:+: cs := by
  induction cs with
  | nil => exact ⟨[], [], rfl, List.nil_prefix, by simp⟩
  | cons c cs ih =>
    obtain ⟨part, parts, hsplit, hpart, hparts⟩ := ih
    rw [Batch.splitAtSemicolons, hsplit]
    have hrest : ∀ p ∈ part :: parts, ';' ∉ p ∧ p <:+: c :: cs :=
      fun p hp => ⟨(hparts p hp).1, List.infix_cons (hparts p hp).2⟩
    by_cases hc : c = ';'
    · refine ⟨[], part :: parts, if_pos hc, List.nil_prefix, ?_⟩
      exact List.forall_mem_cons.mpr ⟨⟨by simp, List.nil_infix⟩, hrest⟩
    · have hfirst : c :: part <+: c :: cs := List.cons_prefix_cons.mpr ⟨rfl, hpart⟩
      refine ⟨c :: part, parts, if_neg hc, hfirst, ?_⟩
      obtain ⟨hhead, htail⟩ := List.forall_mem_cons.mp hrest
      refine List.forall_mem_cons.mpr ⟨⟨?_, hfirst.isInfix⟩, htail⟩
      simpa [eq_comm, hc] using hhead.1

theorem split_last {cs : List Char} (h : ';' ∉ cs) : Batch.splitAtSemicolons cs = [cs] := by
  induction cs with
  | nil => rfl
  | cons c cs ih =>
    obtain ⟨hc, hcs⟩ : ';' ≠ c ∧ ';' ∉ cs := by simpa using h
    simp only [Batch.splitAtSemicolons, ih hcs, if_neg hc.symm]

theorem split_first {pre rest : List Char} (h : ';' ∉ pre) :
    Batch.splitAtSemicolons (pre ++ ';' :: rest) = pre :: Batch.splitAtSemicolons rest := by
  induction pre with
  | nil =>
    obtain ⟨part, parts, hsplit, -⟩ := split_parts rest
    rw [List.nil_append, Batch.splitAtSemicolons, hsplit]
    rfl
  | cons c cs ih =>
    obtain ⟨hc, hcs⟩ : ';' ≠ c ∧ ';' ∉ cs := by simpa using h
    simp only [List.cons_append, Batch.splitAtSemicolons, ih hcs, if_neg hc.symm]

/-- A derivation of less than a statement has no semicolon. -/
theorem yield_no_semicolon {p : Part} (d : Derivation p) (hp : p ≠ .query)
    (hsemi : p ≠ .symbol .semicolon) : .symbol .semicolon ∉ d.yield := by
  have happend : ∀ {ls ls' : Lexemes}, Lexeme.symbol .semicolon ∉ ls → .symbol .semicolon ∉ ls' →
      .symbol .semicolon ∉ ls ++ ls' := List.not_mem_append
  -- The cases go by the number of parts. The only part that may be a semicolon is that of a query.
  induction d with
  | query => exact absurd rfl hp
  | symbol s =>
    intro hmem
    cases List.mem_singleton.mp hmem
    exact hsemi rfl
  | keyword | identifier | number | text =>
    intro hmem
    cases List.mem_singleton.mp hmem
  | empty => exact List.not_mem_nil
  | one i _ ha => refine ha ?_ ?_ <;> cases i <;> simp [Items.item]
  | operator r _ ha => refine ha ?_ ?_ <;> cases r <;> simp [Relation.symbol]
  | allColumns _ ha | someColumns _ ha | table _ ha | column _ ha | term _ ha | comparison _ ha
  | numberLiteral _ ha | textLiteral _ ha | orderColumn _ ha | orderAggregate _ ha
  | noClause _ _ ha | noByClause _ _ ha | columnRef _ ha =>
    refine ha ?_ ?_ <;> simp
  | clause c _ _ ha hb =>
    refine happend (ha ?_ ?_) (hb ?_ ?_) <;> cases c <;> simp [Clause.body]
  | orderColumnBy _ _ _ ha hb | orderAggregateBy _ _ _ ha hb =>
    refine happend (ha ?_ ?_) (hb ?_ ?_) <;> simp
  | more i _ _ _ ha hb hc =>
    refine happend (ha ?_ ?_) (happend (hb ?_ ?_) (hc ?_ ?_)) <;> cases i <;> simp [Items.item]
  | moreTables _ _ _ ha hb hc | both _ _ _ ha hb hc | either _ _ _ ha hb hc
  | compareColumns _ _ _ ha hb hc | compareLiteral _ _ _ ha hb hc
  | compareAggregate _ _ _ ha hb hc | byClause _ _ _ _ ha hb hc | qualified _ _ _ ha hb hc =>
    refine happend (ha ?_ ?_) (happend (hb ?_ ?_) (hc ?_ ?_)) <;> simp
  | columnCount _ _ _ _ ha hb hc hd | columnCall _ _ _ _ _ ha hb hc hd
  | count _ _ _ _ ha hb hc hd | call _ _ _ _ _ ha hb hc hd =>
    refine happend (ha ?_ ?_) (happend (hb ?_ ?_) (happend (hc ?_ ?_) (hd ?_ ?_))) <;> simp
  | join _ _ _ _ _ ha hb hc hd he | between _ _ _ _ _ ha hb hc hd he
  | inList _ _ _ _ _ ha hb hc hd he | inQuery _ _ _ _ _ ha hb hc hd he =>
    refine happend (ha ?_ ?_) (happend (hb ?_ ?_) (happend (hc ?_ ?_)
      (happend (hd ?_ ?_) (he ?_ ?_)))) <;> simp
  | subquery _ _ _ _ _ _ _ _ _ ha hb hc hd he hf hg hh hi =>
    refine happend (ha ?_ ?_) (happend (hb ?_ ?_) (happend (hc ?_ ?_) (happend (hd ?_ ?_)
      (happend (he ?_ ?_) (happend (hf ?_ ?_) (happend (hg ?_ ?_)
        (happend (hh ?_ ?_) (hi ?_ ?_)))))))) <;> simp

/-- A statement has one semicolon, at its end. -/
theorem statement_ends {ls : Lexemes} {q : Query} (hs : ∀ l ∈ ls, Spelled l)
    (hq : Query.ofLexemes ls = .ok q) :
    ∃ body, ls = body ++ [.symbol .semicolon] ∧ .symbol .semicolon ∉ body ∧ body ≠ [] := by
  obtain ⟨d, rfl, -⟩ := of_lexemes_sound hs hq
  cases d with
  | query a b c d e f g h i j =>
    refine ⟨(Derivation.subquery a b c d e f g h i).yield, ?_,
      yield_no_semicolon _ (by simp) (by simp), ?_⟩
    · cases j
      change _ ++ (_ ++ (_ ++ (_ ++ (_ ++ (_ ++ (_ ++ (_ ++ (_ ++ _)))))))) =
        _ ++ (_ ++ (_ ++ (_ ++ (_ ++ (_ ++ (_ ++ (_ ++ _))))))) ++ _
      simp only [List.append_assoc]
      rfl
    · cases a
      exact List.cons_ne_nil _ _

theorem scans_length {cs : List Char} {ls : Lexemes} (h : Scans cs ls) : ls.length ≤ cs.length := by
  induction h with
  | nil => exact Nat.le_refl _
  | gap _ _ ih => exact Nat.le_succ_of_le ih
  | lexeme hm _ _ ih =>
    obtain ⟨c, cs, rfl, -⟩ := hm.start
    rw [List.length_append, List.length_cons, List.length_cons]
    omega

/-- The text of a statement between white space and its semicolon has all of its lexemes. -/
theorem scans_trim {pre gaps : List Char} {ls body : Lexemes} (h : Scans (pre ++ ';' :: gaps) ls)
    (hpre : ';' ∉ pre) (hgaps : ';' ∉ gaps) (hls : ls = body ++ [.symbol .semicolon])
    (hbody : .symbol .semicolon ∉ body) (htexts : ∀ s, .text s ∈ ls → ';' ∉ s.toList) :
    Scans (trim pre ++ [';']) ls := by
  have hdrop : dropBlanks (pre ++ ';' :: gaps) = dropBlanks pre ++ ';' :: gaps := by
    have hkept : (';' :: gaps).dropWhile isBlank = ';' :: gaps := rfl
    rw [dropBlanks, List.dropWhile_append, hkept]
    split
    · rename_i hnone
      rw [dropBlanks, List.isEmpty_iff.mp hnone, List.nil_append]
    · rfl
  have hscans := scans_drop_blanks h
  rw [hdrop] at hscans
  obtain ⟨pre', gaps', hcut, -, -, hscans'⟩ := scans_cut hscans hls hbody htexts
  have hblank : ';' ∉ dropBlanks pre := fun hmem => hpre ((List.dropWhile_suffix _).mem hmem)
  obtain ⟨rfl, -, -⟩ := (List.append_cons_inj_of_notMem hblank hgaps).mp hcut
  exact hscans'

/-- A statement whose literals are not cut is the one statement of its text. -/
theorem uncut_statement {text : String} {ls : Lexemes} {q : Query} (hscans : Scans text.toList ls)
    (hs : ∀ l ∈ ls, Spelled l) (hq : Query.ofLexemes ls = .ok q) (huncut : UncutTexts ls) :
    ∃ s, Batch.statements text = [s] ∧ Scans s.toList ls := by
  obtain ⟨body, hls, hbody, hne⟩ := statement_ends hs hq
  have hsemi : ∀ s, .text s ∈ ls → ';' ∉ s.toList := fun s hs => (huncut s hs).1
  have hdashes := scans_no_dashes hscans fun s hs => (huncut s hs).2
  obtain ⟨pre, gaps, htext, hpre, hgaps, -⟩ := scans_cut hscans hls hbody hsemi
  have hlast : ';' ∉ gaps := fun hmem => absurd (hgaps _ hmem) (by decide)
  have hsplit : Batch.splitAtSemicolons (Batch.dropComments false text.toList) = [pre, gaps] := by
    rw [drop_comments_none hdashes, htext, split_first hpre, split_last hlast]
  have hblank : trim gaps = [] := by
    have hall : dropBlanks gaps = [] :=
      List.dropWhile_eq_nil_iff.mpr fun c hc => gap_blank (hgaps c hc)
    rw [trim, hall]
    rfl
  rw [htext] at hscans
  have htrim := scans_trim hscans hpre hlast hls hbody hsemi
  have hsome : trim pre ≠ [] := by
    intro hnone
    have hlength := scans_length htrim
    have hpos := List.length_pos_iff.mpr hne
    rw [hnone, hls, List.length_append] at hlength
    simp only [List.length_singleton, List.nil_append] at hlength
    omega
  refine ⟨String.ofList (trim pre ++ [';']), ?_, by rwa [String.toList_ofList]⟩
  simp [Batch.statements, hsplit, hblank, hsome]

theorem trim_within (cs : List Char) : trim cs <:+: cs :=
  (last_blanks_start (dropBlanks cs)).isInfix.trans (List.dropWhile_suffix isBlank).isInfix

/-- A statement of a batch has no dashes, and a semicolon at its end only. -/
theorem statement_uncut {text s : String} (h : s ∈ Batch.statements text) :
    ∃ part, s.toList = part ++ [';'] ∧ Uncut part := by
  obtain ⟨p, hp, hs⟩ := List.mem_filterMap.mp h
  obtain ⟨part, parts, hsplit, -, hparts⟩ :=
    split_parts (Batch.dropComments false text.toList)
  obtain ⟨hsemi, hinfix⟩ := hparts p (hsplit ▸ hp)
  simp only [Option.ite_none_left_eq_some, Option.some.injEq] at hs
  refine ⟨trim p, by rw [← hs.2, String.toList_ofList], ?_, ?_⟩
  · exact fun hmem => hsemi ((trim_within p).mem hmem)
  · exact fun hdashes => drop_comments_dashes _ _ ((hdashes.trans (trim_within p)).trans hinfix)

theorem text_within {cs : List Char} {ls : Lexemes} (h : Scans cs ls) {s : String}
    (hs : .text s ∈ ls) : s.toList ++ ['\''] <:+: cs := by
  induction h with
  | nil => cases hs
  | gap _ _ ih => exact List.infix_cons (ih hs)
  | @lexeme cls used rest l ls hm hl _ ih =>
    rcases List.mem_cons.mp hs with rfl | hs
    · rw [(lexeme_written hm hl).2 s rfl]
      exact ⟨['\''], rest, by simp⟩
    · exact (ih hs).trans (List.suffix_append used rest).isInfix

/-- A batch keeps only literals that it does not cut. -/
theorem statement_texts {text s : String} {ls : Lexemes} (h : s ∈ Batch.statements text)
    (hscans : Scans s.toList ls) : UncutTexts ls := by
  obtain ⟨part, hpart, hsemi, hdashes⟩ := statement_uncut h
  intro t ht
  have hinfix := text_within hscans ht
  rw [hpart] at hinfix
  have hwithin : t.toList <:+: part := by
    rcases List.infix_concat_iff.mp hinfix with hsuffix | hinner
    · obtain ⟨before, hend⟩ := hsuffix
      have hquote := congrArg List.getLast? hend
      simp at hquote
    · exact (List.prefix_append t.toList ['\'']).isInfix.trans hinner
  exact ⟨fun hmem => hsemi (hwithin.mem hmem), fun h => hdashes (h.trans hwithin)⟩

/-- The answer to a statement depends on how it is parsed only. -/
theorem answer_parsed (schema : Value) {text text' : String} {line line' : Nat} {q : Query}
    (h : Sql.parse text line = .ok q) (h' : Sql.parse text' line' = .ok q) :
    Batch.answer schema text line = Batch.answer schema text' line' := by
  have hparse : Pipeline.parse text line = Pipeline.parse text' line' := by
    rw [Pipeline.parse, h, Pipeline.parse, h']
  have hcommand : Pipeline.command schema text line = Pipeline.command schema text' line' := by
    rw [Pipeline.command, hparse, Pipeline.command]
  unfold Batch.answer
  rw [hcommand]

def lexemesOf (text : String) : Lexemes := (scan text 1).tokens.map (·.lexeme)

/-- A batch of one statement that can be parsed. If no literal has a semicolon or two dashes, its
one answer is that of the statement itself. Just then it has one statement, which has the lexemes
of the text. -/
theorem batched_statement_exact {text : String} {line : Nat} {q : Query}
    (h : Sql.parse text line = .ok q) :
    (UncutTexts (lexemesOf text) →
      ∀ schema, Batch.transpile schema text = [Batch.answer schema text line]) ∧
    ((∃ s, Batch.statements text = [s] ∧ (scan s 1).error? = none ∧
        lexemesOf s = lexemesOf text) ↔ UncutTexts (lexemesOf text)) := by
  obtain ⟨ls, hscans, hq⟩ := parse_scans.mp h
  obtain ⟨-, rfl⟩ := (@scan_iff _ 1 _).mp hscans
  have hbatch := uncut_statement hscans (scan_spelled text 1) hq
  refine ⟨fun huncut schema => ?_, ?_, fun huncut => ?_⟩
  · obtain ⟨s, hs, hlexemes⟩ := hbatch huncut
    have hparse : Sql.parse s 1 = .ok q := parse_scans.mpr ⟨_, hlexemes, hq⟩
    rw [Batch.transpile, hs, Batch.answers, Batch.answers, answer_parsed schema hparse h]
  · rintro ⟨s, hs, herror, hlexemes⟩
    have hmem : s ∈ Batch.statements text := hs ▸ List.mem_cons_self
    rw [← hlexemes]
    exact statement_texts hmem (scan_iff.mpr ⟨herror, rfl⟩)
  · obtain ⟨s, hs, hlexemes⟩ := hbatch huncut
    obtain ⟨herror, htokens⟩ := scan_iff.mp hlexemes
    exact ⟨s, hs, herror, htokens⟩

/-- The users of a city. -/
def ofCity (city : String) : Query :=
  ⟨.all, .table "users", some (.compare ⟨none, "city"⟩ .eq (.literal (.text city))), [], none, [],
    none⟩

/-- The same as a text of several lines. -/
def ofCityText (city : String) : String :=
  "SELECT *\n  FROM users\n  WHERE city = '" ++ city ++ "';\n"

theorem new_york_batched :
    Sql.parse (ofCityText "New York") 1 = .ok (ofCity "New York") ∧
      ∀ schema, Batch.transpile schema (ofCityText "New York") =
        [Batch.answer schema (ofCityText "New York") 1] := by
  have hparse : Sql.parse (ofCityText "New York") 1 = .ok (ofCity "New York") := rfl
  refine ⟨hparse, (batched_statement_exact hparse).1 fun s hs => ?_⟩
  have hlexemes : lexemesOf (ofCityText "New York") =
    [.keyword .select "SELECT", .symbol .star, .keyword .fromWord "FROM", .identifier "users",
      .keyword .whereWord "WHERE", .identifier "city", .symbol .eq, .text "New York",
      .symbol .semicolon] := rfl
  obtain rfl : s = "New York" := by simpa [hlexemes] using hs
  exact ⟨by decide, fun h => absurd (h.mem List.mem_cons_self) (by decide)⟩

/-- A literal with a semicolon is cut there, whatever the schema is: the batch has two answers. -/
theorem rome_cut :
    Sql.parse (ofCityText "Rome; Italy") 1 = .ok (ofCity "Rome; Italy") ∧
      ∀ schema, Batch.transpile schema (ofCityText "Rome; Italy") ≠
        [Batch.answer schema (ofCityText "Rome; Italy") 1] := by
  have hparse : Sql.parse (ofCityText "Rome; Italy") 1 = .ok (ofCity "Rome; Italy") := rfl
  refine ⟨hparse, fun schema h => ?_⟩
  have hstatements : Batch.statements (ofCityText "Rome; Italy") =
      ["SELECT *\n  FROM users\n  WHERE city = 'Rome;", "Italy';"] := by
    decide +kernel
  rw [Batch.transpile, hstatements, Batch.answers, Batch.answers] at h
  exact List.cons_ne_nil _ _ (List.cons.inj h).2

end DocQuery.Proofs
