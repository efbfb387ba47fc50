import DocQuery.Proofs.BatchedStatements

namespace DocQuery.Proofs

open Sql

/-- What the rule for each class of lexemes matches. -/
inductive Matches : LexClass → List Char → Prop where
  | word (hc : isWordStart c = true) (hcs : ∀ d ∈ cs, isWordPart d = true) : Matches .word (c :: cs)
  | numeral (hne : cs ≠ []) (hcs : ∀ d ∈ cs, Text.isDigit d = true) : Matches .numeral cs
  | quoted (hcs : '\'' ∉ cs) : Matches .quoted ('\'' :: cs ++ ['\''])
  | symbol (s : Symbol) : Matches (.symbol s) s.spelling.toList

/-- The longest beginning of a text that a rule matches. -/
structure Longest (used cs : List Char) : Prop where
  matched : ∃ cls, Matches cls used
  start : used <+: cs
  longest : ∀ cls other, Matches cls other → other <+: cs → other.length ≤ used.length

/-- What a lexeme says. A word is a keyword if it is one in upper case. -/
inductive ReadAs : List Char → Lexeme → Prop where
  | keyword (hcs : Matches .word cs) (hk : Text.upper (String.ofList cs) = k.spelling) :
      ReadAs cs (.keyword k (String.ofList cs))
  | identifier (hcs : Matches .word cs)
      (hcase : ∀ k : Keyword, Text.upper (String.ofList cs) ≠ k.spelling) :
      ReadAs cs (.identifier (String.ofList cs))
  | number (hcs : Matches .numeral cs) : ReadAs cs (.number (Text.numeral cs))
  | text (hcs : '\'' ∉ cs) : ReadAs ('\'' :: cs ++ ['\'']) (.text (String.ofList cs))
  | symbol (s : Symbol) : ReadAs s.spelling.toList (.symbol s)

theorem word_start_bounds {c : Char} (h : isWordStart c = true) :
    65 ≤ c.toNat ∧ c.toNat ≤ 122 := by
  delta isWordStart Char.isAlpha Char.isUpper Char.isLower at h
  simp [UInt32.le_iff_toNat_le] at h
  rcases h with h | rfl
  · omega
  · decide

theorem digit_not_start {c : Char} (h : Text.isDigit c = true) : isWordStart c = false := by
  by_contra hstart
  have hbounds := word_start_bounds (Bool.not_eq_false _ ▸ hstart)
  obtain ⟨v, hv⟩ := Option.isSome_iff_exists.mp h
  obtain ⟨d, hd, -⟩ := Option.map_eq_some_iff.mp hv
  obtain ⟨hmem, hlow, hhigh⟩ := range_found hd
  have hapart : ∀ d ∈ Text.digitRanges, d.2 < 65 ∨ 122 < d.1 := by decide
  have hd := hapart d hmem
  omega

theorem Munched.matched {cls : LexClass} {used rest : List Char} (h : Munched cls used rest) :
    Matches cls used := by
  cases h with
  | word hc hcs => exact .word hc hcs
  | numeral _ hcs => exact .numeral (List.cons_ne_nil _ _) hcs
  | quoted hcs => exact .quoted hcs
  | @symbol _ s => exact .symbol s

/-- What stands before other characters of a kind is within the run of this kind. -/
theorem length_le_run {p : Char → Bool} {cs rest : List Char} (hcs : ∀ d ∈ cs, p d = true) :
    cs.length ≤ ((cs ++ rest).takeWhile p).length := by
  rw [List.takeWhile_append_of_pos hcs, List.length_append]
  exact Nat.le_add_right _ _

/-- Where a rule matches, the scanner finds a lexeme that is at least as long. -/
theorem Matches.munch {cls : LexClass} {other cs : List Char} (h : Matches cls other)
    (hstart : other <+: cs) :
    ∃ cls' used, munch cs = some (cls', used) ∧ other.length ≤ used.length := by
  obtain ⟨rest, rfl⟩ := hstart
  cases h with
  | @word c cs hc hcs =>
    refine ⟨.word, c :: (cs ++ rest).takeWhile isWordPart, ?_, ?_⟩
    · rw [List.cons_append, Sql.munch, if_pos hc]
    · exact Nat.succ_le_succ (length_le_run hcs)
  | numeral hne hcs =>
    obtain ⟨c, cs, rfl⟩ := List.exists_cons_of_ne_nil hne
    obtain ⟨hc, hcs⟩ := List.forall_mem_cons.mp hcs
    refine ⟨.numeral, c :: (cs ++ rest).takeWhile Text.isDigit, ?_, ?_⟩
    · rw [List.cons_append, Sql.munch, if_neg (by simp [digit_not_start hc]), if_pos hc]
    · exact Nat.succ_le_succ (length_le_run hcs)
  | quoted hcs =>
    exact ⟨.quoted, _, munch_iff.mpr ⟨rest, rfl, .quoted hcs⟩, Nat.le_refl _⟩
  | symbol s =>
    -- Only the symbols for less and greater may go on, with an equals sign.
    have hread : ∃ s' : Symbol, Symbol.read? (s.spelling.toList ++ rest) = some s' ∧
        s.spelling.toList.length ≤ s'.spelling.toList.length := by
      cases s with
      | gt | lt =>
        rcases rest with _ | ⟨c, rest⟩
        · exact ⟨_, rfl, Nat.le_refl _⟩
        · by_cases hc : c = '='
          · subst hc
            exact ⟨_, rfl, by decide⟩
          · exact ⟨_, symbol_read_iff.mpr (by simpa using hc), Nat.le_refl _⟩
      | _ => exact ⟨_, rfl, Nat.le_refl _⟩
    obtain ⟨s', hs', hlength⟩ := hread
    obtain ⟨rest', hrest⟩ := read_symbol hs'
    exact ⟨.symbol s', _, munch_iff.mpr ⟨rest', hrest, .symbol (hrest ▸ hs')⟩, hlength⟩

/-- The lexeme that the scanner finds is the longest one. -/
theorem Munched.longest {cls : LexClass} {used rest : List Char} (h : Munched cls used rest) :
    Longest used (used ++ rest) where
  matched := ⟨cls, h.matched⟩
  start := List.prefix_append used rest
  longest cls' other hmatched hstart := by
    obtain ⟨cls'', used', hmunch, hlength⟩ := hmatched.munch hstart
    cases hmunch.symm.trans (munch_iff.mpr ⟨rest, rfl, h⟩)
    exact hlength

theorem Matches.word_parts {cs : List Char} (h : Matches .word cs) :
    ∀ c ∈ cs, isWordPart c = true := by
  cases h with
  | word hc hcs => exact List.forall_mem_cons.mpr ⟨word_start_part hc, hcs⟩

theorem Matches.ne_nil {cls : LexClass} {used : List Char} (h : Matches cls used) : used ≠ [] := by
  cases h with
  | word | quoted => exact List.cons_ne_nil _ _
  | numeral hne => exact hne
  | symbol s => cases s <;> exact List.cons_ne_nil _ _

theorem ascii_to_upper : ∀ n < 128, (Char.ofNat n).toUpper.toNat < 128 := by
  decide

theorem upper_word {cs : List Char} (h : Matches .word cs) :
    Text.upper (String.ofList cs) = String.ofList (cs.map Char.toUpper) := by
  rw [upper_of_ascii, String.toList_ofList]
  intro c hc
  rw [String.toList_ofList] at hc
  have hbounds := word_part_bounds (h.word_parts c hc)
  have hupper := ascii_to_upper c.toNat (by omega)
  rwa [Char.ofNat_toNat] at hupper

/-- A word is found among the keywords just if it is one in upper case. -/
theorem keyword_upper_iff {cs : List Char} (h : Matches .word cs) {k : Keyword} :
    Keyword.ofWord? cs = some k ↔ Text.upper (String.ofList cs) = k.spelling := by
  refine ⟨fun hk => upper_spelled (by rwa [String.toList_ofList]), fun hk => ?_⟩
  rw [upper_word h] at hk
  have hupper := congrArg String.toList hk
  rw [String.toList_ofList] at hupper
  rw [Keyword.ofWord?, hupper]
  cases k <;> rfl

/-- What the scanner takes a lexeme for is what it is to be read as. -/
theorem Munched.read_as {cls : LexClass} {used rest : List Char} {l : Lexeme}
    (hm : Munched cls used rest) (hl : cls.lexeme used = .ok l) : ReadAs used l := by
  have hmatched := hm.matched
  cases hm with
  | word =>
    simp only [LexClass.lexeme] at hl
    split at hl
    · rename_i k hk
      cases hl
      exact .keyword hmatched ((keyword_upper_iff hmatched).mp hk)
    · rename_i hnone
      cases hl
      refine .identifier hmatched fun k hk => ?_
      cases hnone.symm.trans ((keyword_upper_iff hmatched).mpr hk)
  | numeral =>
    simp only [LexClass.lexeme] at hl
    split at hl <;> cases hl
    exact .number hmatched
  | quoted hcs =>
    cases quoted_lexeme hl
    exact .text hcs
  | @symbol _ s =>
    cases hl
    exact .symbol s

theorem ReadAs.class_lexeme {used : List Char} {l : Lexeme} (h : ReadAs used l) :
    ∃ cls, Matches cls used ∧ (cls.lexeme used = .ok l ∨
      cls = .numeral ∧ l = .number (Text.numeral used)) := by
  cases h with
  | @keyword cs k hcs hk =>
    refine ⟨.word, hcs, .inl ?_⟩
    simp only [LexClass.lexeme, (keyword_upper_iff hcs).mpr hk]
  | identifier hcs hcase =>
    have hnone : Keyword.ofWord? used = none :=
      Option.eq_none_iff_forall_ne_some.mpr fun k hk => hcase k ((keyword_upper_iff hcs).mp hk)
    refine ⟨.word, hcs, .inl ?_⟩
    simp only [LexClass.lexeme, hnone]
  | number hcs => exact ⟨.numeral, hcs, .inr ⟨rfl, rfl⟩⟩
  | text hcs =>
    refine ⟨.quoted, .quoted hcs, .inl ?_⟩
    simp [LexClass.lexeme]
  | symbol s => exact ⟨.symbol s, .symbol s, .inl rfl⟩

/-- What a rule matches is a lexeme by itself. -/
theorem Matches.munched {cls : LexClass} {used : List Char} (h : Matches cls used) :
    Munched cls used [] := by
  cases h with
  | word hc hcs => exact .word hc hcs (by simp)
  | numeral hne hcs =>
    obtain ⟨c, cs, rfl⟩ := List.exists_cons_of_ne_nil hne
    exact .numeral (digit_not_start (hcs c List.mem_cons_self)) hcs (by simp)
  | quoted hcs => exact .quoted hcs
  | symbol s => exact .symbol (symbol_read_iff.mpr (by simp))

theorem Matches.unique {cls cls' : LexClass} {used : List Char} (h : Matches cls used)
    (h' : Matches cls' used) : cls = cls' := by
  have hmunch := munch_iff.mpr ⟨[], (List.append_nil used).symm, h.munched⟩
  cases hmunch.symm.trans (munch_iff.mpr ⟨[], (List.append_nil used).symm, h'.munched⟩)
  rfl

/-- The characters of a lexeme determine what it is read as. -/
theorem ReadAs.unique {used : List Char} {l l' : Lexeme} (h : ReadAs used l) (h' : ReadAs used l') :
    l = l' := by
  have hnumeral : ∀ {l}, LexClass.numeral.lexeme used = .ok l →
      l = .number (Text.numeral used) := by
    intro l hl
    simp only [LexClass.lexeme] at hl
    split at hl <;> cases hl
    rfl
  obtain ⟨cls, hcls, hl⟩ := h.class_lexeme
  obtain ⟨cls', hcls', hl'⟩ := h'.class_lexeme
  obtain rfl := hcls.unique hcls'
  rcases hl with hl | ⟨rfl, rfl⟩
  · rcases hl' with hl' | ⟨rfl, rfl⟩
    · exact Except.ok.inj (hl.symm.trans hl')
    · exact hnumeral hl
  · rcases hl' with hl' | ⟨-, rfl⟩
    · exact (hnumeral hl').symm
    · rfl

/-- Breaks that no other break follows. -/
structure BreakRun (run rest : List Char) : Prop where
  nonempty : run ≠ []
  breaks : ∀ d ∈ run, isBreak d = true
  ends : ∀ d, rest.head? = some d → isBreak d = false

/-- What one step of the scanner can be. -/
inductive StepOf (c : Cursor) : Cursor.Step → Prop where
  | done (hrest : c.rest = []) : StepOf c .done
  | space (hrest : c.rest = ch :: rest) (hch : isSpace ch = true) : StepOf c (.skip (c.pass [ch]))
  | breaks (hrest : c.rest = run ++ rest) (hrun : BreakRun run rest) :
      StepOf c (.skip (c.passBreaks run))
  | lexeme (hrest : c.rest = used ++ rest) (hm : Munched cls used rest)
      (hl : cls.lexeme used = .ok l) : StepOf c (.token ⟨l, c.line, c.offset⟩ (c.pass used))
  | illegal (hrest : c.rest = ch :: rest) (hgap : isGap ch = false) (hm : munch c.rest = none) :
      StepOf c (.fail (.illegal ch c.line (c.offset - c.lineStart + 1)) c)
  | longNumeral (hrest : c.rest = used ++ rest) (hm : Munched .numeral used rest)
      (hlong : Text.maxDigits < used.length) :
      StepOf c (.fail (.longNumeral used.length) (c.pass used))

/-- Only a numeral may say nothing, since it is too long. -/
theorem lexeme_fails {cls : LexClass} {used : List Char} {e : ScanError}
    (h : cls.lexeme used = .error e) :
    cls = .numeral ∧ Text.maxDigits < used.length ∧ e = .longNumeral used.length := by
  cases cls with
  | word =>
    simp only [LexClass.lexeme] at h
    split at h <;> cases h
  | numeral =>
    simp only [LexClass.lexeme] at h
    split at h <;> cases h
    rename_i hlong
    exact ⟨rfl, Nat.lt_of_not_le hlong, rfl⟩
  | quoted => cases h
  | symbol s => cases h

theorem break_run (cs : List Char) (h : ∃ c, cs.head? = some c ∧ isBreak c = true) :
    BreakRun (cs.takeWhile isBreak) (cs.dropWhile isBreak) where
  nonempty := by
    obtain ⟨c, hhead, hc⟩ := h
    obtain ⟨cs', rfl⟩ := List.head?_eq_some_iff.mp hhead
    simp [hc]
  breaks := fun _ hd => List.mem_takeWhile_imp hd
  ends := fun d hd => by simpa [hd] using List.head?_dropWhile_not isBreak cs

theorem step_of (c : Cursor) : StepOf c c.step := by
  cases hrest : c.rest with
  | nil =>
    have hstep : c.step = .done := by simp [Cursor.step, hrest]
    exact hstep ▸ .done hrest
  | cons ch cs =>
    cases hspace : isSpace ch with
    | true =>
      have hstep : c.step = .skip (c.pass [ch]) := by simp [Cursor.step, hrest, hspace]
      exact hstep ▸ .space hrest hspace
    | false =>
      cases hbreak : isBreak ch with
      | true =>
        have hstep : c.step = .skip (c.passBreaks (c.rest.takeWhile isBreak)) := by
          simp [Cursor.step, hrest, hspace, hbreak]
        have hrun := break_run c.rest ⟨ch, by rw [hrest]; rfl, hbreak⟩
        exact hstep ▸ .breaks List.takeWhile_append_dropWhile.symm hrun
      | false =>
        have hgap : isGap ch = false := by simp [isGap, hspace, hbreak]
        cases hm : munch c.rest with
        | none =>
          have hstep : c.step = .fail (.illegal ch c.line (c.offset - c.lineStart + 1)) c := by
            rw [hrest] at hm
            simp [Cursor.step, hrest, hspace, hbreak, hm]
          exact hstep ▸ .illegal hrest hgap hm
        | some found =>
          obtain ⟨cls, used⟩ := found
          obtain ⟨rest, hsplit, hmunched⟩ := munch_iff.mp hm
          cases hl : cls.lexeme used with
          | ok l => exact step_lexeme hrest hgap hm hl ▸ .lexeme hsplit hmunched hl
          | error e =>
            have hstep : c.step = .fail e (c.pass used) := by
              rw [hrest] at hm
              simp [Cursor.step, hrest, hspace, hbreak, hm, hl]
            obtain ⟨rfl, hlong, rfl⟩ := lexeme_fails hl
            exact hstep ▸ .longNumeral hsplit hmunched hlong

theorem pass_rest {c : Cursor} {used rest : List Char} (h : c.rest = used ++ rest) :
    (c.pass used).rest = rest := by
  rw [Cursor.pass, h]
  exact List.drop_left

/-- To pass some characters leaves less. -/
theorem pass_split {c : Cursor} {used rest : List Char} (h : c.rest = used ++ rest)
    (hne : used ≠ []) :
    c.rest = used ++ (c.pass used).rest ∧ (c.pass used).rest.length < c.rest.length := by
  rw [pass_rest h, h, List.length_append]
  exact ⟨rfl, Nat.lt_add_of_pos_left (List.length_pos_iff.mpr hne)⟩

/-- A step between lexemes passes a space or a whole run of breaks. -/
theorem skip_cases {c next : Cursor} {gap : List Char} (hstep : c.step = .skip next)
    (hrest : c.rest = gap ++ next.rest) :
    (∃ ch, gap = [ch] ∧ isSpace ch = true ∧ next = c.pass gap) ∨
      (BreakRun gap next.rest ∧ next = c.passBreaks gap) := by
  have hcase := step_of c
  rw [hstep] at hcase
  cases hcase with
  | @space ch rest hsplit hch =>
    have hnext : (c.pass [ch]).rest = rest := pass_rest hsplit
    rw [hsplit, hnext] at hrest
    obtain rfl : [ch] = gap := List.append_cancel_right hrest
    exact .inl ⟨ch, rfl, hch, rfl⟩
  | @breaks run rest hsplit hrun =>
    have hnext : (c.passBreaks run).rest = rest := pass_rest hsplit
    rw [hsplit, hnext] at hrest
    obtain rfl := List.append_cancel_right hrest
    exact .inr ⟨hnext.symm ▸ hrun, rfl⟩

/-- A step that gives a token passes the longest lexeme. -/
theorem token_cases {c next : Cursor} {t : Token} {used : List Char}
    (hstep : c.step = .token t next) (hrest : c.rest = used ++ next.rest) :
    ∃ cls l, Munched cls used next.rest ∧ cls.lexeme used = .ok l ∧ t = ⟨l, c.line, c.offset⟩ ∧
      next = c.pass used := by
  have hcase := step_of c
  rw [hstep] at hcase
  cases hcase with
  | @lexeme used' rest cls l hsplit hm hl =>
    have hnext : (c.pass used').rest = rest := pass_rest hsplit
    rw [hsplit, hnext] at hrest
    obtain rfl := List.append_cancel_right hrest
    exact ⟨cls, l, hnext.symm ▸ hm, hl, rfl, rfl⟩

/-- A step fails where no rule matches, or at a numeral that is too long. -/
theorem fail_cases {c next : Cursor} {e : ScanError} (hstep : c.step = .fail e next) :
    (∃ ch rest, c.rest = ch :: rest ∧ isGap ch = false ∧ munch c.rest = none ∧
        e = .illegal ch c.line (c.offset - c.lineStart + 1) ∧ next = c) ∨
      ∃ used rest, c.rest = used ++ rest ∧ Munched .numeral used rest ∧
        Text.maxDigits < used.length ∧ e = .longNumeral used.length ∧ next = c.pass used := by
  have hcase := step_of c
  rw [hstep] at hcase
  cases hcase with
  | @illegal ch rest hrest hgap hm => exact .inl ⟨ch, rest, hrest, hgap, hm, rfl, rfl⟩
  | @longNumeral used rest hrest hm hlong => exact .inr ⟨used, rest, hrest, hm, hlong, rfl, rfl⟩

/-- A token with the characters that it stands for. -/
structure TokenSpan where
  token : Token
  used : List Char

/-- The place after a token. -/
def TokenSpan.stop (f : TokenSpan) : Nat := f.token.offset + f.used.length

/-- The places that a scan of a text gets to, with the text before and the tokens in it. -/
inductive Reached (text : List Char) (line : Nat) : List Char → List TokenSpan → Cursor → Prop where
  | start : Reached text line [] [] (Cursor.start text line)
  | skip (h : Reached text line passed found c) (hstep : c.step = .skip next)
      (hrest : c.rest = gap ++ next.rest) : Reached text line (passed ++ gap) found next
  | token (h : Reached text line passed found c) (hstep : c.step = .token t next)
      (hrest : c.rest = used ++ next.rest) :
      Reached text line (passed ++ used) (found ++ [⟨t, used⟩]) next

section

variable {text passed : List Char} {line : Nat} {found : List TokenSpan} {c : Cursor}

theorem Reached.offset (h : Reached text line passed found c) : c.offset = passed.length := by
  induction h with
  | start => rfl
  | skip _ hstep hrest ih =>
    rw [List.length_append, ← ih]
    rcases skip_cases hstep hrest with ⟨_, _, _, rfl⟩ | ⟨_, rfl⟩ <;> rfl
  | token _ hstep hrest ih =>
    rw [List.length_append, ← ih]
    obtain ⟨_, _, _, _, _, rfl⟩ := token_cases hstep hrest
    rfl

theorem Reached.text_eq (h : Reached text line passed found c) : passed ++ c.rest = text := by
  induction h with
  | start => rfl
  | skip _ _ hrest ih => rw [List.append_assoc, ← hrest, ih]
  | token _ _ hrest ih => rw [List.append_assoc, ← hrest, ih]

/-- A step from a place that a scan gets to. -/
theorem Reached.next (h : Reached text line passed found c) :
    (c.step = .done ∧ c.rest = []) ∨ (∃ e next, c.step = .fail e next) ∨
      (∃ passed' next, c.step = .skip next ∧ next.rest.length < c.rest.length ∧
        Reached text line passed' found next) ∨
      ∃ passed' used t next, c.step = .token t next ∧ next.rest.length < c.rest.length ∧
        Reached text line passed' (found ++ [⟨t, used⟩]) next := by
  have hcase := step_of c
  generalize hstep : c.step = s at hcase
  cases hcase with
  | done hrest => exact .inl ⟨rfl, hrest⟩
  | @space ch rest hrest =>
    have hpass : c.rest = [ch] ++ rest := hrest
    obtain ⟨hsplit, hshort⟩ := pass_split hpass (List.cons_ne_nil ch [])
    exact .inr (.inr (.inl ⟨_, _, rfl, hshort, h.skip hstep hsplit⟩))
  | breaks hrest hrun =>
    obtain ⟨hsplit, hshort⟩ := pass_split hrest hrun.nonempty
    exact .inr (.inr (.inl ⟨_, _, rfl, hshort, h.skip hstep hsplit⟩))
  | lexeme hrest hm =>
    obtain ⟨hsplit, hshort⟩ := pass_split hrest hm.matched.ne_nil
    exact .inr (.inr (.inr ⟨_, _, _, _, rfl, hshort, h.token hstep hsplit⟩))
  | illegal => exact .inr (.inl ⟨_, _, rfl⟩)
  | longNumeral => exact .inr (.inl ⟨_, _, rfl⟩)

/-- A scan from a place stops at the end of the text, or at a place where its next step fails. -/
theorem Reached.scan {n : Nat} (h : Reached text line passed found c) (hn : c.rest.length < n) :
    ∃ passed' found' last, Reached text line passed' found' last ∧
      found.map (·.token) ++ (c.scan n).tokens = found'.map (·.token) ∧
      (((c.scan n).error? = none ∧ (c.scan n).finish = last ∧ last.rest = []) ∨
        ∃ e, (c.scan n).error? = some e ∧ last.step = .fail e (c.scan n).finish) := by
  induction n generalizing passed found c with
  | zero => cases hn
  | succ n ih =>
    rcases h.next with ⟨hstep, hrest⟩ | ⟨e, next, hstep⟩ | ⟨passed', next, hstep, hshort, hnext⟩ |
      ⟨passed', used, t, next, hstep, hshort, hnext⟩
    · rw [Cursor.scan, hstep]
      exact ⟨passed, found, c, h, List.append_nil _, .inl ⟨rfl, rfl, hrest⟩⟩
    · rw [Cursor.scan, hstep]
      exact ⟨passed, found, c, h, List.append_nil _, .inr ⟨e, rfl, hstep⟩⟩
    · rw [Cursor.scan, hstep]
      exact ih hnext (by omega)
    · rw [Cursor.scan, hstep]
      obtain ⟨passed'', found', last, hlast, htokens, hend⟩ := ih hnext (by omega)
      refine ⟨passed'', found', last, hlast, ?_, hend⟩
      rw [← htokens, List.map_append, List.append_assoc]
      rfl

end

/-- A text is cut up to a place into tokens, each of them the longest lexeme where it stands and for
what this says, in ascending order, with nothing but gaps between them. -/
structure CutTo (text : List Char) (stop : Nat) (found : List TokenSpan) : Prop where
  longest : ∀ f ∈ found, Longest f.used (text.drop f.token.offset)
  readAs : ∀ f ∈ found, ∀ l, ReadAs f.used l ↔ f.token.lexeme = l
  ascending : found.Pairwise fun f g => f.token.offset < g.token.offset ∧ f.stop ≤ g.token.offset
  inside : ∀ f ∈ found, f.stop ≤ stop
  gaps : ∀ i < stop, (∀ f ∈ found, i < f.token.offset ∨ f.stop ≤ i) →
    ∃ c, text[i]? = some c ∧ isGap c = true

section

variable {text rest : List Char} {stop : Nat} {found : List TokenSpan}

theorem CutTo.gap {gap : List Char} (h : CutTo text stop found)
    (hrest : text.drop stop = gap ++ rest) (hgap : ∀ d ∈ gap, isGap d = true) :
    CutTo text (stop + gap.length) found where
  longest := h.longest
  readAs := h.readAs
  ascending := h.ascending
  inside f hf := Nat.le_add_right_of_le (h.inside f hf)
  gaps i hi hout := by
    by_cases hbefore : i < stop
    · exact h.gaps i hbefore hout
    · have hlt : i - stop < gap.length := by omega
      refine ⟨gap[i - stop], ?_, hgap _ (List.getElem_mem hlt)⟩
      have hget : (text.drop stop)[i - stop]? = some gap[i - stop] := by
        rw [hrest, List.getElem?_append_left hlt, List.getElem?_eq_getElem hlt]
      rwa [List.getElem?_drop, Nat.add_sub_of_le (Nat.le_of_not_lt hbefore)] at hget

theorem CutTo.lexeme {cls : LexClass} {used : List Char} {l : Lexeme} (h : CutTo text stop found)
    (hrest : text.drop stop = used ++ rest) (hm : Munched cls used rest)
    (hl : cls.lexeme used = .ok l) (line : Nat) :
    CutTo text (stop + used.length) (found ++ [⟨⟨l, line, stop⟩, used⟩]) where
  longest f hf := by
    rcases List.mem_append.mp hf with hf | hf
    · exact h.longest f hf
    · obtain rfl := List.mem_singleton.mp hf
      exact hrest ▸ hm.longest
  readAs f hf := by
    rcases List.mem_append.mp hf with hf | hf
    · exact h.readAs f hf
    · obtain rfl := List.mem_singleton.mp hf
      have hread : ReadAs used l := hm.read_as hl
      exact fun l' => ⟨fun h' => hread.unique h', fun he => he ▸ hread⟩
  ascending := by
    refine List.pairwise_append.mpr ⟨h.ascending, List.pairwise_singleton _ _, ?_⟩
    intro f hf g hg
    obtain rfl := List.mem_singleton.mp hg
    obtain ⟨cls', hmatched⟩ := (h.longest f hf).matched
    have hpos := List.length_pos_iff.mpr hmatched.ne_nil
    have hstop := h.inside f hf
    exact ⟨Nat.lt_of_lt_of_le (Nat.lt_add_of_pos_right hpos) hstop, hstop⟩
  inside f hf := by
    rcases List.mem_append.mp hf with hf | hf
    · exact Nat.le_add_right_of_le (h.inside f hf)
    · obtain rfl := List.mem_singleton.mp hf
      exact Nat.le_refl _
  gaps i hi hout := by
    -- What is outside of all tokens is outside of the new one, so before it.
    have hnew := hout _ (List.mem_append_right _ (List.mem_singleton_self _))
    have hbefore : i < stop := hnew.elim id fun hafter => absurd hi (Nat.not_lt.mpr hafter)
    exact h.gaps i hbefore fun f hf => hout f (List.mem_append_left _ hf)

end

theorem Reached.cut {text passed : List Char} {line : Nat} {found : List TokenSpan} {c : Cursor}
    (h : Reached text line passed found c) : CutTo text passed.length found := by
  induction h with
  | start => exact ⟨by simp, by simp, .nil, by simp, by simp⟩
  | @skip passed found c next gap h hstep hrest ih =>
    have hdrop : text.drop passed.length = gap ++ next.rest := by
      rw [← h.text_eq, List.drop_left, hrest]
    rw [List.length_append]
    refine ih.gap hdrop fun d hd => ?_
    rcases skip_cases hstep hrest with ⟨ch, rfl, hch, -⟩ | ⟨hrun, -⟩
    · obtain rfl := List.mem_singleton.mp hd
      simp [isGap, hch]
    · simp [isGap, hrun.breaks d hd]
  | @token passed found c t next used h hstep hrest ih =>
    have hdrop : text.drop passed.length = used ++ next.rest := by
      rw [← h.text_eq, List.drop_left, hrest]
    obtain ⟨cls, l, hm, hl, rfl, -⟩ := token_cases hstep hrest
    rw [List.length_append, h.offset]
    exact ih.lexeme hdrop hm hl c.line

/-- No run of digits is longer than a numeral may be. -/
def ShortRuns (cs : List Char) : Prop :=
  ∀ run, run <:+: cs → (∀ d ∈ run, Text.isDigit d = true) → run.length ≤ Text.maxDigits

/-- A text without too long runs of digits is scanned to its end, and cut there into its lexemes and
gaps; or a scan stops at a character that is no gap and where no rule matches, and has cut all of
the text before it. -/
theorem tokenize_exact (s : Scanner) {text : String} (hruns : ShortRuns text.toList) :
    ∃ found, (s.tokenize text).1.tokens = found.map (·.token) ∧
      (((s.tokenize text).1.error? = none ∧ CutTo text.toList text.toList.length found) ∨
        ∃ place c line column, (s.tokenize text).1.error? = some (.illegal c line column) ∧
          (s.tokenize text).1.finish.offset = place ∧ CutTo text.toList place found ∧
          text.toList[place]? = some c ∧ isGap c = false ∧
          ∀ cls used, Matches cls used → ¬used <+: text.toList.drop place) := by
  have hstart : Reached text.toList s.line [] [] (Cursor.start text.toList s.line) := .start
  obtain ⟨passed, found, last, hlast, htokens, hend⟩ := hstart.scan (Nat.lt_succ_self _)
  refine ⟨found, htokens, ?_⟩
  have hsplit := hlast.text_eq
  rcases hend with ⟨herror, -, hrest⟩ | ⟨e, herror, hstep⟩
  · refine .inl ⟨herror, ?_⟩
    rw [hrest, List.append_nil] at hsplit
    exact hsplit ▸ hlast.cut
  · rcases fail_cases hstep with ⟨ch, rest, hrest, hgap, hm, rfl, hfinish⟩ |
      ⟨used, rest, hrest, hm, hlong, -, -⟩
    · have hdrop : text.toList.drop passed.length = last.rest := by rw [← hsplit, List.drop_left]
      refine .inr ⟨passed.length, ch, _, _, herror, ?_, hlast.cut, ?_, hgap, ?_⟩
      · rw [← hlast.offset]
        exact congrArg Cursor.offset hfinish
      · rw [← hsplit, hrest]
        simp
      · intro cls used hmatched hstarts
        rw [hdrop] at hstarts
        obtain ⟨cls', used', hmunch, -⟩ := hmatched.munch hstarts
        cases hm.symm.trans hmunch
    · have hwithin : used <:+: text.toList :=
        ⟨passed, rest, by rw [← hsplit, hrest, List.append_assoc]⟩
      cases hm with
      | numeral _ hcs => exact absurd (hruns _ hwithin hcs) (Nat.not_le.mpr hlong)

def operatorsText : String := "= != < > <= >="

theorem tokenize_operators : ShortRuns operatorsText.toList ∧
    ∃ found, (Scanner.fresh.tokenize operatorsText).1.tokens = found.map (·.token) ∧
      found.length = 6 ∧ CutTo operatorsText.toList 14 found := by
  have hruns : ShortRuns operatorsText.toList := by
    intro run hrun _
    exact Nat.le_trans hrun.length_le (by decide)
  obtain ⟨found, htokens, ⟨-, hcut⟩ | ⟨_, _, _, _, herror, -⟩⟩ :=
    tokenize_exact Scanner.fresh hruns
  · refine ⟨hruns, found, htokens, ?_, hcut⟩
    have hlength := congrArg List.length htokens
    rw [List.length_map] at hlength
    exact hlength.symm
  · cases herror

end DocQuery.Proofs
