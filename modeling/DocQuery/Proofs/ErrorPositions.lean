import DocQuery.Proofs.LongestLexemes
import Mathlib.Algebra.GroupWithZero.Nat

namespace DocQuery.Proofs

open Sql

/-- A line ends with a carriage return and a line feed, or with one of them alone. -/
inductive LineBreak where
  | both | feed | carriage
deriving DecidableEq

/-- The line break that a character is by itself. -/
def loneBreak (c : Char) : List LineBreak :=
  if c = '\r' then [.carriage] else if c = '\n' then [.feed] else []

def lineBreaks : List Char → List LineBreak
  | [] => []
  | '\r' :: '\n' :: cs => .both :: lineBreaks cs
  | c :: cs => loneBreak c ++ lineBreaks cs

/-- The place after the last line break. -/
def lastLineStart (cs : List Char) : Nat := (cs.reverse.dropWhile fun c => !isBreak c).length

/-- The line and the column of what comes after a text, both counted from one. -/
def positionAfter (cs : List Char) : Nat × Nat :=
  ((lineBreaks cs).length + 1, cs.length - lastLineStart cs + 1)

/-- The runs of line breaks, and empty ones between other characters. -/
def breakRuns (cs : List Char) : List (List Char) := cs.splitOnP fun c => !isBreak c

/-- Line feeds alone and carriage returns alone do not come together. -/
def Unmixed (run : List Char) : Prop := .feed ∉ lineBreaks run ∨ .carriage ∉ lineBreaks run

instance (run : List Char) : Decidable (Unmixed run) := inferInstanceAs (Decidable (_ ∨ _))

theorem line_breaks_cons {c : Char} {cs : List Char} (h : c = '\r' → cs.head? ≠ some '\n') :
    lineBreaks (c :: cs) = loneBreak c ++ lineBreaks cs := by
  rw [lineBreaks]
  rintro tail hc rfl
  exact h hc rfl

/-- Line breaks are found in two texts apart, unless one of them is on both sides. -/
theorem line_breaks_append {xs ys : List Char}
    (h : xs.getLast? = some '\r' → ys.head? ≠ some '\n') :
    lineBreaks (xs ++ ys) = lineBreaks xs ++ lineBreaks ys := by
  match xs with
  | [] => rfl
  | [c] =>
    have hlone : c = '\r' → ys.head? ≠ some '\n' := fun hc => h (congrArg some hc)
    rw [List.singleton_append, line_breaks_cons hlone, line_breaks_cons (by simp), lineBreaks,
      List.append_nil]
  | c :: d :: cs =>
    have hrest : (d :: cs).getLast? = some '\r' → ys.head? ≠ some '\n' := by
      rwa [List.getLast?_cons_cons] at h
    by_cases hpair : c = '\r' ∧ d = '\n'
    · obtain ⟨rfl, rfl⟩ := hpair
      have hcs : cs.getLast? = some '\r' → ys.head? ≠ some '\n' := by
        intro hcs
        refine hrest ?_
        rw [List.getLast?_cons, hcs]
        rfl
      exact congrArg (.both :: ·) (line_breaks_append hcs)
    · have hlone : ∀ zs, c = '\r' → (d :: zs).head? ≠ some '\n' := by simpa using hpair
      rw [List.cons_append, List.cons_append, line_breaks_cons (hlone _), ← List.cons_append,
        line_breaks_append hrest, line_breaks_cons (hlone _), List.append_assoc]

theorem lone_break_nil_iff {c : Char} : loneBreak c = [] ↔ isBreak c = false := by
  by_cases hr : c = '\r'
  · simp [loneBreak, isBreak, hr]
  · by_cases hn : c = '\n' <;> simp [loneBreak, isBreak, hr, hn]

theorem line_breaks_nil_iff {cs : List Char} :
    lineBreaks cs = [] ↔ ∀ c ∈ cs, isBreak c = false := by
  induction cs using lineBreaks.induct with
  | case1 => simp [lineBreaks]
  | case2 cs => simp [lineBreaks, isBreak]
  | case3 c cs hpair ih =>
    rw [lineBreaks, List.append_eq_nil_iff, lone_break_nil_iff, ih, List.forall_mem_cons]
    exact hpair

/-- All line feeds and carriage returns are in line breaks. -/
theorem line_breaks_counts (cs : List Char) :
    cs.count '\n' = (lineBreaks cs).count .both + (lineBreaks cs).count .feed ∧
      cs.count '\r' = (lineBreaks cs).count .both + (lineBreaks cs).count .carriage ∧
      (lineBreaks cs).length = (lineBreaks cs).count .both + (lineBreaks cs).count .feed +
        (lineBreaks cs).count .carriage := by
  induction cs using lineBreaks.induct with
  | case1 => simp [lineBreaks]
  | case2 cs ih =>
    simp [lineBreaks]
    omega
  | case3 c cs hpair ih =>
    rw [lineBreaks]
    · by_cases hr : c = '\r'
      · simp [loneBreak, hr]
        omega
      · by_cases hn : c = '\n'
        · simp [loneBreak, hn]
          omega
        · simp [loneBreak, hr, hn]
          omega
    · exact hpair

/-- The scanner misses as many line breaks of a run as there are of one kind and of the other. -/
def missedBreaks (run : List Char) : Nat :=
  min ((lineBreaks run).count .feed) ((lineBreaks run).count .carriage)

theorem break_count_missed (run : List Char) :
    Cursor.breakCount run + missedBreaks run = (lineBreaks run).length := by
  obtain ⟨hfeeds, hreturns, hlength⟩ := line_breaks_counts run
  rw [Cursor.breakCount, missedBreaks, hfeeds, hreturns, hlength]
  omega

/-- The sum of a number over the runs of line breaks. -/
def runSum (f : List Char → Nat) (cs : List Char) : Nat := ((breakRuns cs).map f).sum

theorem missed_runs_iff {cs : List Char} :
    runSum missedBreaks cs = 0 ↔ ∀ run ∈ breakRuns cs, Unmixed run := by
  rw [runSum, List.sum_eq_zero_iff_forall_eq_nat, List.forall_mem_map]
  refine forall₂_congr fun run _ => ?_
  rw [missedBreaks, Unmixed, ← List.count_eq_zero, ← List.count_eq_zero]
  omega

theorem run_sum_append {f : List Char → Nat} {xs ys : List Char} {d : Char}
    (hd : isBreak d = false) : runSum f (xs ++ d :: ys) = runSum f xs + runSum f ys := by
  have hsplit : breakRuns (xs ++ d :: ys) = breakRuns xs ++ breakRuns ys :=
    List.splitOnP_append_cons xs ys (by simp [hd])
  rw [runSum, hsplit, List.map_append, List.sum_append]
  rfl

section

variable {f : List Char → Nat} (hf : f [] = 0)

include hf

theorem run_sum_nil : runSum f [] = 0 := by simp [runSum, breakRuns, hf]

theorem run_sum_plain {cs : List Char} (h : ∀ c ∈ cs, isBreak c = false) : runSum f cs = 0 := by
  induction cs with
  | nil => exact run_sum_nil hf
  | cons c cs ih =>
    obtain ⟨hc, hcs⟩ := List.forall_mem_cons.mp h
    rw [← List.nil_append (c :: cs), run_sum_append hc, run_sum_nil hf, ih hcs]

theorem run_sum_append_plain {xs ys : List Char} (h : ∀ c ∈ ys, isBreak c = false) :
    runSum f (xs ++ ys) = runSum f xs := by
  cases ys with
  | nil => rw [List.append_nil]
  | cons c cs =>
    obtain ⟨hc, hcs⟩ := List.forall_mem_cons.mp h
    rw [run_sum_append hc, run_sum_plain hf hcs, Nat.add_zero]

/-- A run of breaks after another character is a run by itself. -/
theorem run_sum_run {passed run : List Char} (h : ∀ c ∈ run, isBreak c = true)
    (hlast : ∀ d, passed.getLast? = some d → isBreak d = false) :
    runSum f (passed ++ run) = runSum f passed + f run := by
  have hsingle : runSum f run = f run := by
    rw [runSum, breakRuns, List.splitOnP_eq_singleton fun c hc => by simp [h c hc]]
    simp
  rcases List.eq_nil_or_concat' passed with rfl | ⟨xs, d, rfl⟩
  · rw [List.nil_append, hsingle, run_sum_nil hf, Nat.zero_add]
  · have hd : isBreak d = false := hlast d (by simp)
    rw [List.append_assoc, List.singleton_append, run_sum_append hd, run_sum_append hd, hsingle,
      run_sum_nil hf, Nat.add_zero]

end

theorem break_blank {c : Char} (h : Text.isBlank c = false) : isBreak c = false := by
  by_contra hbreak
  rw [Bool.not_eq_false] at hbreak
  rw [gap_blank (by rw [isGap, hbreak, Bool.or_true])] at h
  cases h

theorem space_no_break {c : Char} (h : isSpace c = true) : isBreak c = false := by
  rw [isSpace, Bool.or_eq_true, beq_iff_eq, beq_iff_eq] at h
  rcases h with rfl | rfl <;> rfl

/-- A lexeme starts and ends with no line break. Only a text may have some inside. -/
theorem munched_breaks {cls : LexClass} {used rest : List Char} {l : Lexeme}
    (hm : Munched cls used rest) (hl : cls.lexeme used = .ok l) :
    (∀ d, used.head? = some d → isBreak d = false) ∧
      (∀ d, used.getLast? = some d → isBreak d = false) ∧
      (lineBreaks used = [] ↔ ∀ s, l = .text s → lineBreaks s.toList = []) := by
  have hquote : isBreak '\'' = false := by decide
  rcases munched_chars hm with ⟨cs, rfl, rfl⟩ | hchars
  · cases quoted_lexeme hl
    refine ⟨?_, ?_, ?_⟩
    · rintro d hd
      cases hd
      exact hquote
    · intro d hd
      rw [List.getLast?_concat] at hd
      cases hd
      exact hquote
    · simp only [line_breaks_nil_iff, List.forall_mem_append, List.forall_mem_cons, hquote]
      simp
  · have hused : ∀ c ∈ used, isBreak c = false := fun c hc => break_blank (hchars c hc).1
    refine ⟨fun d hd => hused d (List.mem_of_head? hd),
      fun d hd => hused d (List.mem_of_getLast? hd), iff_of_true (line_breaks_nil_iff.mpr hused) ?_⟩
    rintro s rfl
    rw [(lexeme_written hm hl).2 s rfl] at hused
    exact line_breaks_nil_iff.mpr fun c hc => hused c (by simp [hc])

section

variable {text passed : List Char} {line : Nat} {found : List TokenSpan} {c : Cursor}

/-- A run of breaks is passed as a whole. -/
theorem Reached.run_ends (h : Reached text line passed found c) {run rest : List Char}
    (hrun : BreakRun run rest) (hsplit : c.rest = run ++ rest) :
    ∀ d, passed.getLast? = some d → isBreak d = false := by
  obtain ⟨e, run, rfl⟩ := List.exists_cons_of_ne_nil hrun.nonempty
  have he : c.rest.head? = some e := by rw [hsplit]; rfl
  have hbreak : isBreak e = true := hrun.breaks e List.mem_cons_self
  cases h with
  | start => simp
  | skip h hstep hrest =>
    rcases skip_cases hstep hrest with ⟨ch, rfl, hch, -⟩ | ⟨hrun, -⟩
    · intro d hd
      rw [List.getLast?_concat] at hd
      cases hd
      exact space_no_break hch
    · rw [hrun.ends e he] at hbreak
      cases hbreak
  | token h hstep hrest =>
    obtain ⟨cls, l, hm, hl, -, -⟩ := token_cases hstep hrest
    obtain ⟨-, hlast, -⟩ := munched_breaks hm hl
    intro d hd
    obtain ⟨x, xs, rfl, -⟩ := hm.start
    rw [List.getLast?_append_of_ne_nil _ (List.cons_ne_nil x xs)] at hd
    exact hlast d hd

/-- No text among the tokens has a line break. -/
def PlainTexts (found : List TokenSpan) : Prop :=
  ∀ f ∈ found, ∀ s, f.token.lexeme = .text s → lineBreaks s.toList = []

theorem plain_texts_append {t : Token} {used : List Char} : PlainTexts (found ++ [⟨t, used⟩]) ↔
    PlainTexts found ∧ ∀ s, t.lexeme = .text s → lineBreaks s.toList = [] := by
  rw [PlainTexts, List.forall_mem_append, List.forall_mem_singleton]
  rfl

/-- The scanner misses no line break just if none is in a text, and each run has breaks of one kind
besides pairs. -/
theorem Reached.line_missed (h : Reached text line passed found c) :
    ∃ missed, c.line + missed = line + (lineBreaks passed).length ∧
      (missed = 0 ↔ PlainTexts found ∧ runSum missedBreaks passed = 0) := by
  have hzero : missedBreaks [] = 0 := rfl
  induction h with
  | start => exact ⟨0, rfl, iff_of_true rfl ⟨by simp [PlainTexts], run_sum_nil hzero⟩⟩
  | @skip passed found c next gap h hstep hrest ih =>
    obtain ⟨missed, hline, hmissed⟩ := ih
    rcases skip_cases hstep hrest with ⟨ch, rfl, hch, rfl⟩ | ⟨hrun, rfl⟩
    · have hplain := space_no_break hch
      have hnone : lineBreaks [ch] = [] := line_breaks_nil_iff.mpr (by simpa using hplain)
      refine ⟨missed, ?_, ?_⟩
      · rw [line_breaks_append (by rintro - ⟨⟩; cases hplain), hnone, List.append_nil]
        exact hline
      · rw [hmissed, run_sum_append_plain hzero (List.forall_mem_singleton.mpr hplain)]
    · -- The run is counted with the breaks that it misses, and is apart from those before it.
      have hlast := h.run_ends hrun hrest
      have hcount := break_count_missed gap
      refine ⟨missed + missedBreaks gap, ?_, ?_⟩
      · rw [line_breaks_append (fun hd => by cases hlast _ hd), List.length_append]
        change c.line + Cursor.breakCount gap + _ = _
        omega
      · rw [run_sum_run hzero hrun.breaks hlast, Nat.add_eq_zero_iff, Nat.add_eq_zero_iff,
          hmissed, and_assoc]
  | @token passed found c t next used h hstep hrest ih =>
    obtain ⟨missed, hline, hmissed⟩ := ih
    obtain ⟨cls, l, hm, hl, rfl, rfl⟩ := token_cases hstep hrest
    obtain ⟨hfirst, -, htext⟩ := munched_breaks hm hl
    refine ⟨missed + (lineBreaks used).length, ?_, ?_⟩
    · rw [line_breaks_append (fun _ hd => by cases hfirst _ hd), List.length_append]
      change c.line + _ = _
      omega
    · obtain ⟨d, ds, rfl, -⟩ := hm.start
      rw [run_sum_append (hfirst d rfl), plain_texts_append, ← htext, Nat.add_eq_zero_iff,
        Nat.add_eq_zero_iff, hmissed, List.length_eq_zero_iff]
      constructor
      · rintro ⟨⟨hplain, hruns⟩, hnone⟩
        have hused := line_breaks_nil_iff.mp hnone
        exact ⟨⟨hplain, hnone⟩, hruns, run_sum_plain hzero (List.forall_mem_cons.mp hused).2⟩
      · rintro ⟨⟨hplain, hnone⟩, hruns, -⟩
        exact ⟨⟨hplain, hruns⟩, hnone⟩

end

/-- A text without what stands between quotes. The flag says whether a quote is open. -/
def unquoted (opened : Bool) : List Char → List Char
  | [] => []
  | c :: cs =>
    if c = '\'' then c :: unquoted (!opened) cs
    else if opened then unquoted true cs
    else c :: unquoted false cs

/-- The lines that are counted in a text: in each run of breaks that is not quoted, the line feeds
or the carriage returns, whichever are more. -/
def countedLines (cs : List Char) : Nat :=
  runSum (fun run => max (run.count '\n') (run.count '\r')) (unquoted false cs)

/-- A text that leaves no quote open. -/
def Closed (cs : List Char) : Prop :=
  ∀ ys, unquoted false (cs ++ ys) = unquoted false cs ++ unquoted false ys

theorem Closed.append {xs ys : List Char} (hxs : Closed xs) (hys : Closed ys) :
    Closed (xs ++ ys) := by
  intro zs
  rw [List.append_assoc, hxs, hys, hxs, List.append_assoc]

theorem unquoted_plain {xs : List Char} (h : '\'' ∉ xs) (ys : List Char) :
    unquoted false (xs ++ ys) = xs ++ unquoted false ys := by
  induction xs with
  | nil => rfl
  | cons x xs ih =>
    rw [List.mem_cons, not_or] at h
    rw [List.cons_append, unquoted, if_neg (Ne.symm h.1), ih h.2]
    rfl

theorem unquoted_inside {xs : List Char} (h : '\'' ∉ xs) (ys : List Char) :
    unquoted true (xs ++ '\'' :: ys) = '\'' :: unquoted false ys := by
  induction xs with
  | nil => rfl
  | cons x xs ih =>
    rw [List.mem_cons, not_or] at h
    rw [List.cons_append, unquoted, if_neg (Ne.symm h.1)]
    exact ih h.2

theorem unquoted_self {xs : List Char} (h : '\'' ∉ xs) : unquoted false xs = xs := by
  have hself := unquoted_plain h []
  rwa [List.append_nil, unquoted, List.append_nil] at hself

theorem closed_plain {xs : List Char} (h : '\'' ∉ xs) : Closed xs := by
  intro ys
  rw [unquoted_plain h, unquoted_self h]

theorem unquoted_quoted {xs : List Char} (h : '\'' ∉ xs) (ys : List Char) :
    unquoted false ('\'' :: xs ++ ['\''] ++ ys) = '\'' :: '\'' :: unquoted false ys := by
  rw [List.append_assoc]
  exact congrArg ('\'' :: ·) (unquoted_inside h ys)

/-- What is left ends as the text does, or with a quote. -/
theorem unquoted_last {opened : Bool} {cs : List Char} {d : Char}
    (h : (unquoted opened cs).getLast? = some d) : d = '\'' ∨ cs.getLast? = some d := by
  induction cs generalizing opened with
  | nil => cases h
  | cons c cs ih =>
    have hrest : ∀ {o}, (unquoted o cs).getLast? = some d →
        d = '\'' ∨ (c :: cs).getLast? = some d := by
      intro o ho
      refine (ih ho).imp_right fun hd => ?_
      rw [List.getLast?_cons, hd]
      rfl
    rw [unquoted] at h
    split at h
    · rename_i hc
      cases hlast : (unquoted (!opened) cs).getLast? with
      | none =>
        rw [List.getLast?_cons, hlast] at h
        cases h
        exact .inl hc
      | some e =>
        rw [List.getLast?_cons, hlast] at h
        cases h
        exact hrest hlast
    · split at h
      · exact hrest h
      · cases cs with
        | nil => exact .inr h
        | cons b cs =>
          cases hlast : (unquoted false (b :: cs)).getLast? with
          | none =>
            rw [List.getLast?_eq_none_iff, unquoted] at hlast
            split at hlast <;> cases hlast
          | some e =>
            rw [List.getLast?_cons, hlast] at h
            cases h
            exact hrest hlast

section

variable {text passed : List Char} {line : Nat} {found : List TokenSpan} {c : Cursor}

/-- A lexeme leaves no quote open, and has no break outside quotes. -/
theorem munched_unquoted {cls : LexClass} {used rest : List Char} (hm : Munched cls used rest) :
    Closed used ∧ ∀ d ∈ unquoted false used, isBreak d = false := by
  have hplain : cls ≠ .quoted → '\'' ∉ used →
      Closed used ∧ ∀ d ∈ unquoted false used, isBreak d = false := by
    intro hcls hquote
    rw [unquoted_self hquote]
    rcases munched_chars hm with ⟨_, rfl, _⟩ | hchars
    · exact absurd rfl hcls
    · exact ⟨closed_plain hquote, fun d hd => break_blank (hchars d hd).1⟩
  cases hm with
  | @quoted cs _ hcs =>
    have hself : unquoted false ('\'' :: cs ++ ['\'']) = ['\'', '\''] := by
      simpa [unquoted] using unquoted_quoted hcs []
    rw [hself]
    refine ⟨fun ys => ?_, by simp [isBreak]⟩
    rw [unquoted_quoted hcs, hself]
    rfl
  | word hc hcs =>
    refine hplain (by simp) fun hmem => ?_
    rcases List.mem_cons.mp hmem with rfl | hmem
    · cases hc
    · cases hcs _ hmem
  | numeral _ hcs => exact hplain (by simp) fun hmem => absurd (hcs _ hmem) (by decide)
  | @symbol _ s => exact hplain (by simp) (by cases s <;> decide)

theorem counted_lexeme {cls : LexClass} {used rest : List Char} (hclosed : Closed passed)
    (hm : Munched cls used rest) : countedLines (passed ++ used) = countedLines passed := by
  rw [countedLines, hclosed, run_sum_append_plain rfl (munched_unquoted hm).2]
  rfl

/-- The scanner counts the lines of what it passes, and gives them to its tokens. -/
theorem Reached.line_counted (h : Reached text line passed found c) :
    Closed passed ∧ c.line = line + countedLines passed ∧
      ∀ f ∈ found, f.token.line = line + countedLines (text.take f.token.offset) := by
  have hzero : max (([] : List Char).count '\n') (([] : List Char).count '\r') = 0 := rfl
  induction h with
  | start => exact ⟨fun _ => rfl, by rw [countedLines, unquoted, run_sum_nil hzero]; rfl, by simp⟩
  | @skip passed found c next gap h hstep hrest ih =>
    obtain ⟨hclosed, hline, hfound⟩ := ih
    have hquote : '\'' ∉ gap := by
      rcases skip_cases hstep hrest with ⟨ch, rfl, hch, -⟩ | ⟨hrun, -⟩ <;> intro hmem
      · cases List.mem_singleton.mp hmem
        cases hch
      · cases hrun.breaks _ hmem
    refine ⟨hclosed.append (closed_plain hquote), ?_, hfound⟩
    rw [countedLines, hclosed, unquoted_self hquote]
    rcases skip_cases hstep hrest with ⟨ch, rfl, hch, rfl⟩ | ⟨hrun, rfl⟩
    · rw [run_sum_append_plain hzero (List.forall_mem_singleton.mpr (space_no_break hch))]
      exact hline
    · have hlast : ∀ d, (unquoted false passed).getLast? = some d → isBreak d = false := by
        intro d hd
        rcases unquoted_last hd with rfl | hd
        · rfl
        · exact h.run_ends hrun hrest d hd
      rw [run_sum_run hzero hrun.breaks hlast, ← Nat.add_assoc]
      exact congrArg (· + Cursor.breakCount gap) hline
  | @token passed found c t next used h hstep hrest ih =>
    obtain ⟨hclosed, hline, hfound⟩ := ih
    obtain ⟨cls, l, hm, hl, rfl, rfl⟩ := token_cases hstep hrest
    refine ⟨hclosed.append (munched_unquoted hm).1, ?_, ?_⟩
    · rw [counted_lexeme hclosed hm]
      exact hline
    · rw [List.forall_mem_append, List.forall_mem_singleton]
      refine ⟨hfound, hline.trans ?_⟩
      rw [← h.text_eq, h.offset, List.take_left]

end

/-- The lines of a scan, at its tokens and where it ends, are those of the text before. -/
theorem scan_lines (text : String) (line : Nat) :
    (scan text line).finish.line =
        line + countedLines (text.toList.take (scan text line).finish.offset) ∧
      ∀ t ∈ (scan text line).tokens, t.line = line + countedLines (text.toList.take t.offset) := by
  have hstart : Reached text.toList line [] [] (Cursor.start text.toList line) := .start
  obtain ⟨passed, found, last, hlast, htokens, hend⟩ := hstart.scan (Nat.lt_succ_self _)
  obtain ⟨hclosed, hline, hfound⟩ := hlast.line_counted
  have hsplit := hlast.text_eq
  have hthere : last.line = line + countedLines (text.toList.take last.offset) := by
    rw [hline, hlast.offset, ← hsplit, List.take_left]
  change (scan text line).tokens = found.map (·.token) at htokens
  refine ⟨?_, by rwa [htokens, List.forall_mem_map]⟩
  rcases hend with ⟨-, hfinish, -⟩ | ⟨e, -, hstep⟩
  · change (scan text line).finish = last at hfinish
    rw [hfinish, hthere]
  · change last.step = .fail e (scan text line).finish at hstep
    rcases fail_cases hstep with
      ⟨_, _, _, _, _, _, hfinish⟩ | ⟨used, rest, hrest, hm, _, _, hfinish⟩
    · rw [hfinish, hthere]
    · rw [hrest, ← List.append_assoc] at hsplit
      have hoffset : (last.pass used).offset = (passed ++ used).length := by
        rw [List.length_append, ← hlast.offset]
        rfl
      rw [hfinish, hoffset, ← hsplit, List.take_left, counted_lexeme hclosed hm]
      exact hline

/-- The place after the last line feed. -/
def afterFeed (cs : List Char) : Nat := (cs.reverse.dropWhile (· != '\n')).length

theorem after_feed_append (xs ys : List Char) : afterFeed (xs ++ ys) =
    if ys.contains '\n' then xs.length + ys.length - (ys.reverse.takeWhile (· != '\n')).length
    else afterFeed xs := by
  have hsplit : ys.length =
      (ys.reverse.takeWhile (· != '\n')).length + (ys.reverse.dropWhile (· != '\n')).length := by
    rw [← List.length_append, List.takeWhile_append_dropWhile, List.length_reverse]
  have hnone : ys.reverse.dropWhile (· != '\n') = [] ↔ '\n' ∉ ys := by
    simp only [List.dropWhile_eq_nil_iff, List.mem_reverse, bne_iff_ne]
    exact ⟨fun h hmem => h _ hmem rfl, fun h c hc he => h (he ▸ hc)⟩
  rw [afterFeed, List.reverse_append, List.dropWhile_append]
  by_cases hmem : '\n' ∈ ys
  · rw [if_neg (by simpa [hnone] using hmem), if_pos (by simpa using hmem), List.length_append,
      List.length_reverse]
    omega
  · rw [if_pos (by simpa [hnone] using hmem), if_neg (by simpa using hmem)]
    rfl

theorem Reached.line_start {text passed : List Char} {line : Nat} {found : List TokenSpan}
    {c : Cursor} (h : Reached text line passed found c) : c.lineStart = afterFeed passed := by
  induction h with
  | start => rfl
  | @skip passed found c next gap h hstep hrest ih =>
    rw [after_feed_append, ← ih, ← h.offset]
    rcases skip_cases hstep hrest with ⟨_, _, _, rfl⟩ | ⟨_, rfl⟩ <;> rfl
  | @token passed found c t next used h hstep hrest ih =>
    rw [after_feed_append, ← ih, ← h.offset]
    obtain ⟨_, _, _, _, _, rfl⟩ := token_cases hstep hrest
    rfl

theorem last_break_iff (cs : List Char) :
    (lineBreaks cs).getLast? = some .carriage ↔ cs.reverse.find? isBreak = some '\r' := by
  induction cs using List.reverseRecOn with
  | nil => simp [lineBreaks]
  | append_singleton cs c ih =>
    rw [List.reverse_concat, List.find?_cons]
    by_cases hr : c = '\r'
    · subst hr
      rw [line_breaks_append (by simp)]
      simp [lineBreaks, loneBreak, isBreak]
    · by_cases hn : c = '\n'
      · subst hn
        refine iff_of_false ?_ (by simp [isBreak])
        by_cases hpair : cs.getLast? = some '\r'
        · obtain ⟨xs, rfl⟩ := List.getLast?_eq_some_iff.mp hpair
          rw [List.append_assoc, line_breaks_append (by simp)]
          simp [lineBreaks]
        · rw [line_breaks_append (fun hd => absurd hd hpair)]
          simp [lineBreaks, loneBreak]
      · have hplain : isBreak c = false := by simp [isBreak, hr, hn]
        have hnone : lineBreaks [c] = [] := line_breaks_nil_iff.mpr (by simpa using hplain)
        rw [line_breaks_append (by simp [hn]), hnone, List.append_nil, hplain]
        exact ih

theorem last_start_le (p : Char → Bool) (cs : List Char) :
    (cs.reverse.dropWhile p).length ≤ cs.length :=
  Nat.le_trans (List.dropWhile_suffix p).length_le (Nat.le_of_eq List.length_reverse)

/-- The last line is found after the last line feed, unless a carriage return alone comes later. -/
theorem after_feed_iff (cs : List Char) :
    afterFeed cs = lastLineStart cs ↔ (lineBreaks cs).getLast? ≠ some .carriage := by
  rw [Ne, last_break_iff, afterFeed, lastLineStart]
  induction cs.reverse with
  | nil => simp
  | cons c cs ih =>
    by_cases hn : c = '\n'
    · simp [hn, isBreak]
    · by_cases hr : c = '\r'
      · have hlength := (List.dropWhile_suffix (· != '\n') (l := cs)).length_le
        simp [hr, isBreak]
        omega
      · have hplain : isBreak c = false := by simp [isBreak, hr, hn]
        simpa [hn, hplain] using ih

/-- The position of an illegal character. Its line is right just if no text before it has a line
break and no run of line breaks has line feeds alone and carriage returns alone. Its column is right
just if the last line break before it is no carriage return alone. -/
theorem error_position_exact {text : String} {ch : Char} {line column : Nat}
    (h : (Scanner.fresh.tokenize text).1.error? = some (.illegal ch line column)) :
    ∃ passed rest, text.toList = passed ++ ch :: rest ∧
      (Scanner.fresh.tokenize text).1.finish.offset = passed.length ∧
      (line = (positionAfter passed).1 ↔
        (∀ t ∈ (Scanner.fresh.tokenize text).1.tokens, ∀ s, t.lexeme = .text s →
          lineBreaks s.toList = []) ∧ ∀ run ∈ breakRuns passed, Unmixed run) ∧
      (column = (positionAfter passed).2 ↔
        (lineBreaks passed).getLast? ≠ some .carriage) := by
  have hstart : Reached text.toList 1 [] [] (Cursor.start text.toList 1) := .start
  obtain ⟨passed, found, last, hlast, htokens, hend⟩ := hstart.scan (Nat.lt_succ_self _)
  rcases hend with ⟨herror, -⟩ | ⟨e, herror, hstep⟩
  · cases herror.symm.trans h
  · cases herror.symm.trans h
    rcases fail_cases hstep with ⟨ch', rest, hrest, -, -, he, hfinish⟩ | ⟨_, _, _, _, _, he, -⟩
    · cases he
      refine ⟨passed, rest, ?_, ?_, ?_, ?_⟩
      · rw [← hlast.text_eq, hrest]
      · rw [← hlast.offset]
        exact congrArg Cursor.offset hfinish
      · obtain ⟨missed, hline, hmissed⟩ := hlast.line_missed
        have htexts : PlainTexts found ↔ ∀ t ∈ (Scanner.fresh.tokenize text).1.tokens, ∀ s,
            t.lexeme = .text s → lineBreaks s.toList = [] := by
          have htokens' : (Scanner.fresh.tokenize text).1.tokens = found.map (·.token) := htokens
          rw [htokens', List.forall_mem_map]
          rfl
        rw [← htexts, ← missed_runs_iff]
        refine Iff.trans ?_ hmissed
        rw [positionAfter]
        omega
      · have hfeed : afterFeed passed ≤ passed.length := last_start_le _ passed
        have hbreak : lastLineStart passed ≤ passed.length := last_start_le _ passed
        rw [← after_feed_iff, hlast.offset, hlast.line_start, positionAfter]
        omega
    · cases he

def spreadText : String := "SELECT *\r\nFROM users\n\nWHERE $"

theorem error_position_spread :
    (Scanner.fresh.tokenize spreadText).1.error? = some (.illegal '$' 4 7) ∧
      ∃ passed rest, spreadText.toList = passed ++ '$' :: rest ∧ positionAfter passed = (4, 7) := by
  have herror : (Scanner.fresh.tokenize spreadText).1.error? = some (.illegal '$' 4 7) := rfl
  obtain ⟨passed, rest, htext, hoffset, hline, hcolumn⟩ := error_position_exact herror
  obtain rfl : spreadText.toList.take 28 = passed := by
    rw [htext]
    exact List.take_left' hoffset.symm
  have hplain : ∀ t ∈ (Scanner.fresh.tokenize spreadText).1.tokens,
      t.lexeme.className ≠ "STRING" := by
    decide
  have htexts : ∀ t ∈ (Scanner.fresh.tokenize spreadText).1.tokens, ∀ s, t.lexeme = .text s →
      lineBreaks s.toList = [] :=
    fun t ht s hs => absurd (congrArg Lexeme.className hs) (hplain t ht)
  refine ⟨herror, _, rest, htext, ?_⟩
  have hfirst := hline.mpr ⟨htexts, by decide⟩
  have hsecond := hcolumn.mpr (by decide)
  exact Prod.ext hfirst.symm hsecond.symm

/-- A line break in a text, a line feed before a carriage return, and a carriage return alone, each
with the position that is said and the one that is right. -/
theorem error_position_wrong :
    ((Scanner.fresh.tokenize "'New\nYork' $").1.error? = some (.illegal '$' 1 7) ∧
      positionAfter "'New\nYork' ".toList = (2, 7)) ∧
    ((Scanner.fresh.tokenize "\n\r$").1.error? = some (.illegal '$' 2 2) ∧
      positionAfter "\n\r".toList = (3, 1)) ∧
    (Scanner.fresh.tokenize "a\r$").1.error? = some (.illegal '$' 2 3) ∧
      positionAfter "a\r".toList = (2, 1) := by
  decide

end DocQuery.Proofs
