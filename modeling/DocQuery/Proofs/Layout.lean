import DocQuery.Proofs.Recasing
import DocQuery.Proofs.StageOrder

namespace DocQuery.Proofs

open Sql

/-- Two texts that differ only in the letter case of keywords and in the gaps between lexemes. -/
inductive Relaid : List Char → List Char → Prop where
  | same : Relaid cs cs
  | gaps (hgaps : ∀ c ∈ gaps, isGap c = true) (hgaps' : ∀ c ∈ gaps', isGap c = true)
      (h : Relaid cs cs') : Relaid (gaps ++ cs) (gaps' ++ cs')
  | keyword (hm : Munched .word w cs) (hm' : Munched .word w' cs')
      (hw : Keyword.ofWord? w = some k) (hw' : Keyword.ofWord? w' = some k) (h : Relaid cs cs') :
      Relaid (w ++ cs) (w' ++ cs')
  | lexeme (hm : Munched cls used cs) (hm' : Munched cls used cs') (h : Relaid cs cs') :
      Relaid (used ++ cs) (used ++ cs')

theorem Relaid.symm {cs cs' : List Char} (h : Relaid cs cs') : Relaid cs' cs := by
  induction h with
  | same => exact .same
  | gaps hgaps hgaps' _ ih => exact .gaps hgaps' hgaps ih
  | keyword hm hm' hw hw' _ ih => exact .keyword hm' hm hw' hw ih
  | lexeme hm hm' _ ih => exact .lexeme hm' hm ih

/-- A text that starts with a lexeme is scanned by what the lexeme says. -/
theorem scans_munched {cls : LexClass} {used rest : List Char} {ls : Lexemes}
    (hm : Munched cls used rest) :
    Scans (used ++ rest) ls ↔
      ∃ l ls', cls.lexeme used = .ok l ∧ ls = l :: ls' ∧ Scans rest ls' := by
  have hmunch := munch_iff.mpr ⟨rest, rfl, hm⟩
  constructor
  · intro h
    obtain ⟨c, cs, rfl, hc⟩ := hm.start
    rw [List.cons_append, scans_munch hc] at h
    obtain ⟨cls', used', rest', l, ls', hmunch', hsplit, hl, rfl, h⟩ := h
    cases hmunch.symm.trans hmunch'
    rw [← List.cons_append] at hsplit
    obtain rfl := List.append_cancel_left hsplit
    exact ⟨l, ls', hl, rfl, h⟩
  · rintro ⟨l, ls', hl, rfl, h⟩
    exact .lexeme hm hl h

/-- Lexemes that are equal up to the letter case of keywords. -/
def SameLexemes (ls ls' : Lexemes) : Prop :=
  ls.map (rewordLexeme Text.upper) = ls'.map (rewordLexeme Text.upper)

theorem scans_relaid {cs cs' : List Char} (h : Relaid cs cs') {ls : Lexemes} (hs : Scans cs ls) :
    ∃ ls', Scans cs' ls' ∧ SameLexemes ls ls' := by
  induction h generalizing ls with
  | same => exact ⟨ls, hs, rfl⟩
  | gaps hgaps hgaps' _ ih =>
    obtain ⟨ls', hs', hsame⟩ := ih ((scans_gaps hgaps).mp hs)
    exact ⟨ls', (scans_gaps hgaps').mpr hs', hsame⟩
  | @keyword w cs w' cs' k hm hm' hw hw' _ ih =>
    obtain ⟨l, ls, hl, rfl, hrest⟩ := (scans_munched hm).mp hs
    obtain ⟨ls', hs', hsame⟩ := ih hrest
    simp only [LexClass.lexeme, hw, Except.ok.injEq] at hl
    subst hl
    refine ⟨.keyword k (String.ofList w') :: ls', ?_, ?_⟩
    · refine .lexeme hm' ?_ hs'
      simp only [LexClass.lexeme, hw']
    · have hupper := @upper_spelled (String.ofList w) k (by rw [String.toList_ofList, hw])
      have hupper' := @upper_spelled (String.ofList w') k (by rw [String.toList_ofList, hw'])
      rw [SameLexemes, List.map_cons, List.map_cons, rewordLexeme, rewordLexeme, hupper, hupper',
        hsame]
  | lexeme hm hm' _ ih =>
    obtain ⟨l, ls, hl, rfl, hrest⟩ := (scans_munched hm).mp hs
    obtain ⟨ls', hs', hsame⟩ := ih hrest
    exact ⟨l :: ls', .lexeme hm' hl hs', congrArg (_ :: ·) hsame⟩

/-- The statement of a text is also that of a text in another layout, up to the words of its
connectives. -/
theorem parse_relaid {text text' : String} (h : Relaid text.toList text'.toList) {line line' : Nat}
    {q : Query} (hq : Sql.parse text line = .ok q) :
    ∃ q', Sql.parse text' line' = .ok q' ∧ reword Text.upper q = reword Text.upper q' := by
  obtain ⟨ls, hs, hread⟩ := parse_scans.mp hq
  obtain ⟨ls', hs', hsame⟩ := scans_relaid h hs
  have hwords := of_lexemes_rewords Text.upper ls
  rw [hsame, of_lexemes_rewords, hread] at hwords
  cases hread' : Query.ofLexemes ls' with
  | error n =>
    rw [hread'] at hwords
    cases hwords
  | ok q' =>
    rw [hread'] at hwords
    exact ⟨q', parse_scans.mpr ⟨ls', hs', hread'⟩, (Except.ok.inj hwords).symm⟩

/-- Two runs of the stages that get as far, with one command and one failure, and with trees that
are equal up to letter case. -/
structure SameRun (r r' : Pipeline.Run) : Prop where
  tree : RecasedOptions r.tree? r'.tree?
  command : r.command? = r'.command?
  simple : r.simple? = r'.simple?
  failure : r.failure? = r'.failure?

theorem run_recased (schema : Value) {text text' : String} {line line' : Nat} {tree tree' : Value}
    (htree : Pipeline.parse text line = .ok tree) (htree' : Pipeline.parse text' line' = .ok tree')
    (h : Recased tree tree') :
    SameRun (Pipeline.run schema text line) (Pipeline.run schema text' line') := by
  obtain ⟨houtcome, hnoted⟩ := check_recased schema h
  have hcommand := translate_recased hnoted
  simp only [Pipeline.run, htree, htree', Pipeline.check, houtcome]
  cases (Check.check schema tree').outcome with
  | error e => exact ⟨⟨rfl, .same⟩, rfl, rfl, rfl⟩
  | ok _ =>
    simp only [Pipeline.translate, hcommand]
    cases Command.translate (Check.check schema tree').tree with
    | error e => exact ⟨⟨rfl, hnoted⟩, rfl, rfl, rfl⟩
    | ok command =>
      simp only [Except.mapError, Pipeline.simplify]
      cases Command.simplify command with
      | error f => exact ⟨⟨rfl, hnoted⟩, rfl, rfl, rfl⟩
      | ok simple => exact ⟨⟨rfl, hnoted⟩, rfl, rfl, rfl⟩

theorem pipeline_parse {text : String} {line : Nat} {tree : Value} :
    Pipeline.parse text line = .ok tree ↔ ∃ q, Sql.parse text line = .ok q ∧ tree = q.toValue := by
  rw [Pipeline.parse]
  cases Sql.parse text line with
  | error e => simp
  | ok q => simp [eq_comm]

/-- Layout and the letter case of keywords do not matter: one text is parsed just if the other one
is, the trees are equal up to the letter case of connectives, and for every schema they are checked,
translated and simplified with the same results or the same failure. -/
theorem layout_irrelevant {text text' : String} (h : Relaid text.toList text'.toList)
    (line line' : Nat) :
    ((∃ tree, Pipeline.parse text line = .ok tree) ↔
        ∃ tree', Pipeline.parse text' line' = .ok tree') ∧
      ∀ tree tree', Pipeline.parse text line = .ok tree → Pipeline.parse text' line' = .ok tree' →
        Recased tree tree' ∧ ∀ schema,
          Alike Recased (Check.check schema tree) (Check.check schema tree') ∧
          SameRun (Pipeline.run schema text line) (Pipeline.run schema text' line') := by
  refine ⟨⟨?_, ?_⟩, ?_⟩
  · rintro ⟨tree, htree⟩
    obtain ⟨q, hq, -⟩ := pipeline_parse.mp htree
    obtain ⟨q', hq', -⟩ := parse_relaid h hq
    exact ⟨q'.toValue, pipeline_parse.mpr ⟨q', hq', rfl⟩⟩
  · rintro ⟨tree', htree'⟩
    obtain ⟨q', hq', -⟩ := pipeline_parse.mp htree'
    obtain ⟨q, hq, -⟩ := parse_relaid h.symm hq'
    exact ⟨q.toValue, pipeline_parse.mpr ⟨q, hq, rfl⟩⟩
  · intro tree tree' htree htree'
    obtain ⟨q, hq, rfl⟩ := pipeline_parse.mp htree
    obtain ⟨q', hq', rfl⟩ := pipeline_parse.mp htree'
    obtain ⟨q'', hq'', hwords⟩ := @parse_relaid _ _ h line line' q hq
    cases hq'.symm.trans hq''
    have hrecased := statement_recased q q' (parse_writable hq) hwords
    exact ⟨hrecased, fun schema => ⟨check_recased schema hrecased,
      run_recased schema htree htree' hrecased⟩⟩

/-- Compares two texts lexeme by lexeme, up to a number of lexemes. -/
def relaidTo : Nat → List Char → List Char → Bool
  | 0, cs, cs' => cs == cs'
  | n + 1, cs, cs' =>
    let next := cs.dropWhile isGap
    let next' := cs'.dropWhile isGap
    match munch next, munch next' with
    | some (cls, used), some (cls', used') =>
      cls == cls' &&
        (used == used' || (cls == .word && (Keyword.ofWord? used).isSome &&
          Keyword.ofWord? used == Keyword.ofWord? used')) &&
        relaidTo n (next.drop used.length) (next'.drop used'.length)
    | _, _ => next == next'

theorem relaid_to {n : Nat} {cs cs' : List Char} (h : relaidTo n cs cs' = true) :
    Relaid cs cs' := by
  induction n generalizing cs cs' with
  | zero =>
    obtain rfl := eq_of_beq h
    exact .same
  | succ n ih =>
    have hgaps : ∀ cs : List Char, ∀ c ∈ cs.takeWhile isGap, isGap c = true :=
      fun _ _ hc => List.mem_takeWhile_imp hc
    rw [← List.takeWhile_append_dropWhile (p := isGap) (l := cs),
      ← List.takeWhile_append_dropWhile (p := isGap) (l := cs')]
    refine .gaps (hgaps cs) (hgaps cs') ?_
    rw [relaidTo] at h
    generalize cs.dropWhile isGap = next at h
    generalize cs'.dropWhile isGap = next' at h
    split at h
    · rename_i cls used cls' used' hm hm'
      obtain ⟨rest, rfl, hmunched⟩ := munch_iff.mp hm
      obtain ⟨rest', rfl, hmunched'⟩ := munch_iff.mp hm'
      simp only [List.drop_left, Bool.and_eq_true, Bool.or_eq_true, beq_iff_eq] at h
      obtain ⟨⟨rfl, hused⟩, hrest⟩ := h
      rcases hused with rfl | ⟨⟨rfl, hsome⟩, hword⟩
      · exact .lexeme hmunched hmunched' (ih hrest)
      · obtain ⟨k, hk⟩ := Option.isSome_iff_exists.mp hsome
        exact .keyword hmunched hmunched' hk (hword ▸ hk) (ih hrest)
    · obtain rfl := eq_of_beq h
      exact .same

def romansText : String := "select id from users where age > 30 and city = 'Rome';"

def romansSpread : String := "SELECT id\r\n\tFROM users  Where age > 30\nAND city = 'Rome';"

def romans (connective : String) : Query :=
  ⟨.items (.column ⟨none, "id"⟩) [], .table "users",
    some (.connect (.compare ⟨none, "age"⟩ .gt (.literal (.number 30))) connective
      (.compare ⟨none, "city"⟩ .eq (.literal (.text "Rome")))), [], none, [], none⟩

theorem layout_irrelevant_romans :
    Relaid romansText.toList romansSpread.toList ∧
      Recased (romans "and").toValue (romans "AND").toValue ∧
      SameRun (Pipeline.run shopSchema romansText 1) (Pipeline.run shopSchema romansSpread 1) := by
  have hrelaid : Relaid romansText.toList romansSpread.toList := relaid_to (n := 16) (by decide)
  obtain ⟨-, hsame⟩ := layout_irrelevant hrelaid 1 1
  obtain ⟨hrecased, hruns⟩ := hsame (romans "and").toValue (romans "AND").toValue rfl rfl
  exact ⟨hrelaid, hrecased, (hruns shopSchema).2⟩

end DocQuery.Proofs
