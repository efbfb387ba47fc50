import DocQuery.Proofs.ShellRuns

namespace DocQuery.Proofs

open Batch Text

/-- A statement with what comes before its semicolon, which has no semicolon itself, no white space
around it, and no dashes that start a comment. -/
structure IsStatement (s : String) (body : List Char) : Prop where
  ends : s.toList = body ++ [';']
  nonempty : body ≠ []
  semicolon : ';' ∉ body
  dashes : ¬dashes <:+: s.toList
  first : ∀ c, body.head? = some c → isBlank c = false
  last : ∀ c, body.getLast? = some c → isBlank c = false

theorem split_on (cs : List Char) : splitAtSemicolons cs = cs.splitOn ';' := by
  induction cs with
  | nil => rfl
  | cons c cs ih =>
    obtain ⟨part, parts, hsplit, -⟩ := split_parts cs
    rw [List.splitOn_cons_eq_if_modifyHead, ← ih, splitAtSemicolons, hsplit]
    by_cases hc : c = ';' <;> simp [hc]

theorem part_statements_append (xs ys : List Char) :
    partStatements (xs ++ ';' :: ys) = partStatements xs ++ partStatements ys := by
  rw [partStatements, split_on, List.splitOn_append_cons_self, List.filterMap_append, ← split_on,
    ← split_on]
  rfl

/-- A comment ends with its line. -/
theorem drop_comments_line (inComment : Bool) (xs ys : List Char) :
    dropComments inComment (xs ++ '\n' :: ys) =
      dropComments inComment xs ++ '\n' :: dropComments false ys := by
  fun_induction dropComments inComment xs with
  | case1 inComment => cases inComment <;> rfl
  | case2 _ cs ih => simpa [dropComments] using ih
  | case3 d cs hd ih => simpa [dropComments, hd] using ih
  | case4 _ _ tail _ ih => simpa [dropComments] using ih
  | case5 inComment d cs hd hopen hne ih =>
    rw [Bool.not_eq_true] at hopen
    subst hopen
    rw [List.cons_append, dropComments, if_neg hd, if_neg (by decide), ih, List.cons_append]
    -- A line feed is no dash, so it makes no comment of `d`.
    intro tail hdash hcs
    cases cs with
    | nil => cases hcs
    | cons e es => exact hne es hdash (by rw [(List.cons.inj hcs).1])

theorem statements_append (x y : String) :
    statements (x ++ "\n;" ++ y) = statements x ++ statements y := by
  have hcut : dropComments false (x ++ "\n;" ++ y).toList =
      dropComments false x.toList ++ ['\n'] ++ ';' :: dropComments false y.toList := by
    have htext : (x ++ "\n;" ++ y).toList = x.toList ++ '\n' :: ';' :: y.toList := by simp
    rw [htext, drop_comments_line, List.append_assoc]
    rfl
  change partStatements _ = partStatements _ ++ partStatements _
  rw [hcut, part_statements_append, part_statements_trailing (by decide)]

theorem drop_blanks_first {cs : List Char} {c : Char} (h : (dropBlanks cs).head? = some c) :
    isBlank c = false := by
  have hfirst := List.head?_dropWhile_not isBlank cs
  rw [dropBlanks] at h
  simpa [h] using hfirst

theorem trim_first {cs : List Char} {c : Char} (h : (trim cs).head? = some c) :
    isBlank c = false := by
  change (dropLastBlanks (dropBlanks cs)).head? = some c at h
  rcases last_blanks_head (dropBlanks cs) with hnone | hhead
  · rw [hnone] at h
    cases h
  · exact drop_blanks_first (hhead ▸ h)

theorem trim_last {cs : List Char} {c : Char} (h : (trim cs).getLast? = some c) :
    isBlank c = false := by
  rw [trim, List.getLast?_reverse] at h
  exact drop_blanks_first h

theorem statement_of_batch {text s : String} (h : s ∈ statements text) :
    ∃ body, IsStatement s body := by
  obtain ⟨p, hp, hs⟩ := List.mem_filterMap.mp h
  simp only [Option.ite_none_left_eq_some, Option.some.injEq] at hs
  obtain ⟨hsome, rfl⟩ := hs
  obtain ⟨body, hends, hsemicolon, hdashes⟩ := statement_uncut h
  rw [String.toList_ofList] at hends
  obtain rfl := List.append_cancel_right hends
  refine ⟨trim p, String.toList_ofList, ?_, hsemicolon, ?_, fun c => trim_first, fun c => trim_last⟩
  · simpa using hsome
  · rw [String.toList_ofList]
    intro hin
    rcases dashes_apart (by decide) hin with hbody | hnone
    · exact hdashes hbody
    · exact absurd hnone (by simp [dashes])

/-- What is before a semicolon is not trimmed, whatever white space comes first. -/
theorem IsStatement.trim {s : String} {gap body : List Char} (h : IsStatement s body)
    (hgap : ∀ c ∈ gap, isBlank c = true) : trim (gap ++ body) = body := by
  have hkept : ∀ cs : List Char, (∀ c, cs.head? = some c → isBlank c = false) →
      dropBlanks cs = cs := by
    intro cs hcs
    cases cs with
    | nil => rfl
    | cons c cs => simp [dropBlanks, hcs c rfl]
  have hfirst : dropBlanks (gap ++ body) = body := by
    rw [dropBlanks, List.dropWhile_append_of_pos hgap]
    exact hkept body h.first
  rw [Text.trim, hfirst, hkept, List.reverse_reverse]
  intro c hc
  rw [List.head?_reverse] at hc
  exact h.last c hc

theorem IsStatement.flat_cons {s : String} {body : List Char} (h : IsStatement s body)
    (gap : List Char) (ss : List String) : ((s :: ss).flatMap fun s => gap ++ s.toList) =
      gap ++ body ++ ';' :: ss.flatMap fun s => gap ++ s.toList := by
  rw [List.flatMap_cons, h.ends]
  simp

section

variable {gap : List Char} (hgap : ∀ c ∈ gap, isBlank c = true) {ss : List String}
  (hss : ∀ s ∈ ss, ∃ body, IsStatement s body)

include hgap hss

/-- Statements with white space before them are found again. -/
theorem part_statements_again : partStatements (ss.flatMap fun s => gap ++ s.toList) = ss := by
  induction ss with
  | nil => rfl
  | cons s ss ih =>
    obtain ⟨⟨body, hs⟩, hss⟩ := List.forall_mem_cons.mp hss
    have hpart : partStatements (gap ++ body) = [s] := by
      have hsemicolon : ';' ∉ gap ++ body := by
        intro hmem
        rcases List.mem_append.mp hmem with hmem | hmem
        · exact absurd (hgap _ hmem) (by decide)
        · exact hs.semicolon hmem
      rw [partStatements, split_last hsemicolon, List.filterMap_cons, List.filterMap_nil,
        partStatement, hs.trim hgap, if_neg (by simpa using hs.nonempty), ← hs.ends,
        String.ofList_toList]
    rw [hs.flat_cons, part_statements_append, hpart, ih hss]
    rfl

theorem no_dashes_again : ¬dashes <:+: ss.flatMap fun s => gap ++ s.toList := by
  induction ss with
  | nil => simp [dashes]
  | cons s ss ih =>
    obtain ⟨⟨body, hs⟩, hss⟩ := List.forall_mem_cons.mp hss
    rw [hs.flat_cons, List.append_assoc]
    intro hin
    have hdash : '-' ∉ gap := fun hmem => absurd (hgap _ hmem) (by decide)
    rcases dashes_apart (by decide) (dashes_after hdash hin) with hbody | hrest
    · refine hs.dashes (hbody.trans ?_)
      rw [hs.ends]
      exact (List.prefix_append body [';']).isInfix
    · exact ih hss hrest

end

theorem statements_uncommented {text : String} (h : ¬dashes <:+: text.toList) :
    statements text = partStatements text.toList := by
  change partStatements (dropComments false text.toList) = _
  rw [drop_comments_none h]

theorem statements_join {ss : List String} (hss : ∀ s ∈ ss, ∃ body, IsStatement s body) :
    statements (String.join ss) = ss := by
  have hgap : ∀ c ∈ ([] : List Char), isBlank c = true := by simp
  have htext : (String.join ss).toList = ss.flatMap fun s => [] ++ s.toList := String.toList_join
  rw [statements_uncommented (htext ▸ no_dashes_again hgap hss), htext]
  exact part_statements_again hgap hss

theorem intercalate_flat (sep : List Char) (s : String) (ss : List String) :
    sep ++ sep.intercalate ((s :: ss).map String.toList) =
      (s :: ss).flatMap fun s => sep ++ s.toList := by
  induction ss generalizing s with
  | nil => simp
  | cons t ts ih =>
    rw [List.map_cons, List.map_cons, List.intercalate_cons_cons, ← List.map_cons,
      List.flatMap_cons, ← ih]
    simp

theorem statements_intercalate {ss : List String} (hss : ∀ s ∈ ss, ∃ body, IsStatement s body) :
    statements ("\n".intercalate ss) = ss := by
  cases ss with
  | nil => rfl
  | cons s ss =>
    -- A line feed before all of them changes nothing, and makes them alike.
    have hblank : isBlank '\n' = true := by decide
    have hgap : ∀ c ∈ ['\n'], isBlank c = true := List.forall_mem_singleton.mpr hblank
    have hflat : '\n' :: ("\n".intercalate (s :: ss)).toList =
        (s :: ss).flatMap fun s => ['\n'] ++ s.toList := by
      rw [String.toList_intercalate]
      exact intercalate_flat ['\n'] s ss
    have hdashes := no_dashes_again hgap hss
    rw [← hflat] at hdashes
    rw [statements_uncommented fun h => hdashes (List.infix_cons h),
      ← part_statements_leading hblank, hflat]
    exact part_statements_again hgap hss

/-- The statements of a text are found apart from those of another one that comes after it, and are
found again, as they are, in what they make together with nothing or with line feeds between. -/
theorem statements_exact (x y : String) :
    statements (x ++ "\n;" ++ y) = statements x ++ statements y ∧
      statements (String.join (statements x)) = statements x ∧
      statements ("\n".intercalate (statements x)) = statements x ∧
      ∀ s ∈ statements x, ∃ body, IsStatement s body := by
  have hss : ∀ s ∈ statements x, ∃ body, IsStatement s body := fun s => statement_of_batch
  exact ⟨statements_append x y, statements_join hss, statements_intercalate hss, hss⟩

def scriptText : String := "SELECT * -- all; of them\n  FROM users ;\n;SELECT id FROM users"

theorem statements_of_script :
    "SELECT * \n  FROM users;" ∈ statements scriptText ∧
      (∃ body, IsStatement "SELECT * \n  FROM users;" body) ∧
      statements (String.join (statements scriptText)) = statements scriptText := by
  have hmem : "SELECT * \n  FROM users;" ∈ statements scriptText := by decide +kernel
  obtain ⟨-, hjoin, -, hall⟩ := statements_exact scriptText ""
  exact ⟨hmem, hall _ hmem, hjoin⟩

end DocQuery.Proofs
