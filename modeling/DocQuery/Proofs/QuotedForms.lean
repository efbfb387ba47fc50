import DocQuery.Proofs.LiteralForms

namespace DocQuery.Proofs

theorem hex_value_digit {d : Nat} (h : d < 16) : Literal.hexValue? d.digitChar = some d := by
  revert d
  decide

/-- The hexadecimal digits of a number, with their values. -/
theorem hex_digits (n : Nat) : ∃ ds, (Nat.toDigits 16 n).mapM Literal.hexValue? = some ds ∧
    ds.length = (Nat.toDigits 16 n).length ∧ ds.foldl (fun n d => 16 * n + d) 0 = n := by
  induction n using Nat.strongRecOn with
  | ind n ih =>
    by_cases hsmall : n < 16
    · refine ⟨[n], ?_, ?_, ?_⟩
      · rw [Nat.toDigits_of_lt_base hsmall]
        simp [hex_value_digit hsmall]
      · rw [Nat.toDigits_of_lt_base hsmall]
        rfl
      · simp
    · obtain ⟨ds, hds, hlength, hvalue⟩ := ih (n / 16) (by omega)
      have hlast : Literal.hexValue? (n % 16).digitChar = some (n % 16) :=
        hex_value_digit (Nat.mod_lt n (by decide))
      rw [Nat.toDigits_of_base_le (by decide) (by omega)]
      refine ⟨ds ++ [n % 16], ?_, by simp [hlength], ?_⟩
      · simp [List.mapM_append, hds, hlast]
      · rw [List.foldl_append, hvalue]
        simp only [List.foldl_cons, List.foldl_nil]
        omega

/-- Zeros in front do not change a number. -/
theorem hex_padded (width n : Nat) (h : (Nat.toDigits 16 n).length ≤ width) :
    ∃ ds, (Text.hexDigits width n).mapM Literal.hexValue? = some ds ∧ ds.length = width ∧
      ds.foldl (fun n d => 16 * n + d) 0 = n := by
  obtain ⟨ds, hds, hlength, hvalue⟩ := hex_digits n
  have hzeros : ∀ k, (List.replicate k '0').mapM Literal.hexValue? = some (List.replicate k 0) := by
    intro k
    induction k with
    | zero => rfl
    | succ k ih =>
      have hzero : Literal.hexValue? '0' = some 0 := rfl
      simp [List.replicate_succ, hzero, ih]
  have hnothing : ∀ k, (List.replicate k 0).foldl (fun n d => 16 * n + d) 0 = 0 := by
    intro k
    induction k with
    | zero => rfl
    | succ k ih => simpa [List.replicate_succ] using ih
  refine ⟨List.replicate (width - (Nat.toDigits 16 n).length) 0 ++ ds, ?_, ?_, ?_⟩
  · simp [Text.hexDigits, List.mapM_append, hzeros, hds]
  · simp only [List.length_append, List.length_replicate, hlength]
    omega
  · rw [List.foldl_append, hnothing, hvalue]

theorem hex_char_read {width n : Nat} (h : (Nat.toDigits 16 n).length ≤ width)
    (hvalid : n.isValidChar) (rest : List Char) :
    Literal.hexChar? width (Text.hexDigits width n ++ rest) = some (Char.ofNat n, rest) := by
  obtain ⟨ds, hds, hlength, hvalue⟩ := hex_padded width n h
  have hwidth : (Text.hexDigits width n).length = width := by
    simp only [Text.hexDigits, List.length_append, List.length_replicate]
    omega
  have htake : (Text.hexDigits width n ++ rest).take width = Text.hexDigits width n := by
    rw [List.take_append_of_le_length (by omega), List.take_of_length_le (by omega)]
  have hdrop : (Text.hexDigits width n ++ rest).drop width = rest := by
    rw [List.drop_append_of_le_length (by omega), List.drop_of_length_le (by omega)]
    rfl
  simp only [Literal.hexChar?, htake, hdrop, hds, hvalue, hlength, hvalid, Option.bind_eq_bind,
    Option.bind_some, and_self, if_true]

theorem map_m_defined {α β : Type} {f : α → Option β} {xs : List α} {ys : List β}
    (h : xs.mapM f = some ys) : ∀ x ∈ xs, f x ≠ none := by
  induction xs generalizing ys with
  | nil => simp
  | cons x xs ih =>
    rw [List.mapM_cons] at h
    cases hx : f x with
    | none =>
      rw [hx] at h
      cases h
    | some y =>
      rw [hx] at h
      cases hxs : xs.mapM f with
      | none =>
        simp only [Option.bind_eq_bind, Option.bind_some] at h
        rw [hxs] at h
        cases h
      | some zs => exact List.forall_mem_cons.mpr ⟨by simp [hx], ih hxs⟩

theorem hex_digits_line {width n : Nat} (h : (Nat.toDigits 16 n).length ≤ width) :
    OnLine (Text.hexDigits width n) := by
  obtain ⟨ds, hds, -, -⟩ := hex_padded width n h
  intro c hc
  have hvalue := map_m_defined hds c hc
  refine ⟨?_, ?_, ?_⟩ <;> (rintro rfl; exact hvalue rfl)

/-- What follows a backslash stands for a character. -/
def EscapeOf (c : Char) (e : List Char) : Prop :=
  OnLine e ∧ ∀ rest, Literal.escape? (e ++ rest) = some ([c], rest)

/-- A character is read back from the escape of its code. -/
theorem code_escape_of (c : Char) : ∃ e, Text.codeEscape c.toNat = '\\' :: e ∧ EscapeOf c e := by
  have hvalid : c.toNat.isValidChar := c.valid
  have hwidth : ∀ k, 0 < k → c.toNat < 16 ^ k → OnLine (Text.hexDigits k c.toNat) ∧
      ∀ rest, Literal.hexChar? k (Text.hexDigits k c.toNat ++ rest) = some (c, rest) := by
    intro k hk hsmall
    have hlength := (Nat.length_toDigits_le_iff (by decide) hk).mpr hsmall
    refine ⟨hex_digits_line hlength, fun rest => ?_⟩
    rw [hex_char_read hlength hvalid, Char.ofNat_toNat]
  unfold Text.codeEscape
  split
  · rename_i hsmall
    obtain ⟨hline, hread⟩ := hwidth 2 (by decide) (by omega)
    refine ⟨_, rfl, by simpa using hline, fun rest => ?_⟩
    change (Literal.hexChar? 2 (Text.hexDigits 2 c.toNat ++ rest)).map _ = _
    rw [hread]
    rfl
  · split
    · rename_i hmiddle
      obtain ⟨hline, hread⟩ := hwidth 4 (by decide) (by omega)
      refine ⟨_, rfl, by simpa using hline, fun rest => ?_⟩
      change (Literal.hexChar? 4 (Text.hexDigits 4 c.toNat ++ rest)).map _ = _
      rw [hread]
      rfl
    · have hbound : c.toNat < 16 ^ 8 := by
        rcases hvalid with h | ⟨-, h⟩ <;> omega
      obtain ⟨hline, hread⟩ := hwidth 8 (by decide) hbound
      refine ⟨_, rfl, by simpa using hline, fun rest => ?_⟩
      change (Literal.hexChar? 8 (Text.hexDigits 8 c.toNat ++ rest)).map _ = _
      rw [hread]
      rfl

/-- A character between quotes is escaped, or stands for itself. -/
theorem escape_in_cases {q : Char} (hq : q = '\'' ∨ q = '"') (c : Char) :
    (∃ e, Text.escapeIn q c = '\\' :: e ∧ EscapeOf c e) ∨
      (Text.escapeIn q c = [c] ∧ c ≠ q ∧ c ≠ '\\' ∧ OnLine [c]) := by
  unfold Text.escapeIn
  split
  · rename_i hc
    refine .inl ⟨[c], rfl, ?_⟩
    rcases hc with rfl | rfl
    · exact ⟨by simp, fun rest => rfl⟩
    · rcases hq with rfl | rfl <;> exact ⟨by simp, fun rest => rfl⟩
  · rename_i hc
    obtain ⟨hescape, hquote⟩ := not_or.mp hc
    split
    · rename_i h
      subst h
      exact .inl ⟨['n'], rfl, by simp, fun rest => rfl⟩
    · rename_i hbreak
      split
      · rename_i h
        subst h
        exact .inl ⟨['r'], rfl, by simp, fun rest => rfl⟩
      · rename_i hreturn
        split
        · rename_i h
          subst h
          exact .inl ⟨['t'], rfl, by simp, fun rest => rfl⟩
        · split
          · rename_i hprintable
            have hzero : c ≠ '\x00' := by
              rintro rfl
              exact absurd hprintable (by decide)
            exact .inr ⟨rfl, hquote, hescape, by simpa using ⟨hbreak, hreturn, hzero⟩⟩
          · exact .inl (code_escape_of c)

/-- An escaped text is read back up to its closing quote. -/
theorem escaped_encodes {q : Char} (hq : q = '\'' ∨ q = '"') (s : List Char) :
    Encodes q (s.flatMap (Text.escapeIn q)) s := by
  have hescape : q ≠ '\\' := by rcases hq with rfl | rfl <;> decide
  constructor
  · intro rest
    induction s with
    | nil => exact .close q rest
    | cons c s ih =>
      rw [List.flatMap_cons, List.append_assoc]
      rcases escape_in_cases hq c with ⟨e, he, -, hread⟩ | ⟨he, hquote, hc, hline⟩
      · rw [he]
        exact .escape hescape (hread _) ih
      · rw [he]
        exact .plain hquote hc (hline c List.mem_cons_self).1 ih
  · cases s with
    | nil => simp
    | cons c s =>
      rw [List.flatMap_cons]
      rcases escape_in_cases hq c with ⟨e, he, -⟩ | ⟨he, hquote, -⟩
      · simpa [he] using hescape.symm
      · simpa [he] using hquote

theorem escaped_line {q : Char} (hq : q = '\'' ∨ q = '"') (s : List Char) :
    OnLine (s.flatMap (Text.escapeIn q)) := by
  induction s with
  | nil => exact on_line_nil
  | cons c s ih =>
    rw [List.flatMap_cons, on_line_append]
    refine ⟨?_, ih⟩
    rcases escape_in_cases hq c with ⟨e, he, hline, -⟩ | ⟨he, -, -, hline⟩
    · simpa [he] using hline
    · rw [he]
      exact hline

/-- A text in quotes is read back. -/
theorem quote_form (s : String) : QuotedForm s (Text.quoteChars s.toList) := by
  have hq : Text.quoteFor s.toList = '\'' ∨ Text.quoteFor s.toList = '"' := by
    unfold Text.quoteFor
    split
    · exact .inr rfl
    · exact .inl rfl
  refine ⟨⟨_, _, hq, escaped_encodes hq s.toList, rfl⟩, ?_⟩
  have hquote : OnLine [Text.quoteFor s.toList] := by
    rcases hq with h | h <;> rw [h] <;> simp
  have hline := escaped_line hq s.toList
  simpa [Text.quoteChars, hline] using hquote

/-- The literal form has quoted keys and no blanks inside its brackets. -/
def literalStyle : LiteralStyle :=
  ⟨[], fun s => Text.quoteChars s.toList, fun s => Text.quoteChars s.toList⟩

theorem literal_style_quotes (P K : String → Prop) : literalStyle.Quotes P K := by
  constructor
  · simp [literalStyle]
  · exact fun s _ => quote_form s
  · exact fun s _ => quote_form s

theorem literal_writes :
    Writes literalStyle Value.literal Value.literals Value.literalEntries where
  null := rfl
  int _ := rfl
  text s := ⟨Text.quote s, rfl, String.toList_ofList⟩
  list {xs ts} h := by
    refine ⟨Value.commaList "[" "]" ts, by rw [Value.literal, h]; rfl, ?_⟩
    simp [Value.commaList, literalStyle]
  dict {es ts} h := by
    refine ⟨Value.commaList "\x7b" "\x7d" ts, by rw [Value.literal, h]; rfl, ?_⟩
    simp [Value.commaList, literalStyle]
  noItems := rfl
  item ht hts := by
    rw [Value.literals, ht, hts]
    rfl
  noEntries := rfl
  entry {k v es t ts} ht hts := by
    refine ⟨Text.quote k ++ ": " ++ t, by rw [Value.literalEntries, ht, hts]; rfl, ?_⟩
    simp [Text.quote, literalStyle]

/-- A value is read back from its literal form. -/
theorem read_literal {P K : String → Prop} {v : Value} (hv : Readable P K v) :
    ∃ s, v.literal = .ok s ∧ Literal.read s.toList = .ok v := by
  obtain ⟨s, hs, hform⟩ := literal_writes.form hv
  refine ⟨s, hs, ?_⟩
  rw [hform]
  exact read_form (literal_style_quotes P K) hv

end DocQuery.Proofs
