import DocQuery.Command.Text
import DocQuery.Proofs.Comparisons
import DocQuery.Proofs.LiteralForms

namespace DocQuery.Proofs

open Sql

/-- A pass that has enough steps for a text turns it into another. -/
def Turns (pass : Nat → List Char → List Char) (cs ds : List Char) : Prop :=
  ∀ n, cs.length ≤ n → pass n cs = ds

/-- No name that ends before this text is followed by a colon. -/
structure NameEnds (rest : List Char) : Prop where
  word : ∀ c, rest.head? = some c → Text.isWord c = false
  colon : (Text.dropBlanks rest).head? ≠ some ':'

theorem name_ends_nil : NameEnds [] := by
  constructor <;> simp [Text.dropBlanks]

theorem name_ends_char {c : Char} (hword : Text.isWord c = false) (hblank : Text.isBlank c = false)
    (hcolon : c ≠ ':') (rest : List Char) : NameEnds (c :: rest) := by
  constructor
  · intro d hd
    cases hd
    exact hword
  · simpa [Text.dropBlanks, hblank] using hcolon

theorem name_ends_blank {rest : List Char} (h : NameEnds rest) : NameEnds (' ' :: rest) := by
  have hblank : Text.isBlank ' ' = true := rfl
  constructor
  · intro d hd
    cases hd
    rfl
  · simpa [Text.dropBlanks, hblank] using h.colon

theorem name_ends_comma (rest : List Char) : NameEnds (',' :: rest) :=
  name_ends_char rfl rfl (by decide) rest

/-- A character that all passes leave as it is. -/
structure PlainChar (c : Char) : Prop where
  operator : c ≠ '$'
  name : Command.isAsciiNameStart c = false
  quote : c ≠ '\''

theorem plain_mark {c : Char} (h : c ∈ ['[', ']', '\x7b', '\x7d', ',', ' ', '-']) :
    PlainChar c := by
  simp only [List.mem_cons, List.not_mem_nil, or_false] at h
  rcases h with rfl | rfl | rfl | rfl | rfl | rfl | rfl <;> exact ⟨by decide, rfl, by decide⟩

/-- A digit starts no name and is not blank. -/
theorem digit_cases {c : Char} (h : c.isDigit = true) :
    Command.isAsciiNameStart c = false ∧ Text.isBlank c = false := by
  have hpart : isWordPart c = true := by simp [isWordPart, Char.isAlphanum, h]
  exact word_part_small (P := fun c => c.isDigit = true →
    Command.isAsciiNameStart c = false ∧ Text.isBlank c = false) (by decide) hpart h

theorem plain_digit {c : Char} (h : c.isDigit = true) : PlainChar c := by
  refine ⟨?_, (digit_cases h).1, ?_⟩ <;> (rintro rfl; cases h)

/-- A pass turns the parts of a style into those of another, whatever follows them. -/
structure Restyles (pass : Nat → List Char → List Char) (st st' : LiteralStyle)
    (P K : String → Prop) : Prop where
  pad : st.pad = [' '] ∧ st'.pad = [' ']
  plain : ∀ {c rest rest'}, PlainChar c → Turns pass rest rest' →
    Turns pass (c :: rest) (c :: rest')
  null : ∀ {rest rest'}, NameEnds rest → Turns pass rest rest' →
    Turns pass ("None".toList ++ rest) ("None".toList ++ rest')
  text : ∀ {s rest rest'}, P s → Turns pass rest rest' →
    Turns pass (st.text s ++ rest) (st'.text s ++ rest')
  key : ∀ {k rest rest'}, K k → Turns pass rest rest' →
    Turns pass (st.key k ++ ':' :: rest) (st'.key k ++ ':' :: rest')

section Forms
variable {pass : Nat → List Char → List Char} {st st' : LiteralStyle} {P K : String → Prop}

def FormTurns (pass : Nat → List Char → List Char) (st st' : LiteralStyle) (v : Value) : Prop :=
  ∀ rest rest', NameEnds rest → Turns pass rest rest' →
    Turns pass (formOf st v ++ rest) (formOf st' v ++ rest')

theorem Restyles.mark (h : Restyles pass st st' P K) {c : Char} {rest rest' : List Char}
    (hc : c ∈ ['[', ']', '\x7b', '\x7d', ',', ' ', '-']) (hrest : Turns pass rest rest') :
    Turns pass (c :: rest) (c :: rest') := h.plain (plain_mark hc) hrest

theorem Restyles.digits (h : Restyles pass st st' P K) {ds rest rest' : List Char}
    (hds : ∀ d ∈ ds, d.isDigit = true) (hrest : Turns pass rest rest') :
    Turns pass (ds ++ rest) (ds ++ rest') := by
  induction ds with
  | nil => exact hrest
  | cons d ds ih =>
    obtain ⟨hd, hds⟩ := List.forall_mem_cons.mp hds
    exact h.plain (plain_digit hd) (ih hds)

theorem items_turn (h : Restyles pass st st' P K) {xs : List Value}
    (hxs : ∀ x ∈ xs, FormTurns pass st st' x) {rest rest' : List Char} (hends : NameEnds rest)
    (hrest : Turns pass rest rest') :
    Turns pass (formItems st xs ++ rest) (formItems st' xs ++ rest') := by
  induction xs with
  | nil => exact hrest
  | cons x xs ih =>
    obtain ⟨hx, hmore⟩ := List.forall_mem_cons.mp hxs
    rw [formItems, formItems, List.append_assoc, List.append_assoc]
    cases hempty : xs.isEmpty with
    | true => exact hx rest rest' hends hrest
    | false =>
      have hnext := h.mark (c := ',') (by simp) (h.mark (c := ' ') (by simp) (ih hmore))
      exact hx _ _ (name_ends_comma _) hnext

theorem entries_turn (h : Restyles pass st st' P K) {es : Entries}
    (hkeys : ∀ e ∈ es, ∃ k, e.1 = .text k ∧ K k) (hes : ∀ e ∈ es, FormTurns pass st st' e.2)
    {rest rest' : List Char} (hends : NameEnds rest) (hrest : Turns pass rest rest') :
    Turns pass (formEntries st es ++ rest) (formEntries st' es ++ rest') := by
  induction es with
  | nil => exact hrest
  | cons e es ih =>
    obtain ⟨key, v⟩ := e
    obtain ⟨⟨k, hkey, hk⟩, hmorekeys⟩ := List.forall_mem_cons.mp hkeys
    obtain ⟨hv, hmore⟩ := List.forall_mem_cons.mp hes
    obtain rfl : key = .text k := hkey
    replace hv : FormTurns pass st st' v := hv
    have hvalue : Turns pass
        (formOf st v ++ ((if es.isEmpty then [] else ',' :: ' ' :: formEntries st es) ++ rest))
        (formOf st' v ++
          ((if es.isEmpty then [] else ',' :: ' ' :: formEntries st' es) ++ rest')) := by
      cases hempty : es.isEmpty with
      | true => exact hv rest rest' hends hrest
      | false =>
        have hnext := h.mark (c := ',') (by simp)
          (h.mark (c := ' ') (by simp) (ih hmorekeys hmore))
        exact hv _ _ (name_ends_comma _) hnext
    have hentry := h.key hk (h.mark (c := ' ') (by simp) hvalue)
    simpa [formEntries] using hentry

/-- A pass turns the form of a value in one style into its form in the other. -/
theorem form_turns (h : Restyles pass st st' P K) {v : Value} (hv : Readable P K v) :
    FormTurns pass st st' v := by
  induction hv with
  | null => exact fun rest rest' hends hrest => h.null hends hrest
  | @int i hi =>
    intro rest rest' hends hrest
    have hdigits : Turns pass (Nat.toDigits 10 i.natAbs ++ rest)
        (Nat.toDigits 10 i.natAbs ++ rest') :=
      h.digits (fun d hd => Nat.isDigit_of_mem_toDigits (by decide) (by decide) hd) hrest
    rw [formOf, formOf]
    split
    · exact h.mark (c := '-') (by simp) hdigits
    · exact hdigits
  | text hs => exact fun rest rest' hends hrest => h.text hs hrest
  | @list xs _ ih =>
    intro rest rest' hends hrest
    have hclose := h.mark (c := ' ') (by simp) (h.mark (c := ']') (by simp) hrest)
    have hstop : NameEnds (' ' :: ']' :: rest) :=
      name_ends_blank (name_ends_char rfl rfl (by decide) rest)
    have hitems := h.mark (c := ' ') (by simp) (items_turn h ih hstop hclose)
    simpa [formOf, h.pad.1, h.pad.2] using h.mark (c := '[') (by simp) hitems
  | @dict es hkeys _ _ ih =>
    intro rest rest' hends hrest
    have hclose := h.mark (c := ' ') (by simp) (h.mark (c := '\x7d') (by simp) hrest)
    have hstop : NameEnds (' ' :: '\x7d' :: rest) :=
      name_ends_blank (name_ends_char rfl rfl (by decide) rest)
    have hentries := h.mark (c := ' ') (by simp) (entries_turn h hkeys ih hstop hclose)
    simpa [formOf, h.pad.1, h.pad.2] using h.mark (c := '\x7b') (by simp) hentries

/-- A pass over a whole form. -/
theorem pass_form (h : Restyles pass st st' P K) (hnil : ∀ n, pass n [] = []) {v : Value}
    (hv : Readable P K v) : pass (formOf st v).length (formOf st v) = formOf st' v := by
  have hall := form_turns h hv [] [] name_ends_nil fun n _ => hnil n
  rw [List.append_nil, List.append_nil] at hall
  exact hall _ le_rfl

end Forms

/-- A text that stands between double quotes as it is. -/
def ShellText (s : String) : Prop :=
  ∀ c ∈ s.toList, c ∉ ['"', '\'', '\\', '$', ':', '\r', '\n', '\x00']

/-- A name, or an operator. -/
def ShellKey (k : String) : Prop := IsName k ∨ ∃ name, k = "$" ++ name ∧ IsName name

/-- Quoted with nothing escaped. -/
def plainQuoted (s : String) : List Char := '"' :: (s.toList ++ ['"'])

/-- The style of the shell. -/
def shellStyle : LiteralStyle := ⟨[' '], String.toList, plainQuoted⟩

/-- The style of the shell with quoted operators. -/
def operatorStyle : LiteralStyle :=
  ⟨[' '], fun k => if k.toList.head? = some '$' then plainQuoted k else k.toList, plainQuoted⟩

/-- The style of the shell with all keys quoted. -/
def quotedStyle : LiteralStyle := ⟨[' '], plainQuoted, plainQuoted⟩

/-- A key is made of the characters of names, besides the dollar sign. -/
theorem key_without {k : String} (h : ShellKey k) {c : Char} (hpart : isWordPart c = false)
    (hc : c ≠ '$') : c ∉ k.toList := by
  have hname : ∀ {name}, IsName name → c ∉ name.toList := by
    intro name hname hmem
    rw [hname.parts c hmem] at hpart
    cases hpart
  rcases h with h | ⟨name, rfl, h⟩
  · exact hname h
  · simpa using ⟨hc, hname h⟩

section Operators
variable {rest rest' : List Char}

theorem operator_kept {c : Char} (hc : c ≠ '$') (h : Turns Command.quoteOperators rest rest') :
    Turns Command.quoteOperators (c :: rest) (c :: rest') := by
  intro n hn
  rw [List.length_cons] at hn
  obtain ⟨n, rfl⟩ : ∃ m, n = m + 1 := ⟨n - 1, by omega⟩
  rw [Command.quoteOperators, if_neg (by simp [hc]), h n (by omega)]

theorem operators_kept {cs : List Char} (hcs : '$' ∉ cs)
    (h : Turns Command.quoteOperators rest rest') :
    Turns Command.quoteOperators (cs ++ rest) (cs ++ rest') := by
  induction cs with
  | nil => exact h
  | cons c cs ih =>
    rw [List.mem_cons, not_or] at hcs
    exact operator_kept (Ne.symm hcs.1) (ih hcs.2)

theorem operator_quoted {name : String} (hname : IsName name)
    (h : Turns Command.quoteOperators rest rest') :
    Turns Command.quoteOperators ('$' :: (name.toList ++ ':' :: rest))
      ('"' :: '$' :: (name.toList ++ '"' :: ':' :: rest')) := by
  intro n hn
  rw [List.length_cons, List.length_append] at hn
  obtain ⟨n, rfl⟩ : ∃ m, n = m + 1 := ⟨n - 1, by omega⟩
  have hword : ∀ c ∈ name.toList, Text.isWord c = true :=
    fun c hc => word_part_word (hname.parts c hc)
  have hstop : ∀ d, (':' :: rest).head? = some d → Text.isWord d = false := by
    intro d hd
    cases hd
    rfl
  have hsome : name.toList.isEmpty = false := by simpa using hname.ne_empty
  have hcolon := operator_kept (c := ':') (by decide) h n (by omega)
  rw [Command.quoteOperators]
  simp only [take_while_all hword hstop, drop_while_all hword hstop, hsome, hcolon]
  simp

theorem operators_restyle :
    Restyles Command.quoteOperators shellStyle operatorStyle ShellText ShellKey where
  pad := ⟨rfl, rfl⟩
  plain hc h := operator_kept hc.operator h
  null _ h := operators_kept (by decide) h
  text hs h := by
    refine operators_kept ?_ h
    simpa [shellStyle, plainQuoted] using fun hc => hs _ hc (by simp)
  key hk h := by
    rcases hk with hk | ⟨name, rfl, hname⟩
    · have hbare : operatorStyle.key _ = _ := if_neg hk.plain
      have hplain : '$' ∉ String.toList _ := fun hc => absurd (hk.parts _ hc) (by decide)
      rw [hbare]
      exact operators_kept hplain (operator_kept (by decide) h)
    · simpa [shellStyle, operatorStyle, plainQuoted] using operator_quoted hname h

end Operators

section Names
variable {rest rest' : List Char}

/-- Behind a text without colons, blanks lead to a colon only if they do so in the rest. -/
theorem blanks_end {cs : List Char} (hcs : ':' ∉ cs) (h : NameEnds rest) :
    (Text.dropBlanks (cs ++ rest)).head? ≠ some ':' := by
  induction cs with
  | nil => exact h.colon
  | cons c cs ih =>
    rw [List.mem_cons, not_or] at hcs
    cases hblank : Text.isBlank c with
    | true => simpa [Text.dropBlanks, hblank] using ih hcs.2
    | false => simpa [Text.dropBlanks, hblank] using Ne.symm hcs.1

theorem words_end {cs : List Char} (hcs : ':' ∉ cs) (h : NameEnds rest) :
    (Text.dropBlanks ((cs ++ rest).dropWhile Text.isWord)).head? ≠ some ':' := by
  induction cs with
  | nil =>
    have hnone : rest.dropWhile Text.isWord = rest := @drop_while_all _ [] rest (by simp) h.word
    rw [List.nil_append, hnone]
    exact h.colon
  | cons c cs ih =>
    cases hword : Text.isWord c with
    | true => simpa [hword] using ih fun hc => hcs (List.mem_cons_of_mem c hc)
    | false =>
      have hstop : ((c :: cs) ++ rest).dropWhile Text.isWord = (c :: cs) ++ rest := by simp [hword]
      rw [hstop]
      exact blanks_end hcs h

/-- Where no colon follows, a character is left as it is. -/
theorem name_kept {c : Char} {cs ds : List Char}
    (hno : (Text.dropBlanks (cs.dropWhile Text.isWord)).head? ≠ some ':')
    (h : Turns Command.quoteNames cs ds) : Turns Command.quoteNames (c :: cs) (c :: ds) := by
  intro n hn
  rw [List.length_cons] at hn
  obtain ⟨n, rfl⟩ : ∃ m, n = m + 1 := ⟨n - 1, by omega⟩
  rw [Command.quoteNames, h n (by omega)]
  split
  · split
    · rename_i heq
      exact absurd (congrArg List.head? heq) hno
    · rfl
  · rfl

theorem no_name_kept {c : Char} (hc : Command.isAsciiNameStart c = false)
    (h : Turns Command.quoteNames rest rest') :
    Turns Command.quoteNames (c :: rest) (c :: rest') := by
  intro n hn
  rw [List.length_cons] at hn
  obtain ⟨n, rfl⟩ : ∃ m, n = m + 1 := ⟨n - 1, by omega⟩
  rw [Command.quoteNames, hc, h n (by omega)]
  rfl

theorem names_kept {cs : List Char} (hcs : ':' ∉ cs) (hends : NameEnds rest)
    (h : Turns Command.quoteNames rest rest') :
    Turns Command.quoteNames (cs ++ rest) (cs ++ rest') := by
  induction cs with
  | nil => exact h
  | cons c cs ih =>
    have hrest : ':' ∉ cs := fun hc => hcs (List.mem_cons_of_mem c hc)
    exact name_kept (words_end hrest hends) (ih hrest)

/-- Names inside quotes stay. -/
theorem quoted_kept {s : String} (hs : ':' ∉ s.toList) (h : Turns Command.quoteNames rest rest') :
    Turns Command.quoteNames (plainQuoted s ++ rest) (plainQuoted s ++ rest') := by
  have hends : NameEnds ('"' :: rest) := name_ends_char rfl rfl (by decide) rest
  have hbody := names_kept hs hends (no_name_kept (c := '"') rfl h)
  simpa [plainQuoted] using no_name_kept (c := '"') rfl hbody

theorem name_quoted {name : String} (hname : IsName name)
    (h : Turns Command.quoteNames rest rest') :
    Turns Command.quoteNames (name.toList ++ ':' :: rest) (plainQuoted name ++ ':' :: rest') := by
  intro n hn
  obtain ⟨c, cs, hcs, hstart, hparts⟩ := hname
  rw [hcs, List.cons_append, List.length_cons, List.length_append, List.length_cons] at hn
  obtain ⟨n, rfl⟩ : ∃ m, n = m + 1 := ⟨n - 1, by omega⟩
  have hword : ∀ d ∈ cs, Text.isWord d = true := fun d hd => word_part_word (hparts d hd)
  have hstop : ∀ d, (':' :: rest).head? = some d → Text.isWord d = false := by
    intro d hd
    cases hd
    rfl
  have hcolon : Text.dropBlanks (':' :: rest) = ':' :: rest := rfl
  have hc : Command.isAsciiNameStart c = true := hstart
  rw [plainQuoted, hcs, List.cons_append, Command.quoteNames]
  simp only [hc, take_while_all hword hstop, drop_while_all hword hstop, hcolon, h n (by omega)]
  simp

theorem names_restyle :
    Restyles Command.quoteNames operatorStyle quotedStyle ShellText ShellKey where
  pad := ⟨rfl, rfl⟩
  plain hc h := no_name_kept hc.name h
  null hends h := names_kept (by decide) hends h
  text hs h := quoted_kept (fun hc => hs _ hc (by simp)) h
  key hk h := by
    have hcolon := key_without hk (c := ':') rfl (by decide)
    rcases hk with hk | ⟨name, rfl, hname⟩
    · have hbare : operatorStyle.key _ = _ := if_neg hk.plain
      rw [hbare]
      exact name_quoted hk h
    · have hquoted : operatorStyle.key ("$" ++ name) = plainQuoted ("$" ++ name) :=
        if_pos (by simp)
      rw [hquoted]
      exact quoted_kept hcolon (no_name_kept (c := ':') rfl h)

end Names

/-- Single quotes become double ones. -/
def doubleQuotes (_ : Nat) (cs : List Char) : List Char :=
  cs.map (fun c => if c = '\'' then '"' else c)

theorem double_kept (cs : List Char) {rest rest' : List Char} (hcs : '\'' ∉ cs)
    (h : Turns doubleQuotes rest rest') : Turns doubleQuotes (cs ++ rest) (cs ++ rest') := by
  intro n hn
  have hsame : doubleQuotes n cs = cs := by
    refine (List.map_congr_left fun c hc => if_neg ?_).trans (List.map_id cs)
    rintro rfl
    exact hcs hc
  have hrest := h n (by rw [List.length_append] at hn; omega)
  have hall : doubleQuotes n (cs ++ rest) = doubleQuotes n cs ++ doubleQuotes n rest :=
    List.map_append
  rw [hall, hsame, hrest]

theorem double_restyle : Restyles doubleQuotes quotedStyle quotedStyle ShellText ShellKey where
  pad := ⟨rfl, rfl⟩
  plain {c _ _} hc h := double_kept [c] (by simpa using Ne.symm hc.quote) h
  null _ h := double_kept _ (by decide) h
  text {s _ _} hs h := by
    have hquote : '\'' ∉ s.toList := fun hc => hs _ hc (by simp)
    exact double_kept (plainQuoted s) (by simpa [plainQuoted] using hquote) h
  key {k _ _} hk h := by
    have hquote := key_without hk (c := '\'') rfl (by decide)
    exact double_kept (plainQuoted k) (by simpa [plainQuoted] using hquote)
      (double_kept [':'] (by decide) h)

theorem plain_encodes {cs : List Char} (h : ∀ c ∈ cs, c ≠ '"' ∧ c ≠ '\\' ∧ c ≠ '\n') :
    Encodes '"' cs cs := by
  constructor
  · intro rest
    induction cs with
    | nil => exact .close '"' rest
    | cons c cs ih =>
      obtain ⟨⟨hquote, hescape, hbreak⟩, hcs⟩ := List.forall_mem_cons.mp h
      exact .plain hquote hescape hbreak (ih hcs)
  · intro hstart
    exact (h '"' (List.mem_of_head? hstart)).1 rfl

theorem plain_quoted_form {s : String}
    (h : ∀ c ∈ ['"', '\\', '\n', '\r', '\x00'], c ∉ s.toList) : QuotedForm s (plainQuoted s) := by
  have hne : ∀ d ∈ ['"', '\\', '\n', '\r', '\x00'], ∀ c ∈ s.toList, c ≠ d := by
    rintro d hd c hc rfl
    exact h c hd hc
  constructor
  · refine ⟨'"', s.toList, .inr rfl, plain_encodes fun c hc => ?_, rfl⟩
    exact ⟨hne _ (by simp) c hc, hne _ (by simp) c hc, hne _ (by simp) c hc⟩
  · have hline : OnLine s.toList := fun c hc =>
      ⟨hne _ (by simp) c hc, hne _ (by simp) c hc, hne _ (by simp) c hc⟩
    simpa [plainQuoted] using hline

theorem quoted_style_quotes : quotedStyle.Quotes ShellText ShellKey where
  pad := by simp [quotedStyle]
  key k hk := by
    refine plain_quoted_form fun c hc => ?_
    simp only [List.mem_cons, List.not_mem_nil, or_false] at hc
    rcases hc with rfl | rfl | rfl | rfl | rfl <;> exact key_without hk rfl (by decide)
  text s hs := by
    refine plain_quoted_form fun c hc hmem => hs c hmem ?_
    simp only [List.mem_cons, List.not_mem_nil, or_false] at hc
    rcases hc with rfl | rfl | rfl | rfl | rfl <;> simp

theorem shell_writes :
    Writes shellStyle Command.shellText Command.shellItems Command.shellEntries where
  null := rfl
  int _ := rfl
  text s := ⟨"\"" ++ s ++ "\"", rfl, by simp [shellStyle, plainQuoted]⟩
  list {xs ts} h := by
    refine ⟨Value.commaList "[ " " ]" ts, by rw [Command.shellText, h]; rfl, ?_⟩
    simp [Value.commaList, shellStyle]
  dict {es ts} h := by
    refine ⟨Value.commaList "\x7b " " \x7d" ts, by rw [Command.shellText, h]; rfl, ?_⟩
    simp [Value.commaList, shellStyle]
  noItems := rfl
  item ht hts := by
    rw [Command.shellItems, ht, hts]
    rfl
  noEntries := rfl
  entry {k v es t ts} ht hts := by
    refine ⟨k ++ ": " ++ t, by rw [Command.shellEntries, ht, hts]; rfl, ?_⟩
    simp [shellStyle]

theorem trim_same {cs : List Char} (hfirst : ∀ c, cs.head? = some c → Text.isBlank c = false)
    (hlast : ∀ c, cs.getLast? = some c → Text.isBlank c = false) : Text.trim cs = cs := by
  have hstart : Text.dropBlanks cs = cs := @drop_while_all _ [] cs (by simp) hfirst
  have hend : Text.dropBlanks cs.reverse = cs.reverse := by
    refine @drop_while_all _ [] cs.reverse (by simp) fun c hc => hlast c ?_
    rwa [List.head?_reverse] at hc
  rw [Text.trim, hstart, hend, List.reverse_reverse]

theorem trim_between {c d : Char} (hc : Text.isBlank c = false) (hd : Text.isBlank d = false)
    (mid : List Char) : Text.trim (c :: (mid ++ [d])) = c :: (mid ++ [d]) := by
  apply trim_same
  · intro b hb
    cases hb
    exact hc
  · intro b hb
    rw [← List.cons_append, List.getLast?_concat] at hb
    cases hb
    exact hd

theorem trim_number (n : Int) :
    Text.trim (formOf shellStyle (.int n)) = formOf shellStyle (.int n) := by
  have hdigit : ∀ c ∈ Nat.toDigits 10 n.natAbs, Text.isBlank c = false := fun c hc =>
    (digit_cases (Nat.isDigit_of_mem_toDigits (by decide) (by decide) hc)).2
  have hall : ∀ c ∈ formOf shellStyle (.int n), Text.isBlank c = false := by
    rw [formOf]
    split
    · exact List.forall_mem_cons.mpr ⟨rfl, hdigit⟩
    · exact hdigit
  apply trim_same
  · exact fun c hc => hall c (List.mem_of_head? hc)
  · exact fun c hc => hall c (List.mem_of_getLast? hc)

/-- The form of a value has no blanks at its ends. -/
theorem form_ends {P K : String → Prop} {v : Value} (hv : Readable P K v) :
    formOf shellStyle v ≠ [] ∧ Text.trim (formOf shellStyle v) = formOf shellStyle v := by
  cases hv with
  | null => exact ⟨by simp [formOf], rfl⟩
  | @int n h =>
    refine ⟨?_, trim_number n⟩
    rw [formOf]
    split
    · simp
    · exact Nat.toDigits_ne_nil
  | @text s h => exact ⟨by simp [formOf, shellStyle, plainQuoted], trim_between rfl rfl s.toList⟩
  | @list xs h =>
    have hform : formOf shellStyle (.list xs) =
        '[' :: ((' ' :: (formItems shellStyle xs ++ [' '])) ++ [']']) := by
      simp [formOf, shellStyle]
    rw [hform]
    exact ⟨by simp, trim_between rfl rfl _⟩
  | @dict es hkeys hvalues hnodup =>
    have hform : formOf shellStyle (.dict es) =
        '\x7b' :: ((' ' :: (formEntries shellStyle es ++ [' '])) ++ ['\x7d']) := by
      simp [formOf, shellStyle]
    rw [hform]
    exact ⟨by simp, trim_between rfl rfl _⟩

/-- A document is read back from the form in which the shell shows it. -/
theorem shell_document_read {v : Value} (hv : Readable ShellText ShellKey v) :
    ∃ s, Command.shellText v = .ok s ∧ Command.readFilter s.toList = .ok v := by
  obtain ⟨s, hs, hform⟩ := shell_writes.form hv
  obtain ⟨hsome, htrim⟩ := form_ends hv
  have hempty : (formOf shellStyle v).isEmpty = false := by simpa using hsome
  have hquotes : (formOf quotedStyle v).map (fun c => if c = '\'' then '"' else c) =
      formOf quotedStyle v := pass_form double_restyle (fun _ => rfl) hv
  have hoperators := pass_form operators_restyle (fun n => by cases n <;> rfl) hv
  have hnames := pass_form names_restyle (fun n => by cases n <;> rfl) hv
  refine ⟨s, hs, ?_⟩
  rw [Command.readFilter, hform, htrim]
  simp only [hempty, hoperators, hnames, hquotes, Bool.false_eq_true, ↓reduceIte]
  exact read_form quoted_style_quotes hv

/-- A filter with nested operators, a list, a negative number and blanks in a text. -/
def nestedFilter : Value :=
  .doc [("$or", .list [.doc [("name", .text " a b ")], .doc [("age", .doc [("$gt", .int (-5))])]]),
    ("_id", .int 1)]

theorem shell_document_read_nested : Readable ShellText ShellKey nestedFilter ∧
    ∃ s, Command.shellText nestedFilter = .ok s ∧
      Command.readFilter s.toList = .ok nestedFilter := by
  have hone : ∀ {k v}, ShellKey k → Readable ShellText ShellKey v →
      Readable ShellText ShellKey (.doc [(k, v)]) :=
    fun hk hv => readable_doc (by simp) (by simpa using ⟨hk, hv⟩)
  have htext : ShellText " a b " := by simp [ShellText]
  have hname : Readable ShellText ShellKey (.doc [("name", .text " a b ")]) :=
    hone (.inl (name_of_chars rfl rfl)) (.text htext)
  have hgreater : Readable ShellText ShellKey (.doc [("$gt", .int (-5))]) :=
    hone (.inr ⟨"gt", rfl, name_of_chars rfl rfl⟩) (.int (by decide))
  have hage : Readable ShellText ShellKey (.doc [("age", .doc [("$gt", .int (-5))])]) :=
    hone (.inl (name_of_chars rfl rfl)) hgreater
  have hor := Readable.list (P := ShellText) (K := ShellKey)
    (List.forall_mem_cons.mpr ⟨hname, List.forall_mem_singleton.mpr hage⟩)
  have hv : Readable ShellText ShellKey nestedFilter := by
    refine readable_doc (by simp) (List.forall_mem_cons.mpr ⟨⟨?_, hor⟩, ?_⟩)
    · exact .inr ⟨"or", rfl, name_of_chars rfl rfl⟩
    · exact List.forall_mem_singleton.mpr ⟨.inl (name_of_chars rfl rfl), .int (by decide)⟩
  exact ⟨hv, shell_document_read hv⟩

end DocQuery.Proofs
