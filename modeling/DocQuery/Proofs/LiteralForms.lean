import DocQuery.Literal.Read
import DocQuery.Proofs.Pipelines
import DocQuery.Proofs.Rendering

namespace DocQuery.Proofs

open Literal (Tokens)

/-- The values whose literal forms can be read: a number is not too long, and the keys of a document
are different texts. `P` holds of the texts, and `K` of the keys. -/
inductive Readable (P K : String → Prop) : Value → Prop where
  | null : Readable P K .null
  | int {n : Int} (h : (Nat.toDigits 10 n.natAbs).length ≤ Text.maxDigits) : Readable P K (.int n)
  | text {s : String} (h : P s) : Readable P K (.text s)
  | list {xs : List Value} (h : ∀ x ∈ xs, Readable P K x) : Readable P K (.list xs)
  | dict {es : Entries} (hkeys : ∀ e ∈ es, ∃ k, e.1 = .text k ∧ K k)
      (hvalues : ∀ e ∈ es, Readable P K e.2) (hnodup : (es.map (·.1)).Nodup) :
      Readable P K (.dict es)

theorem readable_doc {P K : String → Prop} {fields : List (String × Value)}
    (hnodup : (fields.map (·.1)).Nodup) (h : ∀ f ∈ fields, K f.1 ∧ Readable P K f.2) :
    Readable P K (.doc fields) := by
  refine .dict (fun e he => ?_) (fun e he => ?_) ?_
  · obtain ⟨f, hf, rfl⟩ := List.mem_map.mp he
    exact ⟨f.1, rfl, (h f hf).1⟩
  · obtain ⟨f, hf, rfl⟩ := List.mem_map.mp he
    exact (h f hf).2
  · have hkeys : (fields.map fun f => (Value.text f.1, f.2)).map (·.1) =
        (fields.map (·.1)).map Value.text := by simp
    rw [hkeys]
    exact List.Pairwise.map _ (fun s t hne h => hne (Value.text.inj h)) hnodup

mutual
/-- The tokens of a literal form. -/
def tokensOf : Value → Tokens
  | .null => [.name "None"]
  | .int n => if n < 0 then [.mark "-", .number n.natAbs] else [.number n.natAbs]
  | .text s => [.text s]
  | .list xs => .mark "[" :: (itemTokens xs ++ [.mark "]"])
  | .dict es => .mark "\x7b" :: (entryTokens es ++ [.mark "\x7d"])
  | _ => []

def itemTokens : List Value → Tokens
  | [] => []
  | x :: xs => tokensOf x ++ if xs.isEmpty then [] else .mark "," :: itemTokens xs

def entryTokens : List (Value × Value) → Tokens
  | [] => []
  | (k, v) :: es =>
    tokensOf k ++ .mark ":" :: (tokensOf v ++
      if es.isEmpty then [] else .mark "," :: entryTokens es)
end

mutual
/-- The expression that a literal form is. -/
def termOf : Value → Literal.Term
  | .int n => if n < 0 then .signed (.int n) else .atom (.int n)
  | .list xs => .list (termsOf xs)
  | .dict es => .dict (entryTerms es)
  | v => .atom v

def termsOf : List Value → List Literal.Term
  | [] => []
  | x :: xs => termOf x :: termsOf xs

def entryTerms : List (Value × Value) → List (Literal.Term × Literal.Term)
  | [] => []
  | (k, v) :: es => (termOf k, termOf v) :: entryTerms es
end

theorem values_of_terms {xs : List Value} (h : ∀ x ∈ xs, (termOf x).value = .ok x) :
    Literal.Term.values (termsOf xs) = .ok xs := by
  induction xs with
  | nil => rfl
  | cons x xs ih =>
    obtain ⟨hx, hrest⟩ := List.forall_mem_cons.mp h
    rw [termsOf, Literal.Term.values, hx, ih hrest]
    rfl

/-- Entries with new keys are added one after the other. -/
theorem entries_of_terms {done es : Entries} (hkeys : ∀ e ∈ done ++ es, ∃ k, e.1 = .text k)
    (hvalues : ∀ e ∈ es, (termOf e.2).value = .ok e.2) (hnodup : ((done ++ es).map (·.1)).Nodup) :
    Literal.Term.entries done (entryTerms es) = .ok (done ++ es) := by
  induction es generalizing done with
  | nil => simp [entryTerms, Literal.Term.entries]
  | cons e es ih =>
    obtain ⟨k, hk⟩ := hkeys e (by simp)
    obtain ⟨hv, hvrest⟩ := List.forall_mem_cons.mp hvalues
    obtain ⟨key, v⟩ := e
    obtain rfl : key = .text k := hk
    have hnew : Entries.has done (.text k) = false := by
      refine List.any_eq_false.mpr fun d hd => ?_
      obtain ⟨j, hj⟩ := hkeys d (List.mem_append_left _ hd)
      rw [List.map_append, List.nodup_append] at hnodup
      have hne := hnodup.2.2 d.1 (List.mem_map_of_mem hd) (.text k) (by simp)
      rw [hj] at hne ⊢
      simpa using hne
    have hinsert : Value.insert done (.text k) v = .ok (done ++ [(.text k, v)]) := by
      simp [Value.insert, put_new hnew]
    have hkey : (termOf (.text k)).value = .ok (.text k) := rfl
    have hrest := @ih (done ++ [(.text k, v)]) (by simpa using hkeys) hvrest (by simpa using hnodup)
    rw [entryTerms, Literal.Term.entries, hkey, hv]
    simp only [ok_bind, hinsert, hrest, List.append_assoc, List.singleton_append]

theorem term_value {P K : String → Prop} {v : Value} (hv : Readable P K v) :
    (termOf v).value = .ok v := by
  induction hv with
  | null => rfl
  | @int n h =>
    rw [termOf]
    split <;> rfl
  | text h => rfl
  | list h ih =>
    rw [termOf, Literal.Term.value, values_of_terms ih]
    rfl
  | dict hkeys hvalues hnodup ih =>
    have hentries := @entries_of_terms [] _ (fun e he => (hkeys e he).imp fun _ h => h.1) ih hnodup
    rw [termOf, Literal.Term.value, hentries]
    rfl

/-- The rest of the tokens after a value starts with a mark that cannot continue it. -/
def Closes (rest : Tokens) : Prop :=
  ∃ m ts, rest = .mark m :: ts ∧ m ∈ [",", ":", "]", "\x7d", ""]

theorem closes_mark {m : String} (ts : Tokens) (h : m ∈ [",", ":", "]", "\x7d", ""]) :
    Closes (.mark m :: ts) := ⟨m, ts, rfl, h⟩

theorem no_trailers (n : Nat) (t : Literal.Term) {rest : Tokens} (h : Closes rest) :
    Literal.trailers (n + 1) t rest = some (t, rest) := by
  obtain ⟨m, ts, rfl, hm⟩ := h
  simp only [List.mem_cons, List.not_mem_nil, or_false] at hm
  rcases hm with rfl | rfl | rfl | rfl | rfl <;> rfl

theorem no_operators (n : Nat) (t : Literal.Term) {rest : Tokens} (h : Closes rest) :
    Literal.operators (n + 1) t rest = some (t, rest) := by
  obtain ⟨m, ts, rfl, hm⟩ := h
  simp only [List.mem_cons, List.not_mem_nil, or_false] at hm
  rcases hm with rfl | rfl | rfl | rfl | rfl <;> rfl

theorem no_more_texts (s : String) {rest : Tokens} (h : Closes rest) :
    Literal.joinTexts s rest = (s, rest) := by
  obtain ⟨m, ts, rfl, -⟩ := h
  rfl

/-- An expression is an operand, if no operator follows. -/
theorem expression_operand {n : Nat} {ts rest : Tokens} {t : Literal.Term}
    (h : Literal.operand (n + 1) ts = some (t, rest)) (hrest : Closes rest) :
    Literal.expression (n + 2) ts = some (t, rest) := by
  change (Literal.operand (n + 1) ts).bind _ = _
  rw [h]
  exact no_operators n t hrest

/-- The tokens with which an operand without a sign starts. -/
inductive StartsAtom : Tokens → Prop where
  | number (n : Nat) (ts : Tokens) : StartsAtom (.number n :: ts)
  | text (s : String) (ts : Tokens) : StartsAtom (.text s :: ts)
  | null (ts : Tokens) : StartsAtom (.name "None" :: ts)
  | list (ts : Tokens) : StartsAtom (.mark "[" :: ts)
  | dict (ts : Tokens) : StartsAtom (.mark "\x7b" :: ts)

/-- An operand without a sign is an atom, if nothing follows that belongs to it. -/
theorem operand_atom {n : Nat} {ts rest : Tokens} {t : Literal.Term} (hstart : StartsAtom ts)
    (h : Literal.atom (n + 1) ts = some (t, rest)) (hrest : Closes rest) :
    Literal.operand (n + 2) ts = some (t, rest) := by
  have hoperand : Literal.operand (n + 2) ts =
      (Literal.atom (n + 1) ts).bind fun p => Literal.trailers (n + 1) p.1 p.2 := by
    cases hstart <;> rfl
  rw [hoperand, h]
  exact no_trailers n t hrest

theorem expression_atom {n : Nat} {ts rest : Tokens} {t : Literal.Term} (hstart : StartsAtom ts)
    (h : Literal.atom (n + 1) ts = some (t, rest)) (hrest : Closes rest) :
    Literal.expression (n + 3) ts = some (t, rest) :=
  expression_operand (operand_atom hstart h hrest) hrest

/-- A negative number is a number with a sign. -/
theorem expression_negative (n k : Nat) {rest : Tokens} (hrest : Closes rest) :
    Literal.expression (n + 4) (.mark "-" :: .number k :: rest) =
      some (.signed (.int (-k)), rest) := by
  apply expression_operand _ hrest
  change (Literal.operand (n + 2) (.number k :: rest)).bind _ = _
  rw [operand_atom (.number k rest) rfl hrest]
  rfl

/-- A value is read as its expression, with enough fuel and nothing after it that belongs to it. -/
def ReadAsTerm (v : Value) : Prop :=
  ∀ n rest, 4 * (tokensOf v).length ≤ n → Closes rest →
    Literal.expression n (tokensOf v ++ rest) = some (termOf v, rest)

/-- The tokens of a value start with one that closes nothing. -/
theorem tokens_start {P K : String → Prop} {v : Value} (hv : Readable P K v) :
    ∃ t ts, tokensOf v = t :: ts ∧ t ≠ .mark "]" ∧ t ≠ .mark "" := by
  cases hv with
  | @int n _ =>
    rw [tokensOf]
    split
    · exact ⟨_, _, rfl, by simp, by simp⟩
    · exact ⟨_, _, rfl, by simp, by simp⟩
  | _ => exact ⟨_, _, rfl, by simp, by simp⟩

theorem items_open {close : String} {t : Literal.Token} (n : Nat) (ts : Tokens)
    (h : t ≠ .mark close) :
    Literal.items (n + 1) close (t :: ts) = Literal.itemsFrom n close (t :: ts) := by
  cases t with
  | mark m =>
    have hne : m ≠ close := fun he => h (congrArg Literal.Token.mark he)
    simp [Literal.items, hne]
  | _ => rfl

theorem items_comma {n : Nat} {close : String} {ts rest : Tokens} {t : Literal.Term}
    (h : Literal.expression n ts = some (t, .mark "," :: rest)) :
    Literal.itemsFrom (n + 1) close ts =
      (Literal.items n close rest).bind fun p => some (t :: p.1, true, p.2.2) := by
  change (Literal.expression n ts).bind _ = _
  rw [h]
  rfl

theorem items_last {n : Nat} {close : String} {ts rest : Tokens} {t : Literal.Term}
    (hclose : close = "]" ∨ close = "")
    (h : Literal.expression n ts = some (t, .mark close :: rest)) :
    Literal.itemsFrom (n + 1) close ts = some ([t], false, rest) := by
  change (Literal.expression n ts).bind _ = _
  rw [h]
  rcases hclose with rfl | rfl <;> rfl

/-- The items of a list are read up to its closing mark. -/
theorem items_of_list {P K : String → Prop} {xs : List Value} (hxs : ∀ x ∈ xs, Readable P K x)
    (hread : ∀ x ∈ xs, ReadAsTerm x) {n : Nat} (hn : 4 * (itemTokens xs).length + 2 ≤ n)
    (rest : Tokens) :
    ∃ comma, Literal.items n "]" (itemTokens xs ++ .mark "]" :: rest) =
      some (termsOf xs, comma, rest) := by
  induction xs generalizing n with
  | nil =>
    obtain ⟨n, rfl⟩ : ∃ m, n = m + 1 := ⟨n - 1, by omega⟩
    exact ⟨false, rfl⟩
  | cons x xs ih =>
    obtain ⟨hx, hrest⟩ := List.forall_mem_cons.mp hxs
    obtain ⟨hxread, hread⟩ := List.forall_mem_cons.mp hread
    obtain ⟨n, rfl⟩ : ∃ m, n = m + 2 := ⟨n - 2, by omega⟩
    obtain ⟨t, ts, hstart, hopen, -⟩ := tokens_start hx
    rw [itemTokens, List.length_append] at hn
    have hitems : ∀ more, Literal.items (n + 2) "]" (tokensOf x ++ more) =
        Literal.itemsFrom (n + 1) "]" (tokensOf x ++ more) := by
      intro more
      rw [hstart]
      exact items_open (n + 1) (ts ++ more) hopen
    rw [itemTokens, List.append_assoc, hitems]
    cases hmore : xs.isEmpty with
    | true =>
      obtain rfl : xs = [] := List.isEmpty_iff.mp hmore
      have hlast := hxread n (.mark "]" :: rest) (by omega) (closes_mark rest (by simp))
      exact ⟨false, items_last (.inl rfl) hlast⟩
    | false =>
      simp only [hmore, Bool.false_eq_true, ↓reduceIte, List.length_cons, List.cons_append] at hn ⊢
      have hfirst := hxread n (.mark "," :: (itemTokens xs ++ .mark "]" :: rest)) (by omega)
        (closes_mark _ (by simp))
      obtain ⟨comma, hitems⟩ := ih hrest hread (n := n) (by omega)
      refine ⟨true, ?_⟩
      rw [items_comma hfirst, hitems]
      rfl

theorem entries_next {n : Nat} {ts ts' : Tokens} {k v : Literal.Term} {s : String}
    {rest : Tokens} (hk : Literal.expression n ts = some (k, .mark ":" :: ts'))
    (hv : Literal.expression n ts' = some (v, .mark "," :: .text s :: rest)) :
    Literal.entryList (n + 1) ts =
      (Literal.entryList n (.text s :: rest)).bind fun p => some ((k, v) :: p.1, p.2) := by
  change (Literal.expression n ts).bind _ = _
  rw [hk]
  change (Literal.expression n ts').bind _ = _
  rw [hv]
  rfl

theorem entries_last {n : Nat} {ts ts' rest : Tokens} {k v : Literal.Term}
    (hk : Literal.expression n ts = some (k, .mark ":" :: ts'))
    (hv : Literal.expression n ts' = some (v, .mark "\x7d" :: rest)) :
    Literal.entryList (n + 1) ts = some ([(k, v)], rest) := by
  change (Literal.expression n ts).bind _ = _
  rw [hk]
  change (Literal.expression n ts').bind _ = _
  rw [hv]
  rfl

theorem text_read (s : String) : ReadAsTerm (.text s) := by
  intro n rest hn hrest
  obtain ⟨n, rfl⟩ : ∃ m, n = m + 3 := ⟨n - 3, by rw [tokensOf, List.length_singleton] at hn; omega⟩
  apply expression_atom (.text s rest) _ hrest
  change some (Literal.Term.atom (.text (Literal.joinTexts s rest).1), _) = _
  rw [no_more_texts s hrest]
  rfl

/-- The entries of a document are read up to its closing mark. -/
theorem entries_of_dict {es : Entries} (hne : es ≠ []) (hkeys : ∀ e ∈ es, ∃ k, e.1 = .text k)
    (hread : ∀ e ∈ es, ReadAsTerm e.2) {n : Nat} (hn : 4 * (entryTokens es).length ≤ n)
    (rest : Tokens) :
    Literal.entryList n (entryTokens es ++ .mark "\x7d" :: rest) = some (entryTerms es, rest) := by
  induction es generalizing n with
  | nil => exact absurd rfl hne
  | cons e es ih =>
    obtain ⟨k, v⟩ := e
    obtain ⟨⟨s, hs⟩, hmorekeys⟩ := List.forall_mem_cons.mp hkeys
    obtain ⟨hv, hmoreread⟩ := List.forall_mem_cons.mp hread
    obtain rfl : k = .text s := hs
    replace hv : ReadAsTerm v := hv
    simp only [entryTokens, List.length_append, List.length_cons] at hn
    have hkey : (tokensOf (.text s)).length = 1 := rfl
    obtain ⟨n, rfl⟩ : ∃ m, n = m + 1 := ⟨n - 1, by omega⟩
    simp only [entryTokens, List.append_assoc, List.cons_append]
    have hk := fun more => text_read s n (.mark ":" :: more) (by omega) (closes_mark more (by simp))
    cases es with
    | nil =>
      have hlast := hv n (.mark "\x7d" :: rest) (by omega) (closes_mark rest (by simp))
      exact entries_last (hk _) hlast
    | cons e es =>
      obtain ⟨k', v'⟩ := e
      obtain ⟨⟨s', hs'⟩, -⟩ := List.forall_mem_cons.mp hmorekeys
      obtain rfl : k' = .text s' := hs'
      simp only [List.isEmpty_cons, Bool.false_eq_true, ↓reduceIte, List.length_cons] at hn
      have hfirst := hv n (.mark "," :: (entryTokens ((.text s', v') :: es) ++
        .mark "\x7d" :: rest)) (by omega) (closes_mark _ (by simp))
      have hmore := ih (by simp) hmorekeys hmoreread (n := n) (by omega)
      refine (entries_next (hk _) hfirst).trans ?_
      change (Literal.entryList n (entryTokens ((.text s', v') :: es) ++ .mark "\x7d" :: rest)).bind
        _ = _
      rw [hmore]
      rfl

/-- A brace with an entry behind it starts a document. -/
theorem dict_atom {n : Nat} {s : String} {ts more rest : Tokens} {k : Literal.Term}
    {es : List (Literal.Term × Literal.Term)}
    (hk : Literal.expression n (.text s :: ts) = some (k, .mark ":" :: more))
    (hes : Literal.entryList n (.text s :: ts) = some (es, rest)) :
    Literal.atom (n + 1) (.mark "\x7b" :: .text s :: ts) = some (.dict es, rest) := by
  change (Literal.expression n (.text s :: ts)).bind _ = _
  rw [hk]
  change (Literal.entryList n (.text s :: ts)).bind _ = _
  rw [hes]
  rfl

/-- Every value that can be read is read as its expression. -/
theorem readable_term {P K : String → Prop} {v : Value} (hv : Readable P K v) : ReadAsTerm v := by
  induction hv with
  | null =>
    intro n rest hn hrest
    obtain ⟨n, rfl⟩ : ∃ m, n = m + 3 :=
      ⟨n - 3, by rw [tokensOf, List.length_singleton] at hn; omega⟩
    exact expression_atom (.null rest) rfl hrest
  | @int i h =>
    intro n rest hn hrest
    by_cases hneg : i < 0
    · simp only [tokensOf, termOf, hneg, ↓reduceIte, List.length_cons] at hn ⊢
      obtain ⟨n, rfl⟩ : ∃ m, n = m + 4 := ⟨n - 4, by omega⟩
      have hi : -(i.natAbs : Int) = i := by omega
      have hnegative := expression_negative n i.natAbs hrest
      rwa [hi] at hnegative
    · simp only [tokensOf, termOf, hneg, ↓reduceIte, List.length_cons] at hn ⊢
      obtain ⟨n, rfl⟩ : ∃ m, n = m + 3 := ⟨n - 3, by omega⟩
      have hi : (i.natAbs : Int) = i := by omega
      have hnumber := expression_atom (n := n) (.number i.natAbs rest) rfl hrest
      rwa [hi] at hnumber
  | text h => exact text_read _
  | @list xs h ih =>
    intro n rest hn hrest
    rw [tokensOf, List.length_cons, List.length_append, List.length_singleton] at hn
    obtain ⟨n, rfl⟩ : ∃ m, n = m + 3 := ⟨n - 3, by omega⟩
    obtain ⟨comma, hitems⟩ := items_of_list h ih (n := n) (by omega) rest
    simp only [tokensOf, termOf, List.cons_append, List.append_assoc, List.nil_append]
    apply expression_atom (.list _) _ hrest
    change (Literal.items n "]" _).bind _ = _
    rw [hitems]
    rfl
  | @dict es hkeys hvalues hnodup ih =>
    intro n rest hn hrest
    rw [tokensOf, List.length_cons, List.length_append, List.length_singleton] at hn
    obtain ⟨n, rfl⟩ : ∃ m, n = m + 3 := ⟨n - 3, by omega⟩
    simp only [tokensOf, termOf, List.cons_append, List.append_assoc, List.nil_append]
    apply expression_atom (.dict _) _ hrest
    cases es with
    | nil => rfl
    | cons e es =>
      have hentries := entries_of_dict (by simp) (fun e he => (hkeys e he).imp fun _ h => h.1) ih
        (n := n) (by omega) rest
      obtain ⟨k, v⟩ := e
      obtain ⟨s, hs, -⟩ := hkeys (k, v) List.mem_cons_self
      obtain rfl : k = .text s := hs
      have hkey := fun more => text_read s n (.mark ":" :: more)
        (by simp [entryTokens, tokensOf] at hn ⊢; omega) (closes_mark more (by simp))
      exact dict_atom (hkey _) hentries

theorem tokens_end {P K : String → Prop} {v : Value} (hv : Readable P K v) :
    ∃ ts t, tokensOf v = ts ++ [t] ∧ t ≠ .lineEnd := by
  cases hv with
  | @int n _ =>
    rw [tokensOf]
    split
    · exact ⟨[_], _, rfl, by simp⟩
    · exact ⟨[], _, rfl, by simp⟩
  | list => exact ⟨_ :: _, _, rfl, by simp⟩
  | dict => exact ⟨_ :: _, _, rfl, by simp⟩
  | _ => exact ⟨[], _, rfl, by simp⟩

theorem keeps_last_token {P K : String → Prop} {v : Value} (hv : Readable P K v) :
    Literal.dropLineEnds (tokensOf v) = tokensOf v := by
  obtain ⟨ts, t, hts, ht⟩ := tokens_end hv
  simp [Literal.dropLineEnds, hts, ht]

theorem top_level_read {P K : String → Prop} {v : Value} (hv : Readable P K v) :
    Literal.topLevel (12 * (tokensOf v).length + 24) (tokensOf v) = some (termOf v) := by
  obtain ⟨t, ts, hstart, -, hopen⟩ := tokens_start hv
  have hterm := readable_term hv (12 * (tokensOf v).length + 22) [.mark ""] (by omega)
    (closes_mark [] (by simp))
  have hitems : Literal.items (12 * (tokensOf v).length + 24) "" (tokensOf v ++ [.mark ""]) =
      some ([termOf v], false, []) := by
    rw [← items_last (.inr rfl) hterm, hstart]
    exact items_open _ _ hopen
  rw [Literal.topLevel, hitems]

/-- The tokens of a text, in brackets or not. -/
def Tokenizes (cs : List Char) (ts : Tokens) : Prop :=
  ∀ n depth, cs.length ≤ n → Literal.tokens n depth cs = some ts

theorem tokenizes_nil : Tokenizes [] [] := by
  intro n depth _
  cases n <;> rfl

theorem Tokenizes.blanks {pad cs : List Char} {ts : Tokens} (hpad : ∀ c ∈ pad, c = ' ')
    (h : Tokenizes cs ts) : Tokenizes (pad ++ cs) ts := by
  induction pad with
  | nil => exact h
  | cons c pad ih =>
    obtain ⟨rfl, hrest⟩ := List.forall_mem_cons.mp hpad
    intro n depth hn
    rw [List.cons_append, List.length_cons] at hn
    obtain ⟨n, rfl⟩ : ∃ m, n = m + 1 := ⟨n - 1, by omega⟩
    exact ih hrest n depth (by omega)

theorem Tokenizes.blank {cs : List Char} {ts : Tokens} (h : Tokenizes cs ts) :
    Tokenizes (' ' :: cs) ts := @Tokenizes.blanks [' '] cs ts (by simp) h

theorem Tokenizes.mark {cs : List Char} {ts : Tokens} {c : Char} (h : Tokenizes cs ts)
    (hc : c ∈ ['[', ']', '\x7b', '\x7d', ',', ':', '-']) :
    Tokenizes (c :: cs) (.mark (String.singleton c) :: ts) := by
  intro n depth hn
  rw [List.length_cons] at hn
  obtain ⟨n, rfl⟩ : ∃ m, n = m + 1 := ⟨n - 1, by omega⟩
  obtain ⟨d, hmark⟩ : ∃ d, Literal.tokens (n + 1) depth (c :: cs) =
      (Literal.tokens n d cs).bind fun ts => some (.mark (String.singleton c) :: ts) := by
    simp only [List.mem_cons, List.not_mem_nil, or_false] at hc
    rcases hc with rfl | rfl | rfl | rfl | rfl | rfl | rfl <;> exact ⟨_, rfl⟩
  rw [hmark, h n d (by omega)]
  rfl

/-- What may follow a value in a literal form. -/
def FollowsValue (rest : List Char) : Prop :=
  ∀ c, rest.head? = some c → c ∈ [',', ':', ']', '\x7d', ' ']

theorem follows_other {rest : List Char} (h : FollowsValue rest) :
    ∀ c, rest.head? = some c →
      Text.isWord c = false ∧ Literal.isDecimal c = false ∧ c ≠ '.' ∧ c ≠ '\'' ∧ c ≠ '"' := by
  intro c hc
  have := h c hc
  simp only [List.mem_cons, List.not_mem_nil, or_false] at this
  rcases this with rfl | rfl | rfl | rfl | rfl <;> decide

theorem drop_while_all {p : Char → Bool} {cs rest : List Char} (hcs : ∀ d ∈ cs, p d = true)
    (hrest : ∀ d, rest.head? = some d → p d = false) : (cs ++ rest).dropWhile p = rest := by
  rw [List.dropWhile_append_of_pos hcs]
  cases rest with
  | nil => rfl
  | cons d rest => simp [hrest d rfl]

theorem Tokenizes.null {rest : List Char} {ts : Tokens} (h : Tokenizes rest ts)
    (hrest : FollowsValue rest) : Tokenizes ("None".toList ++ rest) (.name "None" :: ts) := by
  intro n depth hn
  rw [List.length_append] at hn
  have hlength : "None".toList.length = 4 := rfl
  obtain ⟨n, rfl⟩ : ∃ m, n = m + 1 := ⟨n - 1, by omega⟩
  have hword : ∀ c ∈ "one".toList, Text.isWord c = true := List.all_eq_true.mp rfl
  have hends := fun c hc => (follows_other hrest c hc).1
  have hname : Literal.tokens (n + 1) depth ("None".toList ++ rest) =
      (Literal.tokens n depth (("one".toList ++ rest).dropWhile Text.isWord)).bind fun ts =>
        some (.name (String.ofList ('N' :: ("one".toList ++ rest).takeWhile Text.isWord)) :: ts) :=
    rfl
  rw [hname, take_while_all hword hends, drop_while_all hword hends, h n depth (by omega)]
  rfl

theorem decimal_digit {c : Char} (h : c.isDigit = true) : Literal.isDecimal c = true := by
  obtain ⟨hlow, hhigh⟩ : 48 ≤ c.toNat ∧ c.toNat ≤ 57 := Char.isDigit_iff_toNat.mp h
  simp only [Literal.isDecimal, Bool.and_eq_true, decide_eq_true_eq]
  exact ⟨hlow, hhigh⟩

theorem toDigits_decimal (n : Nat) : ∀ c ∈ Nat.toDigits 10 n, Literal.isDecimal c = true :=
  fun _ hc => decimal_digit (Nat.isDigit_of_mem_toDigits (by decide) (by decide) hc)

/-- A number other than zero is written without a zero in front. -/
theorem digits_head {n : Nat} (h : 0 < n) : (Nat.toDigits 10 n).head? ≠ some '0' := by
  induction n using Nat.strongRecOn with
  | ind n ih =>
    by_cases hsmall : n < 10
    · rw [Nat.toDigits_of_lt_base hsmall, List.head?_cons]
      intro hzero
      have := Nat.digitChar_eq_zero.mp (Option.some.inj hzero)
      omega
    · rw [Nat.toDigits_of_base_le (by decide) (by omega),
        List.head?_append_of_ne_nil _ Nat.toDigits_ne_nil]
      exact ih (n / 10) (by omega) (by omega)

theorem no_leading_zeros (n : Nat) : ¬((Nat.toDigits 10 n).head? = some '0' ∧
    (Nat.toDigits 10 n).any (· != '0') = true) := by
  rintro ⟨hhead, hany⟩
  cases n with
  | zero => exact absurd hany (by decide)
  | succ n => exact digits_head (Nat.succ_pos n) hhead

theorem number_read {n : Nat} {rest : List Char}
    (hn : (Nat.toDigits 10 n).length ≤ Text.maxDigits) (hrest : FollowsValue rest) :
    Literal.number? (Nat.toDigits 10 n ++ rest) = some (.number n, rest) := by
  have hends := fun c hc => (follows_other hrest c hc).2.1
  unfold Literal.number?
  rw [take_while_all (toDigits_decimal n) hends, drop_while_all (toDigits_decimal n) hends]
  dsimp only
  rw [if_neg (Nat.not_lt.mpr hn), if_neg (no_leading_zeros n), numeral_digits]
  cases rest with
  | nil => rfl
  | cons d rest =>
    obtain ⟨hword, -, hdot, -⟩ := follows_other hrest d rfl
    split
    · rename_i heq
      cases heq
      exact absurd rfl hdot
    · simp [hword]

theorem Tokenizes.number {n : Nat} {rest : List Char} {ts : Tokens}
    (hn : (Nat.toDigits 10 n).length ≤ Text.maxDigits) (hrest : FollowsValue rest)
    (h : Tokenizes rest ts) : Tokenizes (Nat.toDigits 10 n ++ rest) (.number n :: ts) := by
  intro m depth hm
  have hread := number_read hn hrest
  have hdigits : ∀ c ∈ Nat.toDigits 10 n, c.isDigit = true :=
    fun c hc => Nat.isDigit_of_mem_toDigits (by decide) (by decide) hc
  cases hcs : Nat.toDigits 10 n with
  | nil => exact absurd hcs Nat.toDigits_ne_nil
  | cons c cs =>
    rw [hcs] at hread hm hdigits
    obtain ⟨m, rfl⟩ : ∃ k, m = k + 1 := ⟨m - 1, by simp at hm; omega⟩
    have hc := hdigits c List.mem_cons_self
    have hother : ∀ d : Char, d.isDigit = false → c ≠ d := by
      rintro d hd rfl
      rw [hc] at hd
      cases hd
    have htail := h m depth (by simp at hm; omega)
    simp only [List.cons_append] at hread ⊢
    simp only [Literal.tokens, hother ' ' rfl, hother '\t' rfl, hother '\x0c' rfl, hother '\n' rfl,
      hother '#' rfl, hother '\\' rfl, hother '\'' rfl, hother '"' rfl, decimal_digit hc, hread,
      htail, or_false, if_false, if_true, Option.bind_eq_bind, Option.bind_some]
    rfl

/-- A text after its opening quote, up to the closing one. -/
def Unquotes (q : Char) (cs s rest : List Char) : Prop :=
  ∀ n, cs.length < n → Literal.quoted [q] n cs = some (s, rest)

section Quoted
variable {q c : Char} {cs s rest : List Char}

theorem Unquotes.close (q : Char) (rest : List Char) : Unquotes q (q :: rest) [] rest := by
  intro n hn
  obtain ⟨n, rfl⟩ : ∃ m, n = m + 1 := ⟨n - 1, by omega⟩
  simp [Literal.quoted]

theorem Unquotes.plain (hq : c ≠ q) (hescape : c ≠ '\\') (hbreak : c ≠ '\n')
    (h : Unquotes q cs s rest) : Unquotes q (c :: cs) (c :: s) rest := by
  intro n hn
  rw [List.length_cons] at hn
  obtain ⟨n, rfl⟩ : ∃ m, n = m + 1 := ⟨n - 1, by omega⟩
  simp [Literal.quoted, List.isPrefixOf, hq.symm, hescape, hbreak, h n (by omega)]

theorem Unquotes.escape {e : List Char} (hq : q ≠ '\\')
    (hescape : Literal.escape? (e ++ cs) = some ([c], cs)) (h : Unquotes q cs s rest) :
    Unquotes q ('\\' :: (e ++ cs)) (c :: s) rest := by
  intro n hn
  rw [List.length_cons, List.length_append] at hn
  obtain ⟨n, rfl⟩ : ∃ m, n = m + 1 := ⟨n - 1, by omega⟩
  simp [Literal.quoted, hq, hescape, h n (by omega)]

end Quoted

/-- What stands between quotes for a text. -/
structure Encodes (q : Char) (body s : List Char) : Prop where
  unquotes : ∀ rest, Unquotes q (body ++ q :: rest) s rest
  starts : body.head? ≠ some q

theorem Tokenizes.quoted {q : Char} {body s rest : List Char} {ts : Tokens}
    (hq : q = '\'' ∨ q = '"') (hbody : Encodes q body s) (hrest : FollowsValue rest)
    (h : Tokenizes rest ts) :
    Tokenizes (q :: (body ++ q :: rest)) (.text (String.ofList s) :: ts) := by
  intro n depth hn
  rw [List.length_cons, List.length_append, List.length_cons] at hn
  obtain ⟨n, rfl⟩ : ∃ m, n = m + 1 := ⟨n - 1, by omega⟩
  have hsingle : [q, q].isPrefixOf (body ++ q :: rest) = false := by
    cases body with
    | cons c body =>
      have hc : q ≠ c := fun he => hbody.starts (by rw [he]; rfl)
      simp [List.isPrefixOf, hc]
    | nil =>
      cases rest with
      | nil => simp
      | cons d rest =>
        obtain ⟨-, -, -, hsingle, hdouble⟩ := follows_other hrest d rfl
        have hd : q ≠ d := by
          rcases hq with rfl | rfl
          · exact hsingle.symm
          · exact hdouble.symm
        simp [List.isPrefixOf, hd]
  have hquoted : Literal.quotedAt q (body ++ q :: rest) = some (s, rest) := by
    rw [Literal.quotedAt, hsingle]
    exact hbody.unquotes rest _ (Nat.lt_succ_self _)
  have htail := h n depth (by omega)
  have htokens : Literal.tokens (n + 1) depth (q :: (body ++ q :: rest)) =
      (Literal.quotedAt q (body ++ q :: rest)).bind fun p =>
        (Literal.tokens n depth p.2).bind fun ts => some (.text (String.ofList p.1) :: ts) := by
    rcases hq with rfl | rfl <;> rfl
  rw [htokens, hquoted, Option.bind_some, htail]
  rfl

/-- How values are written: the blanks inside of brackets, and the forms of keys and texts. -/
structure LiteralStyle where
  pad : List Char
  key : String → List Char
  text : String → List Char

mutual
/-- The form of a value in a style. -/
def formOf (st : LiteralStyle) : Value → List Char
  | .null => "None".toList
  | .int n => if n < 0 then '-' :: Nat.toDigits 10 n.natAbs else Nat.toDigits 10 n.natAbs
  | .text s => st.text s
  | .list xs => '[' :: (st.pad ++ (formItems st xs ++ (st.pad ++ [']'])))
  | .dict es => '\x7b' :: (st.pad ++ (formEntries st es ++ (st.pad ++ ['\x7d'])))
  | _ => []

def formItems (st : LiteralStyle) : List Value → List Char
  | [] => []
  | x :: xs => formOf st x ++ if xs.isEmpty then [] else ',' :: ' ' :: formItems st xs

def formEntries (st : LiteralStyle) : List (Value × Value) → List Char
  | [] => []
  | (.text k, v) :: es =>
    st.key k ++ ':' :: ' ' :: (formOf st v ++
      if es.isEmpty then [] else ',' :: ' ' :: formEntries st es)
  | _ :: _ => []
end

/-- A text without line breaks and zeros, which end a line or the whole text. -/
def OnLine (cs : List Char) : Prop := ∀ c ∈ cs, c ≠ '\n' ∧ c ≠ '\r' ∧ c ≠ '\x00'

@[simp] theorem on_line_nil : OnLine [] := by simp [OnLine]

@[simp] theorem on_line_cons {c : Char} {cs : List Char} :
    OnLine (c :: cs) ↔ (c ≠ '\n' ∧ c ≠ '\r' ∧ c ≠ '\x00') ∧ OnLine cs := List.forall_mem_cons

@[simp] theorem on_line_append {cs ds : List Char} :
    OnLine (cs ++ ds) ↔ OnLine cs ∧ OnLine ds := List.forall_mem_append

/-- A text between quotes, without line breaks. -/
structure QuotedForm (s : String) (cs : List Char) : Prop where
  form : ∃ q body, (q = '\'' ∨ q = '"') ∧ Encodes q body s.toList ∧ cs = q :: (body ++ [q])
  line : OnLine cs

/-- In a style, texts with `P` and keys with `K` are quoted. -/
structure LiteralStyle.Quotes (st : LiteralStyle) (P K : String → Prop) : Prop where
  pad : ∀ c ∈ st.pad, c = ' '
  key : ∀ s, K s → QuotedForm s (st.key s)
  text : ∀ s, P s → QuotedForm s (st.text s)

theorem follows_pad {pad rest : List Char} (hpad : ∀ c ∈ pad, c = ' ') (h : FollowsValue rest) :
    FollowsValue (pad ++ rest) := by
  cases pad with
  | nil => exact h
  | cons c pad =>
    obtain ⟨rfl, -⟩ := List.forall_mem_cons.mp hpad
    intro d hd
    cases hd
    simp

theorem follows_char {c : Char} (rest : List Char) (h : c ∈ [',', ':', ']', '\x7d', ' ']) :
    FollowsValue (c :: rest) := by
  intro d hd
  cases hd
  exact h

theorem Tokenizes.text {s : String} {cs rest : List Char} {ts : Tokens} (hs : QuotedForm s cs)
    (hrest : FollowsValue rest) (h : Tokenizes rest ts) :
    Tokenizes (cs ++ rest) (.text s :: ts) := by
  obtain ⟨q, body, hq, hbody, rfl⟩ := hs.form
  simpa using Tokenizes.quoted hq hbody hrest h

section Forms
variable {P K : String → Prop} {st : LiteralStyle}

/-- The form of a value has its tokens. -/
def FormTokens (st : LiteralStyle) (v : Value) : Prop :=
  ∀ rest ts, FollowsValue rest → Tokenizes rest ts →
    Tokenizes (formOf st v ++ rest) (tokensOf v ++ ts)

theorem items_tokens {xs : List Value} (h : ∀ x ∈ xs, FormTokens st x) {rest : List Char}
    {ts : Tokens} (hrest : FollowsValue rest) (hts : Tokenizes rest ts) :
    Tokenizes (formItems st xs ++ rest) (itemTokens xs ++ ts) := by
  induction xs with
  | nil => exact hts
  | cons x xs ih =>
    obtain ⟨hx, hmore⟩ := List.forall_mem_cons.mp h
    rw [formItems, itemTokens, List.append_assoc, List.append_assoc]
    cases hempty : xs.isEmpty with
    | true => exact hx rest ts hrest hts
    | false =>
      have hnext := (ih hmore).blank.mark (c := ',') (by simp)
      exact hx _ _ (follows_char _ (by simp)) hnext

theorem entries_tokens (hst : st.Quotes P K) {es : Entries}
    (hkeys : ∀ e ∈ es, ∃ k, e.1 = .text k ∧ K k) (h : ∀ e ∈ es, FormTokens st e.2)
    {rest : List Char} {ts : Tokens} (hrest : FollowsValue rest) (hts : Tokenizes rest ts) :
    Tokenizes (formEntries st es ++ rest) (entryTokens es ++ ts) := by
  induction es with
  | nil => exact hts
  | cons e es ih =>
    obtain ⟨key, v⟩ := e
    obtain ⟨⟨k, hkey, hk⟩, hmorekeys⟩ := List.forall_mem_cons.mp hkeys
    obtain ⟨hv, hmore⟩ := List.forall_mem_cons.mp h
    obtain rfl : key = .text k := hkey
    replace hv : FormTokens st v := hv
    have hvalue : Tokenizes (formOf st v ++ ((if es.isEmpty then [] else
        ',' :: ' ' :: formEntries st es) ++ rest)) (tokensOf v ++ ((if es.isEmpty then [] else
        .mark "," :: entryTokens es) ++ ts)) := by
      cases hempty : es.isEmpty with
      | true => exact hv rest ts hrest hts
      | false =>
        have hnext := (ih hmorekeys hmore).blank.mark (c := ',') (by simp)
        exact hv _ _ (follows_char _ (by simp)) hnext
    have hcolon := hvalue.blank.mark (c := ':') (by simp)
    have hentry := Tokenizes.text (hst.key k hk) (follows_char _ (by simp)) hcolon
    simpa [formEntries, entryTokens, tokensOf] using hentry

/-- The tokens of the form of a value are those of the value. -/
theorem form_tokens (hst : st.Quotes P K) {v : Value} (hv : Readable P K v) : FormTokens st v := by
  induction hv with
  | null => exact fun rest ts hrest h => h.null hrest
  | @int i hi =>
    intro rest ts hrest h
    have hnumber := Tokenizes.number hi hrest h
    rw [formOf, tokensOf]
    split
    · exact hnumber.mark (c := '-') (by simp)
    · exact hnumber
  | text hs => exact fun rest ts hrest h => Tokenizes.text (hst.text _ hs) hrest h
  | @list xs _ ih =>
    intro rest ts hrest h
    have hclose := (h.mark (c := ']') (by simp)).blanks hst.pad
    have hitems := items_tokens ih (follows_pad hst.pad (follows_char rest (by simp))) hclose
    have hopen := (hitems.blanks hst.pad).mark (c := '[') (by simp)
    simpa [formOf, tokensOf] using hopen
  | @dict es hkeys _ _ ih =>
    intro rest ts hrest h
    have hclose := (h.mark (c := '\x7d') (by simp)).blanks hst.pad
    have hentries := entries_tokens hst hkeys ih
      (follows_pad hst.pad (follows_char rest (by simp))) hclose
    have hopen := (hentries.blanks hst.pad).mark (c := '\x7b') (by simp)
    simpa [formOf, tokensOf] using hopen

theorem quoted_start {s : String} {cs : List Char} (h : QuotedForm s cs) :
    ∃ c rest, cs = c :: rest ∧ (c = '\'' ∨ c = '"') := by
  obtain ⟨q, body, hq, -, rfl⟩ := h.form
  exact ⟨q, _, rfl, hq⟩

/-- A form starts with a character that is no blank. -/
theorem form_start (hst : st.Quotes P K) {v : Value} (hv : Readable P K v) :
    ∃ c cs, formOf st v = c :: cs ∧ Literal.isLineBlank c = false ∧ c ≠ '\n' ∧ c ≠ '\x0c' := by
  have hdigit : ∀ n, ∃ c cs, Nat.toDigits 10 n = c :: cs ∧ Literal.isLineBlank c = false ∧
      c ≠ '\n' ∧ c ≠ '\x0c' := by
    intro n
    have hdigits := fun c hc => @Nat.isDigit_of_mem_toDigits 10 n c (by decide) (by decide) hc
    cases hcs : Nat.toDigits 10 n with
    | nil => exact absurd hcs Nat.toDigits_ne_nil
    | cons c cs =>
      have hc := hdigits c (by simp [hcs])
      have hother : ∀ d : Char, d.isDigit = false → c ≠ d := by
        rintro d hd rfl
        rw [hc] at hd
        cases hd
      exact ⟨c, cs, rfl, by simp [Literal.isLineBlank, hother ' ' rfl, hother '\t' rfl],
        hother '\n' rfl, hother '\x0c' rfl⟩
  cases hv with
  | null => exact ⟨'N', _, rfl, rfl, by decide, by decide⟩
  | int h =>
    rw [formOf]
    split
    · exact ⟨'-', _, rfl, rfl, by decide, by decide⟩
    · exact hdigit _
  | text hs =>
    obtain ⟨c, cs, hcs, hc⟩ := quoted_start (hst.text _ hs)
    refine ⟨c, cs, hcs, ?_⟩
    rcases hc with rfl | rfl <;> decide
  | list => exact ⟨'[', _, rfl, rfl, by decide, by decide⟩
  | dict => exact ⟨'\x7b', _, rfl, rfl, by decide, by decide⟩

theorem items_line {xs : List Value} (h : ∀ x ∈ xs, OnLine (formOf st x)) :
    OnLine (formItems st xs) := by
  induction xs with
  | nil => exact on_line_nil
  | cons x xs ih =>
    obtain ⟨hx, hmore⟩ := List.forall_mem_cons.mp h
    rw [formItems, on_line_append]
    refine ⟨hx, ?_⟩
    split
    · exact on_line_nil
    · simpa using ih hmore

theorem entries_line (hst : st.Quotes P K) {es : Entries}
    (hkeys : ∀ e ∈ es, ∃ k, e.1 = .text k ∧ K k) (h : ∀ e ∈ es, OnLine (formOf st e.2)) :
    OnLine (formEntries st es) := by
  induction es with
  | nil => exact on_line_nil
  | cons e es ih =>
    obtain ⟨key, v⟩ := e
    obtain ⟨⟨k, hkey, hk⟩, hmorekeys⟩ := List.forall_mem_cons.mp hkeys
    obtain ⟨hv, hmore⟩ := List.forall_mem_cons.mp h
    obtain rfl : key = .text k := hkey
    have hrest : OnLine (if es.isEmpty then [] else ',' :: ' ' :: formEntries st es) := by
      split
      · exact on_line_nil
      · simpa using ih hmorekeys hmore
    simp only [formEntries, on_line_append, on_line_cons]
    exact ⟨(hst.key k hk).line, by decide, by decide, hv, hrest⟩

/-- A form is on one line. -/
theorem form_line (hst : st.Quotes P K) {v : Value} (hv : Readable P K v) :
    OnLine (formOf st v) := by
  have hpad : OnLine st.pad := fun c hc => by rw [hst.pad c hc]; decide
  induction hv with
  | null =>
    change OnLine ['N', 'o', 'n', 'e']
    simp
  | @int i h =>
    have hdigits : OnLine (Nat.toDigits 10 i.natAbs) := by
      intro c hc
      have hdigit := Nat.isDigit_of_mem_toDigits (by decide) (by decide) hc
      refine ⟨?_, ?_, ?_⟩ <;> (rintro rfl; cases hdigit)
    rw [formOf]
    split
    · simpa using hdigits
    · exact hdigits
  | text hs => exact (hst.text _ hs).line
  | list _ ih => simpa [formOf, hpad] using items_line ih
  | dict hkeys _ _ ih => simpa [formOf, hpad] using entries_line hst hkeys ih

theorem line_feeds_none {cs : List Char} (h : OnLine cs) :
    Text.lineFeeds cs = cs := by
  induction cs with
  | nil => rfl
  | cons c cs ih =>
    obtain ⟨hc, hcs⟩ := on_line_cons.mp h
    simp [Text.lineFeeds, hc.2.1, ih hcs]

theorem not_indented {cs : List Char} (h : OnLine cs) :
    Literal.endsIndented cs = false := by
  have hdrop : cs.reverse.dropWhile (· != '\n') = [] := by
    rw [List.dropWhile_eq_nil_iff]
    intro c hc
    simpa using (h c (List.mem_reverse.mp hc)).1
  simp [Literal.endsIndented, hdrop]

/-- A value is read back from its form. -/
theorem read_form (hst : st.Quotes P K) {v : Value} (hv : Readable P K v) :
    Literal.read (formOf st v) = .ok v := by
  obtain ⟨c, cs, hform, hblank, hbreak, hfeed⟩ := form_start hst hv
  have hline := form_line hst hv
  have htokens := form_tokens hst hv [] [] (by simp [FollowsValue]) tokenizes_nil
  have hterm : Literal.term? (formOf st v) = some (termOf v) := by
    have hfirst : Literal.fromFirstLine false
        ((Text.lineFeeds (formOf st v)).dropWhile Literal.isLineBlank) = some (formOf st v) := by
      rw [line_feeds_none hline, hform]
      simp [Literal.fromFirstLine, hblank, hbreak, hfeed]
    have hzero : (formOf st v).contains '\x00' = false := by
      simpa using fun hc => (hline '\x00' hc).2.2 rfl
    rw [List.append_nil, List.append_nil] at htokens
    rw [Literal.term?, hfirst]
    simp only [hzero, Option.bind_eq_bind, Option.bind_some, not_indented hline, Bool.false_eq_true,
      ↓reduceIte, htokens _ 0 (Nat.le_succ _), keeps_last_token hv, top_level_read hv]
  rw [Literal.read, hterm]
  exact term_value hv

end Forms

section Printers
variable {st : LiteralStyle}

/-- The forms of items, joined by commas. -/
theorem items_joined {xs : List Value} {ts : List String}
    (h : List.Forall₂ (fun x (t : String) => t.toList = formOf st x) xs ts) :
    (", ".intercalate ts).toList = formItems st xs := by
  induction h with
  | nil => rfl
  | @cons x t xs ts ht hrest ih =>
    cases hrest with
    | nil => simp [formItems, ht]
    | cons =>
      rw [String.intercalate_cons_cons, String.toList_append, String.toList_append, ih, ht]
      simp [formItems]

/-- The forms of entries, joined by commas. -/
theorem entries_joined {es : Entries} {ts : List String}
    (h : List.Forall₂ (fun e (t : String) => ∃ k, e.1 = .text k ∧
      t.toList = st.key k ++ ':' :: ' ' :: formOf st e.2) es ts) :
    (", ".intercalate ts).toList = formEntries st es := by
  induction h with
  | nil => rfl
  | @cons e t es ts ht hrest ih =>
    obtain ⟨key, v⟩ := e
    obtain ⟨k, hk, ht⟩ := ht
    obtain rfl : key = .text k := hk
    cases hrest with
    | nil => simp [formEntries, ht]
    | cons =>
      rw [String.intercalate_cons_cons, String.toList_append, String.toList_append, ih, ht]
      simp [formEntries]

theorem print_int_form (n : Int) : (Value.printInt n).toList = formOf st (.int n) := by
  rw [Value.printInt, formOf]
  split
  · rw [String.toList_append]
    exact congrArg ('-' :: ·) Nat.toList_repr
  · exact Nat.toList_repr

/-- A printer of values, of lists of them and of entries that writes in a style. -/
structure Writes {ε : Type} (st : LiteralStyle) (print : Value → Except ε String)
    (items : List Value → Except ε (List String))
    (entries : Entries → Except ε (List String)) : Prop where
  null : print .null = .ok "None"
  int : ∀ n, print (.int n) = .ok (Value.printInt n)
  text : ∀ s, ∃ t, print (.text s) = .ok t ∧ t.toList = st.text s
  list : ∀ {xs ts}, items xs = .ok ts → ∃ t, print (.list xs) = .ok t ∧
    t.toList = '[' :: (st.pad ++ ((", ".intercalate ts).toList ++ (st.pad ++ [']'])))
  dict : ∀ {es ts}, entries es = .ok ts → ∃ t, print (.dict es) = .ok t ∧
    t.toList = '\x7b' :: (st.pad ++ ((", ".intercalate ts).toList ++ (st.pad ++ ['\x7d'])))
  noItems : items [] = .ok []
  item : ∀ {x xs t ts}, print x = .ok t → items xs = .ok ts → items (x :: xs) = .ok (t :: ts)
  noEntries : entries [] = .ok []
  entry : ∀ {k v es t ts}, print v = .ok t → entries es = .ok ts →
    ∃ s, entries ((.text k, v) :: es) = .ok (s :: ts) ∧
      s.toList = st.key k ++ ':' :: ' ' :: t.toList

variable {ε : Type} {print : Value → Except ε String}
  {items : List Value → Except ε (List String)} {entries : Entries → Except ε (List String)}
  {P K : String → Prop}

theorem Writes.items_form (h : Writes st print items entries) {xs : List Value}
    (hxs : ∀ x ∈ xs, ∃ t, print x = .ok t ∧ t.toList = formOf st x) :
    ∃ ts, items xs = .ok ts ∧ (", ".intercalate ts).toList = formItems st xs := by
  obtain ⟨ts, hts, hforms⟩ : ∃ ts, items xs = .ok ts ∧
      List.Forall₂ (fun x (t : String) => t.toList = formOf st x) xs ts := by
    induction xs with
    | nil => exact ⟨[], h.noItems, .nil⟩
    | cons x xs ih =>
      obtain ⟨⟨t, ht, hform⟩, hxs⟩ := List.forall_mem_cons.mp hxs
      obtain ⟨ts, hts, hforms⟩ := ih hxs
      exact ⟨t :: ts, h.item ht hts, .cons hform hforms⟩
  exact ⟨ts, hts, items_joined hforms⟩

theorem Writes.entries_form (h : Writes st print items entries) {es : Entries}
    (hkeys : ∀ e ∈ es, ∃ k, e.1 = .text k ∧ K k)
    (hvalues : ∀ e ∈ es, ∃ t, print e.2 = .ok t ∧ t.toList = formOf st e.2) :
    ∃ ts, entries es = .ok ts ∧ (", ".intercalate ts).toList = formEntries st es := by
  obtain ⟨ts, hts, hforms⟩ : ∃ ts, entries es = .ok ts ∧
      List.Forall₂ (fun e (t : String) => ∃ k, e.1 = .text k ∧
        t.toList = st.key k ++ ':' :: ' ' :: formOf st e.2) es ts := by
    induction es with
    | nil => exact ⟨[], h.noEntries, .nil⟩
    | cons e es ih =>
      obtain ⟨key, v⟩ := e
      obtain ⟨⟨k, hk, -⟩, hkeys⟩ := List.forall_mem_cons.mp hkeys
      obtain ⟨⟨t, ht, hform⟩, hvalues⟩ := List.forall_mem_cons.mp hvalues
      obtain ⟨ts, hts, hforms⟩ := ih hkeys hvalues
      obtain rfl : key = .text k := hk
      obtain ⟨s, hs, hentry⟩ := h.entry (k := k) ht hts
      exact ⟨s :: ts, hs, .cons ⟨k, rfl, hentry.trans (by rw [hform])⟩ hforms⟩
  exact ⟨ts, hts, entries_joined hforms⟩

/-- A value that can be read is printed in the style of the printer. -/
theorem Writes.form (h : Writes st print items entries) {v : Value} (hv : Readable P K v) :
    ∃ s, print v = .ok s ∧ s.toList = formOf st v := by
  induction hv with
  | null => exact ⟨"None", h.null, rfl⟩
  | @int n => exact ⟨Value.printInt n, h.int n, print_int_form n⟩
  | @text s => exact h.text s
  | list _ ih =>
    obtain ⟨ts, hts, hform⟩ := h.items_form ih
    obtain ⟨t, ht, hlist⟩ := h.list hts
    exact ⟨t, ht, hlist.trans (by rw [hform, formOf])⟩
  | dict hkeys _ _ ih =>
    obtain ⟨ts, hts, hform⟩ := h.entries_form hkeys ih
    obtain ⟨t, ht, hdict⟩ := h.dict hts
    exact ⟨t, ht, hdict.trans (by rw [hform, formOf])⟩

end Printers

end DocQuery.Proofs
