import DocQuery.Proofs.GroupDocuments
import DocQuery.Proofs.Rendering

namespace DocQuery.Proofs

/-- A piece of a printed value: a character of its own, or a text between double quotes. -/
inductive Piece where
  | mark (c : Char)
  | quoted (s : String)

namespace Piece

def chars : Piece → List Char
  | mark c => [c]
  | quoted s => '"' :: (s.toList ++ ['"'])

end Piece

def rendered (ps : List Piece) : List Char := ps.flatMap Piece.chars

def marks (s : String) : List Piece := s.toList.map .mark

def keyPieces : Value → List Piece
  | .text s => marks s
  | _ => []

mutual
/-- The pieces of a printed value; a filter that tests nothing has no blanks. -/
def pieces : Value → List Piece
  | .dict [] => marks "\x7b\x7d"
  | .dict ((k, v) :: es) =>
    marks "\x7b " ++
      (keyPieces k ++ (marks ": " ++ (pieces v ++ (moreEntries es ++ marks " \x7d"))))
  | .list [] => marks "[  ]"
  | .list (x :: xs) => marks "[ " ++ (pieces x ++ (moreItems xs ++ marks " ]"))
  | .text s => [.quoted s]
  | .int n => marks (Value.printInt n)
  | _ => marks "None"

def moreItems : List Value → List Piece
  | [] => []
  | x :: xs => marks ", " ++ (pieces x ++ moreItems xs)

def moreEntries : List (Value × Value) → List Piece
  | [] => []
  | (k, v) :: es => marks ", " ++ (keyPieces k ++ (marks ": " ++ (pieces v ++ moreEntries es)))
end

/-- Names of fields and operators. -/
def KeyText (s : String) : Prop := ':' ∉ s.toList ∧ '"' ∉ s.toList

instance (s : String) : Decidable (KeyText s) :=
  inferInstanceAs (Decidable (':' ∉ s.toList ∧ '"' ∉ s.toList))

/-- An entry of a filter; what is tested for membership is a list. -/
structure FilterEntry (e : Value × Value) : Prop where
  key : ∃ s, e.1 = .text s ∧ KeyText s
  members : e.1 = .text "$in" → ∃ xs, e.2 = .list xs

/-- The values that filters are made of, with texts that satisfy a predicate. -/
inductive Printable (P : String → Prop) : Value → Prop where
  | null : Printable P .null
  | int (n : Nat) : Printable P (.int n)
  | text {s : String} (h : P s) : Printable P (.text s)
  | list {xs : List Value} (hxs : xs ≠ []) (h : ∀ x ∈ xs, Printable P x) : Printable P (.list xs)
  | dict {es : Entries} (hes : es ≠ []) (hentry : ∀ e ∈ es, FilterEntry e)
      (h : ∀ e ∈ es, Printable P e.2) (hkeys : (es.map (·.1)).Nodup) : Printable P (.dict es)

@[simp] theorem rendered_append (ps qs : List Piece) :
    rendered (ps ++ qs) = rendered ps ++ rendered qs :=
  List.flatMap_append

@[simp] theorem rendered_marks (s : String) : rendered (marks s) = s.toList := by
  rw [rendered, marks, List.flatMap_map]
  exact List.flatMap_singleton' s.toList

theorem key_pieces {e : Value × Value} (h : FilterEntry e) :
    ∃ s, e.1 = .text s ∧ keyPieces e.1 = marks s ∧ KeyText s := by
  obtain ⟨s, hs, hkey⟩ := h.key
  exact ⟨s, hs, by rw [hs]; rfl, hkey⟩

/-- A list with commas is its first text and the others with commas before them. -/
theorem intercalate_chars (t : String) (ts : List String) :
    (", ".intercalate (t :: ts)).toList =
      t.toList ++ ts.flatMap fun u => ", ".toList ++ u.toList := by
  induction ts generalizing t with
  | nil => simp
  | cons u ts ih =>
    rw [String.intercalate_cons_cons, String.toList_append, String.toList_append, ih]
    simp

section Printing
variable {P : String → Prop}

/-- That a value is printed as its pieces. -/
def PrintedAs (v : Value) : Prop :=
  ∃ s, Command.shellText v = .ok s ∧ s.toList = rendered (pieces v)

theorem more_items_text {xs : List Value} (h : ∀ x ∈ xs, PrintedAs x) :
    ∃ ts, Command.shellItems xs = .ok ts ∧
      (ts.flatMap fun t => ", ".toList ++ t.toList) = rendered (moreItems xs) := by
  induction xs with
  | nil => exact ⟨[], rfl, rfl⟩
  | cons x xs ih =>
    obtain ⟨⟨t, ht, hchars⟩, hxs⟩ := List.forall_mem_cons.mp h
    obtain ⟨ts, hts, hrest⟩ := ih hxs
    refine ⟨t :: ts, by simp [Command.shellItems, ht, hts], ?_⟩
    rw [List.flatMap_cons, hrest, hchars, moreItems]
    simp

theorem more_entries_text {es : Entries} (hentry : ∀ e ∈ es, FilterEntry e)
    (h : ∀ e ∈ es, PrintedAs e.2) : ∃ ts, Command.shellEntries es = .ok ts ∧
      (ts.flatMap fun t => ", ".toList ++ t.toList) = rendered (moreEntries es) := by
  induction es with
  | nil => exact ⟨[], rfl, rfl⟩
  | cons e es ih =>
    obtain ⟨⟨t, ht, hchars⟩, hes⟩ := List.forall_mem_cons.mp h
    obtain ⟨he, hentries⟩ := List.forall_mem_cons.mp hentry
    obtain ⟨ts, hts, hrest⟩ := ih hentries hes
    obtain ⟨k, v⟩ := e
    obtain ⟨s, hs, hkey, -⟩ := key_pieces he
    obtain rfl : k = .text s := hs
    refine ⟨(s ++ ": " ++ t) :: ts, by simp [Command.shellEntries, ht, hts], ?_⟩
    rw [List.flatMap_cons, hrest, moreEntries, hkey]
    simp [hchars]

/-- Filters are printed as their pieces. -/
theorem printed_pieces {v : Value} (h : Printable P v) : PrintedAs v := by
  induction h with
  | null => exact ⟨"None", rfl, rfl⟩
  | int n => exact ⟨Value.printInt n, rfl, by simp [pieces]⟩
  | @text s _ => exact ⟨"\"" ++ s ++ "\"", rfl, by simp [pieces, rendered, Piece.chars]⟩
  | @list xs hxs _ ih =>
    obtain ⟨x, xs, rfl⟩ := List.exists_cons_of_ne_nil hxs
    obtain ⟨⟨t, ht, hchars⟩, hrest⟩ := List.forall_mem_cons.mp ih
    obtain ⟨ts, hts, hmore⟩ := more_items_text hrest
    refine ⟨Value.commaList "[ " " ]" (t :: ts), ?_, ?_⟩
    · simp [Command.shellText, Command.shellItems, ht, hts]
    · rw [Value.commaList, String.toList_append, String.toList_append, intercalate_chars, hmore,
        hchars, pieces]
      simp
  | @dict es hes hentry _ _ ih =>
    obtain ⟨⟨k, v⟩, es, rfl⟩ := List.exists_cons_of_ne_nil hes
    obtain ⟨⟨t, ht, hchars⟩, hrest⟩ := List.forall_mem_cons.mp ih
    obtain ⟨he, hentries⟩ := List.forall_mem_cons.mp hentry
    obtain ⟨ts, hts, hmore⟩ := more_entries_text hentries hrest
    obtain ⟨s, hs, hkey, -⟩ := key_pieces he
    obtain rfl : k = .text s := hs
    refine ⟨Value.commaList "\x7b " " \x7d" ((s ++ ": " ++ t) :: ts), ?_, ?_⟩
    · simp [Command.shellText, Command.shellEntries, ht, hts]
    · rw [Value.commaList, String.toList_append, String.toList_append, intercalate_chars, hmore,
        pieces, hkey]
      simp [hchars]

end Printing

/-- Two lists of pieces that agree up to a first difference, which is between two texts; or, where
there is none, up to their ends. -/
inductive Parallel : Bool → List Piece → List Piece → Prop where
  | nil : Parallel false [] []
  | cons {differs : Bool} {ps qs : List Piece} (p : Piece) (h : Parallel differs ps qs) :
      Parallel differs (p :: ps) (p :: qs)
  | differ {s t : String} (h : s ≠ t) (ps qs : List Piece) :
      Parallel true (.quoted s :: ps) (.quoted t :: qs)

section Parallel
variable {differs : Bool} {ps qs : List Piece}

theorem Parallel.refl (ps : List Piece) : Parallel false ps ps := by
  induction ps with
  | nil => exact .nil
  | cons p ps ih => exact .cons p ih

theorem Parallel.append (h : Parallel differs ps qs) (rest : List Piece) :
    Parallel differs (ps ++ rest) (qs ++ rest) := by
  induction h with
  | nil => exact .refl rest
  | cons p _ ih => exact .cons p ih
  | differ h => exact .differ h _ _

theorem Parallel.symm (h : Parallel differs ps qs) : Parallel differs qs ps := by
  induction h with
  | nil => exact .nil
  | cons p _ ih => exact .cons p ih
  | differ h => exact .differ h.symm _ _

theorem parallel_prepend (common : List Piece) (h : Parallel differs ps qs) :
    Parallel differs (common ++ ps) (common ++ qs) := by
  induction common with
  | nil => exact h
  | cons p common ih => exact .cons p ih

theorem parallel_mark {c d : Char} (h : Parallel differs (.mark c :: ps) (.mark d :: qs)) :
    c = d ∧ Parallel differs ps qs := by
  cases h with
  | cons _ h => exact ⟨rfl, h⟩

theorem parallel_quoted {s t : String}
    (h : Parallel differs (.quoted s :: ps) (.quoted t :: qs)) :
    s = t ∧ Parallel differs ps qs ∨ differs = true ∧ s ≠ t := by
  cases h with
  | cons _ h => exact .inl ⟨rfl, h⟩
  | differ h => exact .inr ⟨rfl, h⟩

theorem parallel_marks {s : String} (h : Parallel differs (marks s ++ ps) (marks s ++ qs)) :
    Parallel differs ps qs := by
  rw [marks] at h
  generalize s.toList = cs at h
  induction cs with
  | nil => exact h
  | cons c cs ih => exact ih (parallel_mark h).2

/-- Two runs of characters of a kind, each up to one of another kind, are equal. -/
theorem parallel_runs {p : Char → Prop} {s t : String} {c d : Char} (hs : ∀ x ∈ s.toList, p x)
    (ht : ∀ x ∈ t.toList, p x) (hc : ¬p c) (hd : ¬p d)
    (h : Parallel differs (marks s ++ .mark c :: ps) (marks t ++ .mark d :: qs)) :
    s = t ∧ Parallel differs (.mark c :: ps) (.mark d :: qs) := by
  have hrun : ∀ xs ys : List Char, (∀ x ∈ xs, p x) → (∀ y ∈ ys, p y) →
      Parallel differs (xs.map .mark ++ .mark c :: ps) (ys.map .mark ++ .mark d :: qs) →
      xs = ys ∧ Parallel differs (.mark c :: ps) (.mark d :: qs) := by
    intro xs
    induction xs with
    | nil =>
      intro ys _ hys h
      cases ys with
      | nil => exact ⟨rfl, h⟩
      | cons y ys => exact absurd ((parallel_mark h).1 ▸ hys y List.mem_cons_self) hc
    | cons x xs ih =>
      intro ys hxs hys h
      cases ys with
      | nil => exact absurd ((parallel_mark h).1 ▸ hxs x List.mem_cons_self) hd
      | cons y ys =>
        obtain ⟨rfl, hrest⟩ := parallel_mark h
        obtain ⟨rfl, hend⟩ :=
          ih ys (List.forall_mem_cons.mp hxs).2 (List.forall_mem_cons.mp hys).2 hrest
        exact ⟨rfl, hend⟩
  obtain ⟨hlist, h⟩ := hrun s.toList t.toList hs ht h
  exact ⟨String.toList_inj.mp hlist, h⟩

end Parallel

/-- What stands after a value inside another one. -/
def valueEnds : List String := [", ", " \x7d", " ]"]

def EndsValue (ps : List Piece) : Prop := ∃ stop ∈ valueEnds, ∃ rest, ps = marks stop ++ rest

theorem EndsValue.head {ps : List Piece} (h : EndsValue ps) :
    ∃ c rest, ps = .mark c :: rest ∧ (c = ',' ∨ c = ' ') := by
  obtain ⟨stop, hstop, rest, rfl⟩ := h
  simp only [valueEnds, List.mem_cons, List.not_mem_nil, or_false] at hstop
  rcases hstop with rfl | rfl | rfl
  · exact ⟨',', _, rfl, .inl rfl⟩
  · exact ⟨' ', _, rfl, .inr rfl⟩
  · exact ⟨' ', _, rfl, .inr rfl⟩

theorem items_end (xs : List Value) (ps : List Piece) :
    EndsValue (moreItems xs ++ (marks " ]" ++ ps)) := by
  cases xs with
  | nil => exact ⟨" ]", by decide, ps, by simp [moreItems]⟩
  | cons x xs => exact ⟨", ", by decide, _, by rw [moreItems, List.append_assoc]⟩

theorem entries_end (es : Entries) (ps : List Piece) :
    EndsValue (moreEntries es ++ (marks " \x7d" ++ ps)) := by
  cases es with
  | nil => exact ⟨" \x7d", by decide, ps, by simp [moreEntries]⟩
  | cons e es => exact ⟨", ", by decide, _, by rw [moreEntries, List.append_assoc]⟩

/-- The first character of a kind of values; a digit stands for all. -/
def leadOf : Value → Char
  | .dict _ => '\x7b'
  | .list _ => '['
  | .text _ => '"'
  | .int _ => '0'
  | _ => 'N'

def Piece.lead : Piece → Char
  | mark c => if c.isDigit then '0' else c
  | quoted _ => '"'

theorem parallel_lead {differs : Bool} {p q : Piece} {ps qs : List Piece}
    (h : Parallel differs (p :: ps) (q :: qs)) : p.lead = q.lead := by
  cases h with
  | cons => rfl
  | differ => rfl

theorem print_int_chars (n : Nat) : (Value.printInt n).toList = Nat.toDigits 10 n := by
  rw [Value.printInt, if_neg (by omega)]
  exact Nat.toList_repr

theorem print_int_digit {n : Nat} {c : Char} (hc : c ∈ (Value.printInt n).toList) :
    c.isDigit = true :=
  Nat.isDigit_of_mem_toDigits (by decide) (by decide) (print_int_chars n ▸ hc)

theorem print_int_injective {m n : Nat} (h : Value.printInt m = Value.printInt n) : m = n := by
  have hdigits : Nat.toDigits 10 m = Nat.toDigits 10 n := by
    rw [← print_int_chars, ← print_int_chars, h]
  rw [← numeral_digits m, ← numeral_digits n, hdigits]

theorem pieces_lead {P : String → Prop} {v : Value} (h : Printable P v) :
    ∃ p ps, pieces v = p :: ps ∧ p.lead = leadOf v := by
  cases h with
  | null => exact ⟨.mark 'N', _, rfl, rfl⟩
  | int n =>
    cases hdigits : (Value.printInt n).toList with
    | nil => exact absurd (print_int_chars n ▸ hdigits) Nat.toDigits_ne_nil
    | cons c cs =>
      refine ⟨.mark c, cs.map .mark, by rw [pieces, marks, hdigits]; rfl, ?_⟩
      exact if_pos (print_int_digit (hdigits ▸ List.mem_cons_self))
  | text h => exact ⟨_, _, rfl, rfl⟩
  | list hxs h =>
    obtain ⟨x, xs, rfl⟩ := List.exists_cons_of_ne_nil hxs
    exact ⟨.mark '[', _, by rw [pieces]; rfl, rfl⟩
  | dict hes hentry h hkeys =>
    obtain ⟨e, es, rfl⟩ := List.exists_cons_of_ne_nil hes
    exact ⟨.mark '\x7b', _, by rw [pieces]; rfl, rfl⟩

/-- That a value can be told from others by its pieces, whatever follows; or else that it differs
from another one where the pieces do. -/
def ToldApart (P : String → Prop) (v : Value) : Prop :=
  ∀ {differs : Bool} {w : Value} {ps qs : List Piece}, Printable P w → EndsValue ps →
    EndsValue qs → Parallel differs (pieces v ++ ps) (pieces w ++ qs) →
    v = w ∧ Parallel differs ps qs ∨ differs = true ∧ v.same w = false

section Apart
variable {P : String → Prop} {differs : Bool} {ps qs : List Piece}

theorem items_apart {xs ys : List Value} (hxs : ∀ x ∈ xs, ToldApart P x)
    (hys : ∀ y ∈ ys, Printable P y)
    (h : Parallel differs (moreItems xs ++ (marks " ]" ++ ps))
      (moreItems ys ++ (marks " ]" ++ qs))) :
    xs = ys ∧ Parallel differs ps qs ∨ differs = true ∧ Value.sameItems xs ys = false := by
  induction xs generalizing ys with
  | nil =>
    cases ys with
    | nil => exact .inl ⟨rfl, parallel_marks h⟩
    | cons y ys =>
      rw [moreItems, moreItems] at h
      exact absurd (parallel_mark h).1 (by decide)
  | cons x xs ih =>
    cases ys with
    | nil =>
      rw [moreItems, moreItems] at h
      exact absurd (parallel_mark h).1 (by decide)
    | cons y ys =>
      obtain ⟨hx, hmore⟩ := List.forall_mem_cons.mp hxs
      obtain ⟨hy, hmore'⟩ := List.forall_mem_cons.mp hys
      simp only [moreItems, List.append_assoc] at h
      rcases hx hy (items_end xs ps) (items_end ys qs) (parallel_marks h) with
        ⟨rfl, hrest⟩ | ⟨hdiffers, hsame⟩
      · rcases ih hmore hmore' hrest with ⟨rfl, hend⟩ | ⟨hdiffers, hsame⟩
        · exact .inl ⟨rfl, hend⟩
        · exact .inr ⟨hdiffers, by simp [Value.sameItems, hsame]⟩
      · exact .inr ⟨hdiffers, by simp [Value.sameItems, hsame]⟩

/-- Two documents have different values under one key. -/
def DifferAtKey (es fs : Entries) : Prop :=
  ∃ k v w, (k, v) ∈ es ∧ (k, w) ∈ fs ∧ v.same w = false

theorem entry_apart {e f : Value × Value} (he : FilterEntry e) (hf : FilterEntry f)
    (hv : ToldApart P e.2) (hw : Printable P f.2) (hps : EndsValue ps) (hqs : EndsValue qs)
    (h : Parallel differs (keyPieces e.1 ++ (marks ": " ++ (pieces e.2 ++ ps)))
      (keyPieces f.1 ++ (marks ": " ++ (pieces f.2 ++ qs)))) :
    e = f ∧ Parallel differs ps qs ∨ differs = true ∧ e.1 = f.1 ∧ e.2.same f.2 = false := by
  obtain ⟨k, v⟩ := e
  obtain ⟨l, w⟩ := f
  obtain ⟨s, hs, hkey, hcolon, -⟩ := key_pieces he
  obtain ⟨t, ht, hkey', hcolon', -⟩ := key_pieces hf
  rw [hkey, hkey'] at h
  obtain ⟨rfl, hrest⟩ := parallel_runs (p := (· ≠ ':')) (c := ':') (d := ':')
    (fun x hx hx' => hcolon (hx' ▸ hx)) (fun x hx hx' => hcolon' (hx' ▸ hx)) (by simp) (by simp) h
  have hsame : k = l := hs.trans ht.symm
  rcases hv hw hps hqs (parallel_marks (s := ": ") hrest) with ⟨hvalue, hend⟩ | ⟨hdiffers, hvalue⟩
  · exact .inl ⟨Prod.ext hsame hvalue, hend⟩
  · exact .inr ⟨hdiffers, hsame, hvalue⟩

theorem entries_apart {es fs : Entries} (hes : ∀ e ∈ es, FilterEntry e)
    (hfs : ∀ f ∈ fs, FilterEntry f) (hvs : ∀ e ∈ es, ToldApart P e.2)
    (hws : ∀ f ∈ fs, Printable P f.2)
    (h : Parallel differs (moreEntries es ++ (marks " \x7d" ++ ps))
      (moreEntries fs ++ (marks " \x7d" ++ qs))) :
    es = fs ∧ Parallel differs ps qs ∨ differs = true ∧ DifferAtKey es fs := by
  induction es generalizing fs with
  | nil =>
    cases fs with
    | nil => exact .inl ⟨rfl, parallel_marks h⟩
    | cons f fs =>
      rw [moreEntries, moreEntries] at h
      exact absurd (parallel_mark h).1 (by decide)
  | cons e es ih =>
    cases fs with
    | nil =>
      rw [moreEntries, moreEntries] at h
      exact absurd (parallel_mark h).1 (by decide)
    | cons f fs =>
      obtain ⟨he, hes'⟩ := List.forall_mem_cons.mp hes
      obtain ⟨hf, hfs'⟩ := List.forall_mem_cons.mp hfs
      obtain ⟨hv, hvs'⟩ := List.forall_mem_cons.mp hvs
      obtain ⟨hw, hws'⟩ := List.forall_mem_cons.mp hws
      simp only [moreEntries, List.append_assoc] at h
      rcases entry_apart he hf hv hw (entries_end es ps) (entries_end fs qs) (parallel_marks h) with
        ⟨rfl, hrest⟩ | ⟨hdiffers, hkey, hsame⟩
      · rcases ih hes' hfs' hvs' hws' hrest with ⟨rfl, hend⟩ | ⟨hdiffers, k, v, w, hv, hw, hsame⟩
        · exact .inl ⟨rfl, hend⟩
        · exact .inr ⟨hdiffers, k, v, w, List.mem_cons_of_mem _ hv, List.mem_cons_of_mem _ hw,
            hsame⟩
      · exact .inr ⟨hdiffers, e.1, e.2, f.2, List.mem_cons_self, hkey ▸ List.mem_cons_self, hsame⟩

/-- Documents with different values under one key are different. -/
theorem differ_at_key {es fs : Entries} (hentry : ∀ f ∈ fs, FilterEntry f)
    (hkeys : (fs.map (·.1)).Nodup) (h : DifferAtKey es fs) :
    (Value.dict es).same (.dict fs) = false := by
  obtain ⟨k, v, w, hv, hw, hsame⟩ := h
  obtain ⟨s, rfl, -⟩ := (hentry _ hw).key
  have hnone : fs.any (fun f => Value.same (.text s) f.1 && v.same f.2) = false := by
    rw [List.any_eq_false]
    rintro ⟨l, x⟩ hf
    obtain ⟨t, ht, -⟩ := (hentry _ hf).key
    obtain rfl : l = .text t := ht
    simp only [same_text, Bool.and_eq_true, beq_iff_eq, not_and, Bool.not_eq_true]
    rintro rfl
    obtain rfl : w = x := congrArg Prod.snd (List.inj_on_of_nodup_map hkeys hw hf rfl)
    exact hsame
  have hentries : Value.sameEntries es fs = false := by
    rw [same_entries, List.all_eq_false]
    exact ⟨_, hv, by simpa using hnone⟩
  simp [Value.same, hentries]

/-- Values of different kinds have different first characters. -/
theorem lead_eq {v w : Value} (hv : Printable P v) (hw : Printable P w)
    (h : Parallel differs (pieces v ++ ps) (pieces w ++ qs)) : leadOf v = leadOf w := by
  obtain ⟨p, rest, hp, hlead⟩ := pieces_lead hv
  obtain ⟨q, rest', hq, hlead'⟩ := pieces_lead hw
  rw [hp, hq] at h
  rw [← hlead, ← hlead', parallel_lead h]

theorem int_apart (n : Nat) : ToldApart P (.int n) := by
  intro differs w ps qs hw hps hqs h
  have hlead := lead_eq (.int n) hw h
  cases hw with
  | int m =>
    obtain ⟨c, rest, rfl, hc⟩ := hps.head
    obtain ⟨d, rest', rfl, hd⟩ := hqs.head
    have hstop : ∀ {c : Char}, c = ',' ∨ c = ' ' → ¬c.isDigit = true := by
      rintro c (rfl | rfl) <;> decide
    rw [pieces, pieces] at h
    obtain ⟨htext, hend⟩ := parallel_runs (fun _ => print_int_digit) (fun _ => print_int_digit)
      (hstop hc) (hstop hd) h
    exact .inl ⟨by rw [print_int_injective htext], hend⟩
  | _ => simp [leadOf] at hlead

theorem text_apart {s : String} (hs : P s) : ToldApart P (.text s) := by
  intro differs w ps qs hw hps hqs h
  have hlead := lead_eq (.text hs) hw h
  cases hw with
  | @text t ht =>
    rw [pieces, pieces] at h
    rcases parallel_quoted h with ⟨rfl, hend⟩ | ⟨hdiffers, hne⟩
    · exact .inl ⟨rfl, hend⟩
    · exact .inr ⟨hdiffers, by simpa using hne⟩
  | _ => simp [leadOf] at hlead

/-- Values are told apart by their pieces: in a list item by item, in a document entry by entry. -/
theorem told_apart {v : Value} (hv : Printable P v) : ToldApart P v := by
  induction hv with
  | null =>
    intro differs w ps qs hw hps hqs h
    have hlead := lead_eq .null hw h
    cases hw with
    | null => exact .inl ⟨rfl, parallel_marks (s := "None") h⟩
    | _ => simp [leadOf] at hlead
  | int n => exact int_apart n
  | text hs => exact text_apart hs
  | @list xs hxs hitems ih =>
    intro differs w ps qs hw hps hqs h
    have hlead := lead_eq (.list hxs hitems) hw h
    cases hw with
    | @list ys hys hitems' =>
      obtain ⟨x, xs, rfl⟩ := List.exists_cons_of_ne_nil hxs
      obtain ⟨y, ys, rfl⟩ := List.exists_cons_of_ne_nil hys
      -- The first item stands after a bracket, the others after commas.
      have hmore : Parallel differs (moreItems (x :: xs) ++ (marks " ]" ++ ps))
          (moreItems (y :: ys) ++ (marks " ]" ++ qs)) := by
        simp only [pieces, moreItems, List.append_assoc] at h ⊢
        exact parallel_prepend _ (parallel_marks h)
      rcases items_apart ih hitems' hmore with ⟨heq, hend⟩ | ⟨hdiffers, hsame⟩
      · exact .inl ⟨congrArg Value.list heq, hend⟩
      · exact .inr ⟨hdiffers, by rw [Value.same, hsame]⟩
    | _ => simp [leadOf] at hlead
  | @dict es hes hentry hvalues hkeys ih =>
    intro differs w ps qs hw hps hqs h
    have hlead := lead_eq (.dict hes hentry hvalues hkeys) hw h
    cases hw with
    | @dict fs hfs hentry' hvalues' hkeys' =>
      obtain ⟨⟨k, v⟩, es, rfl⟩ := List.exists_cons_of_ne_nil hes
      obtain ⟨⟨l, w⟩, fs, rfl⟩ := List.exists_cons_of_ne_nil hfs
      have hmore : Parallel differs (moreEntries ((k, v) :: es) ++ (marks " \x7d" ++ ps))
          (moreEntries ((l, w) :: fs) ++ (marks " \x7d" ++ qs)) := by
        simp only [pieces, moreEntries, List.append_assoc] at h ⊢
        exact parallel_prepend _ (parallel_marks h)
      rcases entries_apart hentry hentry' ih hvalues' hmore with ⟨heq, hend⟩ | ⟨hdiffers, hdiffer⟩
      · exact .inl ⟨congrArg Value.dict heq, hend⟩
      · exact .inr ⟨hdiffers, differ_at_key hentry' hkeys' hdiffer⟩
    | _ => simp [leadOf] at hlead

/-- Values that print as the same pieces are equal. -/
theorem pieces_injective {v w : Value} (hv : Printable P v) (hw : Printable P w)
    (h : pieces v = pieces w) : v = w := by
  have hend : EndsValue (marks " ]" ++ []) := ⟨" ]", by decide, [], rfl⟩
  have hparallel := Parallel.refl (pieces v ++ (marks " ]" ++ []))
  nth_rewrite 2 [h] at hparallel
  rcases told_apart hv hw hend hend hparallel with ⟨hsame, -⟩ | ⟨hdiffers, -⟩
  · exact hsame
  · cases hdiffers

/-- Values whose pieces differ first in a text are not equal. -/
theorem parallel_not_same {v w : Value} (hv : Printable P v) (hw : Printable P w)
    (h : Parallel true (pieces v) (pieces w)) : v.same w = false := by
  have hend : EndsValue (marks " ]" ++ []) := ⟨" ]", by decide, [], rfl⟩
  rcases told_apart hv hw hend hend (h.append _) with ⟨-, hrest⟩ | ⟨-, hsame⟩
  · cases parallel_marks hrest
  · exact hsame

end Apart

/-- Two lists of pieces agree up to a text of the first. In the second list the text that stands
there goes on with a double quote and with what is printed next in the first. -/
def Imitated (ps qs : List Piece) : Prop :=
  ∃ common s u ps' qs', ps = common ++ .quoted s :: ps' ∧
    qs = common ++ .quoted (s ++ "\"" ++ u) :: qs' ∧ rendered ps' = u.toList ++ '"' :: rendered qs'

/-- A value has a text that reads as a text of another value and more of it. -/
def Imitates (w v : Value) : Prop := Imitated (pieces v) (pieces w)

section Imitation
variable {ps qs : List Piece}

theorem imitated_rendered (h : Imitated ps qs) : rendered ps = rendered qs := by
  obtain ⟨common, s, u, ps, qs, rfl, rfl, hrest⟩ := h
  simp only [rendered, List.flatMap_append, List.flatMap_cons, Piece.chars] at hrest ⊢
  simp [hrest]

theorem imitated_parallel (h : Imitated ps qs) : Parallel true ps qs := by
  obtain ⟨common, s, u, ps, qs, rfl, rfl, -⟩ := h
  refine parallel_prepend common (.differ ?_ ps qs)
  intro hs
  have hlength := congrArg (fun t => t.toList.length) hs
  simp at hlength

theorem imitated_cons (p : Piece) (h : Imitated ps qs) : Imitated (p :: ps) (p :: qs) := by
  obtain ⟨common, s, u, ps', qs', rfl, rfl, hrest⟩ := h
  exact ⟨p :: common, s, u, ps', qs', rfl, rfl, hrest⟩

/-- Two texts up to quotes are equal, or one goes on over the quote of the other. -/
theorem quote_cases {s t : String} {as bs : List Char}
    (h : s.toList ++ '"' :: as = t.toList ++ '"' :: bs) :
    s = t ∧ as = bs ∨ (∃ u : String, t = s ++ "\"" ++ u ∧ as = u.toList ++ '"' :: bs) ∨
      ∃ u : String, s = t ++ "\"" ++ u ∧ bs = u.toList ++ '"' :: as := by
  have hquote : ∀ {s t : String} {cs : List Char}, t.toList = s.toList ++ '"' :: cs →
      t = s ++ "\"" ++ String.ofList cs := by
    intro s t cs h
    apply String.toList_inj.mp
    simp [h]
  rcases List.append_eq_append_iff.mp h with ⟨cs, ht, has⟩ | ⟨cs, hs, hbs⟩
  · cases cs with
    | nil =>
      rw [List.append_nil] at ht
      exact .inl ⟨String.toList_inj.mp ht.symm, (List.cons.inj has).2⟩
    | cons c cs =>
      obtain ⟨rfl, has⟩ := List.cons.inj has
      exact .inr (.inl ⟨String.ofList cs, hquote ht, by simpa using has⟩)
  · cases cs with
    | nil =>
      rw [List.append_nil] at hs
      exact .inl ⟨String.toList_inj.mp hs, (List.cons.inj hbs).2.symm⟩
    | cons c cs =>
      obtain ⟨rfl, hbs⟩ := List.cons.inj hbs
      exact .inr (.inr ⟨String.ofList cs, hquote hs, by simpa using hbs⟩)

/-- A piece of a value whose texts satisfy a predicate. -/
def Fits (P : String → Prop) : Piece → Prop
  | .mark c => c ≠ '"'
  | .quoted s => P s

theorem rendered_quoted (s : String) (ps : List Piece) :
    rendered (.quoted s :: ps) = '"' :: (s.toList ++ '"' :: rendered ps) := by
  simp [rendered, Piece.chars]

theorem rendered_mark (c : Char) (ps : List Piece) :
    rendered (.mark c :: ps) = c :: rendered ps := by
  simp [rendered, Piece.chars]

/-- Pieces that are printed alike are the same, or those of one imitate those of the other. -/
theorem rendered_cases {P : String → Prop} (hps : ∀ p ∈ ps, Fits P p) (hqs : ∀ q ∈ qs, Fits P q)
    (h : rendered ps = rendered qs) : ps = qs ∨ Imitated ps qs ∨ Imitated qs ps := by
  induction ps generalizing qs with
  | nil =>
    cases qs with
    | nil => exact .inl rfl
    | cons q qs => cases q <;> cases h
  | cons p ps ih =>
    -- Behind one piece that both have, the pieces that follow decide.
    have hstep : ∀ {qs}, (∀ q ∈ qs, Fits P q) → rendered ps = rendered qs →
        p :: ps = p :: qs ∨ Imitated (p :: ps) (p :: qs) ∨ Imitated (p :: qs) (p :: ps) := by
      intro qs hqs h
      rcases ih (List.forall_mem_cons.mp hps).2 hqs h with rfl | himitated | himitated
      · exact .inl rfl
      · exact .inr (.inl (imitated_cons p himitated))
      · exact .inr (.inr (imitated_cons p himitated))
    cases qs with
    | nil => cases p <;> cases h
    | cons q qs =>
      obtain ⟨hp, -⟩ := List.forall_mem_cons.mp hps
      obtain ⟨hq, hrest⟩ := List.forall_mem_cons.mp hqs
      cases p with
      | mark c =>
        cases q with
        | mark d =>
          rw [rendered_mark, rendered_mark] at h
          obtain ⟨rfl, hend⟩ := List.cons.inj h
          exact hstep hrest hend
        | quoted t =>
          rw [rendered_mark, rendered_quoted] at h
          exact absurd (List.cons.inj h).1 hp
      | quoted s =>
        cases q with
        | mark d =>
          rw [rendered_mark, rendered_quoted] at h
          exact absurd (List.cons.inj h).1.symm hq
        | quoted t =>
          rw [rendered_quoted, rendered_quoted] at h
          rcases quote_cases (List.cons.inj h).2 with
            ⟨rfl, hend⟩ | ⟨u, rfl, hend⟩ | ⟨u, rfl, hend⟩
          · exact hstep hrest hend
          · exact .inr (.inl ⟨[], s, u, ps, qs, rfl, rfl, hend⟩)
          · exact .inr (.inr ⟨[], t, u, qs, ps, rfl, rfl, hend⟩)

end Imitation

/-- A text with a double quote and what stands after values behind it. -/
def BreaksOut (s : String) : Prop := ∃ stop ∈ valueEnds, '"' :: stop.toList <:+: s.toList

/-- All texts in a list of pieces stand before the end of a value. -/
def Separated : List Piece → Prop
  | [] => True
  | .mark _ :: ps => Separated ps
  | .quoted _ :: ps => EndsValue ps ∧ Separated ps

section Separated
variable {P : String → Prop}

@[simp] theorem separated_marks (s : String) (ps : List Piece) :
    Separated (marks s ++ ps) ↔ Separated ps := by
  rw [marks]
  induction s.toList with
  | nil => rfl
  | cons c cs ih => exact ih

theorem separated_after {common ps : List Piece} {s : String}
    (h : Separated (common ++ .quoted s :: ps)) : EndsValue ps := by
  induction common with
  | nil => exact h.1
  | cons p common ih =>
    cases p with
    | mark c => exact ih h
    | quoted t => exact ih h.2

/-- Whatever follows a value, the texts in it stand before ends. -/
def KeptSeparate (v : Value) : Prop :=
  ∀ ps, EndsValue ps → Separated ps → Separated (pieces v ++ ps)

theorem separated_items {xs : List Value} {ps : List Piece} (hxs : ∀ x ∈ xs, KeptSeparate x)
    (h : Separated ps) : Separated (moreItems xs ++ (marks " ]" ++ ps)) := by
  induction xs with
  | nil => simpa [moreItems] using h
  | cons x xs ih =>
    obtain ⟨hx, hrest⟩ := List.forall_mem_cons.mp hxs
    simpa [moreItems] using hx _ (items_end xs ps) (ih hrest)

theorem separated_entries {es : Entries} {ps : List Piece} (hentry : ∀ e ∈ es, FilterEntry e)
    (hes : ∀ e ∈ es, KeptSeparate e.2) (h : Separated ps) :
    Separated (moreEntries es ++ (marks " \x7d" ++ ps)) := by
  induction es with
  | nil => simpa [moreEntries] using h
  | cons e es ih =>
    obtain ⟨he, hentries⟩ := List.forall_mem_cons.mp hentry
    obtain ⟨hvalue, hvalues⟩ := List.forall_mem_cons.mp hes
    obtain ⟨s, -, hkey, -⟩ := key_pieces he
    rw [moreEntries, hkey]
    simpa using hvalue _ (entries_end es ps) (ih hentries hvalues)

theorem separated_pieces {v : Value} (hv : Printable P v) : KeptSeparate v := by
  induction hv with
  | null => exact fun ps _ h => (separated_marks "None" ps).mpr h
  | int n => exact fun ps _ h => by simpa [pieces] using h
  | text => exact fun ps hend h => ⟨hend, h⟩
  | list hxs _ ih =>
    intro ps _ h
    obtain ⟨x, xs, rfl⟩ := List.exists_cons_of_ne_nil hxs
    simpa [pieces, moreItems] using separated_items ih h
  | dict hes hentry _ _ ih =>
    intro ps _ h
    obtain ⟨e, es, rfl⟩ := List.exists_cons_of_ne_nil hes
    have hall := separated_entries hentry ih h
    rw [moreEntries] at hall
    rw [pieces]
    simpa using hall

theorem marks_fit {s : String} (hs : '"' ∉ s.toList) : ∀ p ∈ marks s, Fits P p := by
  rintro p hp
  obtain ⟨c, hc, rfl⟩ := List.mem_map.mp hp
  exact fun hquote => hs (hquote ▸ hc)

theorem more_items_fit {xs : List Value} (h : ∀ x ∈ xs, ∀ p ∈ pieces x, Fits P p) :
    ∀ p ∈ moreItems xs, Fits P p := by
  induction xs with
  | nil => simp [moreItems]
  | cons x xs ih =>
    obtain ⟨hx, hxs⟩ := List.forall_mem_cons.mp h
    simp only [moreItems, List.forall_mem_append]
    exact ⟨marks_fit (by decide), hx, ih hxs⟩

theorem more_entries_fit {es : Entries} (hentry : ∀ e ∈ es, FilterEntry e)
    (h : ∀ e ∈ es, ∀ p ∈ pieces e.2, Fits P p) : ∀ p ∈ moreEntries es, Fits P p := by
  induction es with
  | nil => simp [moreEntries]
  | cons e es ih =>
    obtain ⟨he, hentry⟩ := List.forall_mem_cons.mp hentry
    obtain ⟨hvalue, hes⟩ := List.forall_mem_cons.mp h
    obtain ⟨s, -, hkey, -, hquote⟩ := key_pieces he
    simp only [moreEntries, hkey, List.forall_mem_append]
    exact ⟨marks_fit (by decide), marks_fit hquote, marks_fit (by decide), hvalue, ih hentry hes⟩

/-- Only texts have double quotes around them. -/
theorem pieces_fit {v : Value} (hv : Printable P v) : ∀ p ∈ pieces v, Fits P p := by
  induction hv with
  | null => exact marks_fit (by decide)
  | int n =>
    rw [pieces]
    exact marks_fit fun hquote => absurd (print_int_digit hquote) (by decide)
  | text h =>
    rw [pieces]
    exact List.forall_mem_singleton.mpr h
  | @list xs hxs _ ih =>
    obtain ⟨x, xs, rfl⟩ := List.exists_cons_of_ne_nil hxs
    have hmore := more_items_fit ih
    simp only [pieces, moreItems, List.forall_mem_append] at hmore ⊢
    exact ⟨marks_fit (by decide), hmore.2.1, hmore.2.2, marks_fit (by decide)⟩
  | @dict es hes hentry _ _ ih =>
    obtain ⟨e, es, rfl⟩ := List.exists_cons_of_ne_nil hes
    have hmore := more_entries_fit hentry ih
    simp only [pieces, moreEntries, List.forall_mem_append] at hmore ⊢
    obtain ⟨-, hkey, hcolon, hvalue, hrest⟩ := hmore
    exact ⟨marks_fit (by decide), hkey, hcolon, hvalue, hrest, marks_fit (by decide)⟩

end Separated

/-- What is printed after a value has no quotes at once. -/
theorem end_before_quote {stop : String} (hstop : stop ∈ valueEnds) {cs ds es : List Char}
    (h : stop.toList ++ cs = ds ++ '"' :: es) : stop.toList <+: ds := by
  have hquote : '"' ∉ stop.toList := by
    simp only [valueEnds, List.mem_cons, List.not_mem_nil, or_false] at hstop
    rcases hstop with rfl | rfl | rfl <;> decide
  rcases List.append_eq_append_iff.mp h with ⟨as, rfl, -⟩ | ⟨bs, hds, hes⟩
  · exact List.prefix_append ..
  · cases bs with
    | nil => exact ⟨[], by simpa using hds⟩
    | cons b bs =>
      obtain ⟨rfl, -⟩ := List.cons.inj hes
      exact absurd (hds ▸ List.mem_append_right _ List.mem_cons_self) hquote

/-- A value is imitated only with a text that breaks out of its quotes. -/
theorem not_imitates {P : String → Prop} {v w : Value} (hv : Printable P v)
    (hw : Printable (fun s => ¬BreaksOut s) w) : ¬Imitates w v := by
  rintro ⟨common, s, u, ps, qs, hps, hqs, hrest⟩
  have hend : EndsValue (marks " ]" ++ []) := ⟨" ]", by decide, [], rfl⟩
  have hseparated := separated_pieces hv _ hend ((separated_marks ..).mpr trivial)
  rw [hps, List.append_assoc, List.cons_append] at hseparated
  obtain ⟨stop, hstop, rest, hnext⟩ := separated_after hseparated
  have hchars := congrArg rendered hnext
  simp only [rendered_append, rendered_marks, hrest, List.append_assoc, List.cons_append] at hchars
  obtain ⟨more, hmore⟩ := end_before_quote hstop hchars.symm
  have hfits : ¬BreaksOut (s ++ "\"" ++ u) :=
    pieces_fit hw (.quoted (s ++ "\"" ++ u)) (by rw [hqs]; simp)
  refine hfits ⟨stop, hstop, s.toList, more, ?_⟩
  rw [String.toList_append, String.toList_append, ← hmore]
  simp

section Filters
variable {P : String → Prop}

theorem same_self {v : Value} (hv : Printable P v) : v.same v = true := by
  induction hv with
  | null => simp [Value.same]
  | int n => simp
  | text => simp
  | @list xs _ _ ih =>
    rw [Value.same]
    clear * - ih
    induction xs with
    | nil => simp [Value.sameItems]
    | cons x xs hxs =>
      obtain ⟨hx, hrest⟩ := List.forall_mem_cons.mp ih
      rw [Value.sameItems, hx, hxs hrest]
      rfl
  | @dict es _ hentry _ _ ih =>
    have hentries : Value.sameEntries es es = true := by
      rw [same_entries, List.all_eq_true]
      intro e he
      obtain ⟨s, hs, -⟩ := (hentry e he).key
      refine List.any_eq_true.mpr ⟨e, he, ?_⟩
      rw [ih e he, hs]
      simp
    simp [Value.same, hentries]

/-- The filter of a command: a document that is empty or tests something. -/
def FilterValue (P : String → Prop) (f : Value) : Prop :=
  ∃ es, f = .dict es ∧ (es ≠ [] → Printable P (.dict es))

theorem filter_cases {f : Value} (hf : FilterValue P f) : f = .dict [] ∨ Printable P f := by
  obtain ⟨es, rfl, hes⟩ := hf
  by_cases hempty : es = []
  · exact .inl (congrArg Value.dict hempty)
  · exact .inr (hes hempty)

theorem filter_pieces_fit {f : Value} (hf : FilterValue P f) : ∀ p ∈ pieces f, Fits P p := by
  rcases filter_cases hf with rfl | hf
  · exact marks_fit (by decide)
  · exact pieces_fit hf

theorem empty_pieces {g : Value} (hg : Printable P g) : pieces g ≠ pieces (.dict []) := by
  intro h
  have hlead : leadOf g = '\x7b' := by
    obtain ⟨p, ps, hp, hlead⟩ := pieces_lead hg
    rw [← hlead, (List.cons.inj (hp.symm.trans h)).1]
    rfl
  cases hg with
  | dict hes =>
    obtain ⟨e, es, rfl⟩ := List.exists_cons_of_ne_nil hes
    rw [pieces, pieces] at h
    cases (List.cons.inj (List.cons.inj h).2).1
  | _ => simp [leadOf] at hlead

theorem differs_in_text {ps qs : List Piece} (h : Parallel true ps qs) : ∃ s, .quoted s ∈ ps := by
  generalize hdiffers : true = differs at h
  induction h with
  | nil => cases hdiffers
  | cons p _ ih =>
    obtain ⟨s, hs⟩ := ih hdiffers
    exact ⟨s, List.mem_cons_of_mem p hs⟩
  | differ => exact ⟨_, List.mem_cons_self⟩

theorem differs_not_empty {f : Value} {qs : List Piece} (hf : FilterValue P f)
    (h : Parallel true (pieces f) qs) : Printable P f := by
  rcases filter_cases hf with rfl | hf
  · obtain ⟨s, hs⟩ := differs_in_text h
    simp [pieces, marks] at hs
  · exact hf

/-- Filters are printed alike only if they are equal or one imitates the other. -/
theorem filters_alike {f g : Value} (hf : FilterValue P f) (hg : FilterValue P g) :
    rendered (pieces f) = rendered (pieces g) ↔ f = g ∨ Imitates f g ∨ Imitates g f := by
  constructor
  · intro h
    rcases rendered_cases (filter_pieces_fit hf) (filter_pieces_fit hg) h with
      hpieces | himitates | himitates
    · refine .inl ?_
      rcases filter_cases hf with rfl | hf
      · rcases filter_cases hg with rfl | hg
        · rfl
        · exact absurd hpieces.symm (empty_pieces hg)
      · rcases filter_cases hg with rfl | hg
        · exact absurd hpieces (empty_pieces hf)
        · exact pieces_injective hf hg hpieces
    · exact .inr (.inr himitates)
    · exact .inr (.inl himitates)
  · rintro (rfl | himitates | himitates)
    · rfl
    · exact (imitated_rendered himitates).symm
    · exact imitated_rendered himitates

/-- A filter that imitates another is not equal to it. -/
theorem imitates_not_same {f g : Value} (hf : FilterValue P f) (hg : FilterValue P g)
    (h : Imitates f g ∨ Imitates g f) : f.same g = false := by
  have hparallel : Parallel true (pieces f) (pieces g) := by
    rcases h with h | h
    · exact (imitated_parallel h).symm
    · exact imitated_parallel h
  exact parallel_not_same (differs_not_empty hf hparallel) (differs_not_empty hg hparallel.symm)
    hparallel

theorem filter_not_imitated {f g : Value} (hf : FilterValue P f)
    (hg : FilterValue (fun s => ¬BreaksOut s) g) : ¬Imitates g f := fun h =>
  have hparallel := imitated_parallel h
  not_imitates (differs_not_empty hf hparallel) (differs_not_empty hg hparallel.symm) h

end Filters

end DocQuery.Proofs
