import DocQuery.Proofs.Grammar
import DocQuery.Proofs.Parsed

namespace DocQuery.Proofs

open Sql

/-- What is left starts with none of some kinds of lexemes. -/
def Stops (ps : List Part) (ls : Lexemes) : Prop := ∀ l ∈ ls.head?, lexemePart l ∉ ps

theorem Stops.nil (ps : List Part) : Stops ps [] := by simp [Stops]

theorem Stops.mono {ps qs : List Part} {ls : Lexemes} (h : Stops ps ls) (hsub : qs ⊆ ps) :
    Stops qs ls :=
  fun l hl hq => h l hl (hsub hq)

/-- Trees with their yield, what each of them means, how their yields start, whether these may be
empty, and how they might go on. -/
structure Phrase (α : Type) where
  Tree : Type
  yield : Tree → Lexemes
  means : Tree → α → Prop
  first : List Part
  nullable : Bool
  next : List Part

/-- A reader for a phrase. The bound is on the yields for which it is one. -/
structure Exact {α : Type} (bound : Nat) (f : Phrase α) (read : Reader α) : Prop where
  starts : ∀ t, (∃ l ls, f.yield t = l :: ls ∧ lexemePart l ∈ f.first) ∨
    (f.nullable = true ∧ f.yield t = [])
  sound : ∀ {ls x rest}, (∀ l ∈ ls, Spelled l) → read ls = .ok (x, rest) →
    ∃ t, ls = f.yield t ++ rest ∧ f.means t x
  complete : ∀ t {rest}, (f.yield t).length ≤ bound → Stops f.next rest →
    ∃ x, read (f.yield t ++ rest) = .ok (x, rest)
  unique : ∀ {t u}, (f.yield t).length ≤ bound → f.yield t = f.yield u → t = u

section

variable {α β : Type} {n : Nat} {f : Phrase α} {g : Phrase β} {r : Reader α} {s : Reader β}

/-- A phrase ends what may not go on with it. -/
theorem Exact.stops (h : Exact n f r) (t : f.Tree) {ps : List Part} {rest : Lexemes}
    (hfirst : ∀ p ∈ f.first, p ∉ ps) (hnull : f.nullable = true → Stops ps rest) :
    Stops ps (f.yield t ++ rest) := by
  rcases h.starts t with ⟨l, ls, hl, hmem⟩ | ⟨hn, hnil⟩
  · rw [hl]
    intro m hm
    obtain rfl : l = m := by simpa using hm
    exact hfirst _ hmem
  · rw [hnil]
    exact hnull hn

/-- There is one way to take a tree from the front of some lexemes. -/
theorem Exact.split (h : Exact n f r) {t u : f.Tree} {rest rest' : Lexemes}
    (ht : (f.yield t).length ≤ n) (hu : (f.yield u).length ≤ n) (hrest : Stops f.next rest)
    (hrest' : Stops f.next rest') (he : f.yield t ++ rest = f.yield u ++ rest') :
    t = u ∧ rest = rest' := by
  obtain ⟨x, hx⟩ := h.complete t ht hrest
  obtain ⟨y, hy⟩ := h.complete u hu hrest'
  rw [he, hy] at hx
  obtain ⟨-, rfl⟩ := Prod.mk.inj (Except.ok.inj hx)
  exact ⟨h.unique ht (List.append_cancel_right he), rfl⟩

/-- Takes one lexeme. -/
def takeOne (take : Lexeme → Option α) : Reader α
  | l :: ls =>
    match take l with
    | some x => .ok (x, ls)
    | none => Read.stuck (l :: ls)
  | [] => Read.stuck []

/-- Trees with one leaf. -/
theorem Exact.one (take : Lexeme → Option α) (hread : ∀ ls, r ls = takeOne take ls)
    (hleaf : ∀ t, ∃ l x, f.yield t = [l] ∧ lexemePart l ∈ f.first ∧ take l = some x)
    (htree : ∀ l x, Spelled l → take l = some x → ∃ t, f.yield t = [l] ∧ f.means t x)
    (hunique : ∀ t u, f.yield t = f.yield u → t = u) : Exact n f r where
  starts t := by
    obtain ⟨l, x, hl, hmem, -⟩ := hleaf t
    exact .inl ⟨l, [], hl, hmem⟩
  sound := by
    intro ls x rest hs hr
    rw [hread] at hr
    unfold takeOne at hr
    split at hr
    · rename_i l ls
      split at hr
      · rename_i hl
        cases hr
        obtain ⟨t, ht, hm⟩ := htree l x (hs l List.mem_cons_self) hl
        exact ⟨t, by rw [ht]; rfl, hm⟩
      · cases hr
    · cases hr
  complete t rest _ _ := by
    obtain ⟨l, x, hl, -, hx⟩ := hleaf t
    exact ⟨x, by rw [hread, hl]; simp [takeOne, hx]⟩
  unique := fun _ he => hunique _ _ he

/-- Whether a phrase starts and goes on as another one may. -/
def Phrase.within (f : Phrase α) (g : Phrase β) : Bool :=
  f.first.all g.first.contains && (!f.nullable || g.nullable) && f.next.all g.next.contains

/-- Trees of one kind may stand for those of another one. -/
theorem Exact.map {g : Phrase β} (h : Exact n f r) {read : Reader β} (build : f.Tree → g.Tree)
    (meaning : α → β) (hread : ∀ ls, read ls = r ls >>= fun p => .ok (meaning p.1, p.2))
    (hyield : ∀ t, g.yield (build t) = f.yield t) (honto : ∀ u, ∃ t, build t = u)
    (hmeans : ∀ t x, f.means t x → g.means (build t) (meaning x)) (hfg : f.within g = true) :
    Exact n g read := by
  obtain ⟨⟨hfirst, hnull⟩, hnext⟩ : (f.first ⊆ g.first ∧ (f.nullable = true → g.nullable = true)) ∧
      f.next ⊆ g.next := by
    simpa [Phrase.within, List.subset_def, ← Bool.not_eq_true, imp_iff_not_or] using hfg
  constructor
  case starts =>
    intro u
    obtain ⟨t, rfl⟩ := honto u
    rw [hyield]
    rcases h.starts t with ⟨l, ls, hl, hmem⟩ | ⟨hn, hnil⟩
    · exact .inl ⟨l, ls, hl, hfirst hmem⟩
    · exact .inr ⟨hnull hn, hnil⟩
  case sound =>
    intro ls y rest hs hr
    rw [hread] at hr
    simp only [bind_ok, Prod.exists] at hr
    obtain ⟨x, ls', hx, he⟩ := hr
    cases he
    obtain ⟨t, ht, hm⟩ := h.sound hs hx
    exact ⟨build t, by rw [hyield, ht], hmeans t x hm⟩
  case complete =>
    intro u rest hb hrest
    obtain ⟨t, rfl⟩ := honto u
    rw [hyield] at hb ⊢
    obtain ⟨x, hx⟩ := h.complete t hb (hrest.mono hnext)
    exact ⟨meaning x, by rw [hread, hx]; rfl⟩
  case unique =>
    intro u v hb he
    obtain ⟨t, rfl⟩ := honto u
    obtain ⟨w, rfl⟩ := honto v
    rw [hyield] at hb
    rw [hyield, hyield] at he
    rw [h.unique hb he]

/-- One phrase after another one. -/
def Phrase.pair (f : Phrase α) (g : Phrase β) : Phrase (α × β) where
  Tree := f.Tree × g.Tree
  yield t := f.yield t.1 ++ g.yield t.2
  means t x := f.means t.1 x.1 ∧ g.means t.2 x.2
  first := if f.nullable then f.first ++ g.first else f.first
  nullable := f.nullable && g.nullable
  next := if g.nullable then f.next ++ g.next else g.next

/-- Whether no start of a phrase could continue the one before it. -/
def Phrase.before (f : Phrase α) (g : Phrase β) : Bool :=
  g.first.all fun p => !f.next.contains p

def andThen (r : Reader α) (s : Reader β) : Reader (α × β) := fun ls => do
  let (x, ls) ← r ls
  let (y, ls) ← s ls
  return ((x, y), ls)

theorem and_then_bind {γ : Type} (r : Reader α) (s : Reader β) (ls : Lexemes)
    (k : (α × β) × Lexemes → Except Nat γ) :
    andThen r s ls >>= k = r ls >>= fun p => s p.2 >>= fun q => k ((p.1, q.1), q.2) := by
  unfold andThen
  cases r ls with
  | error e => rfl
  | ok p =>
    simp only [ok_bind]
    cases s p.2 <;> rfl

theorem Phrase.before_stops {f : Phrase α} {g : Phrase β} (hfg : f.before g = true)
    (hg : Exact n g s) (t : g.Tree) {rest : Lexemes} (hrest : Stops (f.pair g).next rest) :
    Stops f.next (g.yield t ++ rest) := by
  refine hg.stops t (fun p hp => ?_) fun hn => hrest.mono fun p hp => ?_
  · simpa using List.all_eq_true.mp hfg p hp
  · simp [Phrase.pair, hn, hp]

/-- The second reader may have a bound of its own, as small as the first one makes it. -/
theorem Exact.pairWithin {m : Nat} (hf : Exact n f r) (hg : Exact m g s)
    (hfg : f.before g = true)
    (hm : ∀ t u, (f.yield t).length + (g.yield u).length ≤ n → (g.yield u).length ≤ m) :
    Exact n (f.pair g) (andThen r s) where
  starts t := by
    rcases hf.starts t.1 with ⟨l, ls, hl, hmem⟩ | ⟨hn, hnil⟩
    · refine .inl ⟨l, ls ++ g.yield t.2, by simp [Phrase.pair, hl], ?_⟩
      simp only [Phrase.pair]
      split
      · exact List.mem_append_left _ hmem
      · exact hmem
    · rcases hg.starts t.2 with ⟨l, ls, hl, hmem⟩ | ⟨hn', hnil'⟩
      · exact .inl ⟨l, ls, by simp [Phrase.pair, hnil, hl],
          by simp [Phrase.pair, hn, hmem]⟩
      · exact .inr ⟨by simp [Phrase.pair, hn, hn'], by simp [Phrase.pair, hnil, hnil']⟩
  sound := by
    intro ls x rest hs hr
    simp only [andThen, bind_ok, Prod.exists] at hr
    obtain ⟨x, ls₁, hx, y, ls₂, hy, he⟩ := hr
    cases he
    obtain ⟨t, rfl, ht⟩ := hf.sound hs hx
    obtain ⟨u, rfl, hu⟩ := hg.sound (fun l hl => hs l (List.mem_append_right _ hl)) hy
    exact ⟨(t, u), (List.append_assoc _ _ _).symm, ht, hu⟩
  complete t rest hb hrest := by
    have hlength : (f.yield t.1).length + (g.yield t.2).length ≤ n := by
      simpa [Phrase.pair] using hb
    have hlast : g.next ⊆ (f.pair g).next := by
      simp only [Phrase.pair]
      split
      · exact List.subset_append_right _ _
      · exact fun p hp => hp
    obtain ⟨y, hy⟩ := hg.complete t.2 (hm _ _ hlength) (hrest.mono hlast)
    obtain ⟨x, hx⟩ := hf.complete t.1 (by omega) (Phrase.before_stops hfg hg t.2 hrest)
    refine ⟨(x, y), ?_⟩
    simp only [Phrase.pair, List.append_assoc, andThen, hx, hy, ok_bind]
    rfl
  unique := by
    intro t u hb he
    have hlength : (f.yield t.1).length + (g.yield t.2).length ≤ n := by
      simpa [Phrase.pair] using hb
    have hlength' : (f.yield u.1).length + (g.yield u.2).length ≤ n := by
      have := congrArg List.length he
      simp only [Phrase.pair, List.length_append] at this
      omega
    have hstops := fun t : g.Tree => Phrase.before_stops hfg hg t (Stops.nil _)
    simp only [List.append_nil] at hstops
    obtain ⟨hleft, hright⟩ :=
      hf.split (by omega) (by omega) (hstops t.2) (hstops u.2) he
    exact Prod.ext hleft (hg.unique (hm _ _ hlength) hright)

theorem Exact.pair (hf : Exact n f r) (hg : Exact n g s) (hfg : f.before g = true) :
    Exact n (f.pair g) (andThen r s) :=
  hf.pairWithin hg hfg fun _ _ h => by omega

/-- One of two phrases. -/
def Phrase.either (f : Phrase α) (g : Phrase β) : Phrase (α ⊕ β) where
  Tree := f.Tree ⊕ g.Tree
  yield := Sum.elim f.yield g.yield
  means t x := Sum.LiftRel f.means g.means t x
  first := f.first ++ g.first
  nullable := f.nullable || g.nullable
  next := f.next ++ g.next

def choose (test : Lexemes → Bool) (r : Reader α) (s : Reader β) : Reader (α ⊕ β) := fun ls =>
  if test ls then do
    let (x, ls) ← r ls
    return (.inl x, ls)
  else do
    let (x, ls) ← s ls
    return (.inr x, ls)

theorem choose_bind {γ : Type} (test : Lexemes → Bool) (r : Reader α) (s : Reader β)
    (ls : Lexemes) (k : (α ⊕ β) × Lexemes → Except Nat γ) :
    choose test r s ls >>= k =
      if test ls then r ls >>= fun p => k (.inl p.1, p.2)
      else s ls >>= fun p => k (.inr p.1, p.2) := by
  unfold choose
  split
  · cases r ls <;> rfl
  · cases s ls <;> rfl

theorem Exact.either (hf : Exact n f r) (hg : Exact n g s) (test : Lexemes → Bool)
    (htrue : ∀ t rest, Stops (f.next ++ g.next) rest → test (f.yield t ++ rest) = true)
    (hfalse : ∀ t rest, Stops (f.next ++ g.next) rest → test (g.yield t ++ rest) = false) :
    Exact n (f.either g) (choose test r s) where
  starts t := by
    cases t with
    | inl t =>
      rcases hf.starts t with ⟨l, ls, hl, hmem⟩ | ⟨hn, hnil⟩
      · exact .inl ⟨l, ls, hl, List.mem_append_left _ hmem⟩
      · exact .inr ⟨by simp [Phrase.either, hn], hnil⟩
    | inr t =>
      rcases hg.starts t with ⟨l, ls, hl, hmem⟩ | ⟨hn, hnil⟩
      · exact .inl ⟨l, ls, hl, List.mem_append_right _ hmem⟩
      · exact .inr ⟨by simp [Phrase.either, hn], hnil⟩
  sound := by
    intro ls x rest hs hr
    unfold choose at hr
    split at hr
    · simp only [bind_ok, Prod.exists] at hr
      obtain ⟨y, ls', hy, he⟩ := hr
      cases he
      obtain ⟨t, ht, hm⟩ := hf.sound hs hy
      exact ⟨.inl t, ht, .inl hm⟩
    · simp only [bind_ok, Prod.exists] at hr
      obtain ⟨y, ls', hy, he⟩ := hr
      cases he
      obtain ⟨t, ht, hm⟩ := hg.sound hs hy
      exact ⟨.inr t, ht, .inr hm⟩
  complete t rest hb hrest := by
    cases t with
    | inl t =>
      obtain ⟨x, hx⟩ := hf.complete t hb (hrest.mono (List.subset_append_left _ _))
      refine ⟨.inl x, ?_⟩
      simp only [Phrase.either, Sum.elim_inl, choose, htrue t rest hrest, ↓reduceIte, hx, ok_bind]
      rfl
    | inr t =>
      obtain ⟨x, hx⟩ := hg.complete t hb (hrest.mono (List.subset_append_right _ _))
      refine ⟨.inr x, ?_⟩
      simp only [Phrase.either, Sum.elim_inr, choose, hfalse t rest hrest, Bool.false_eq_true,
        ↓reduceIte, hx, ok_bind]
      rfl
  unique := by
    -- The test tells the two kinds of trees apart by their yields.
    have hdiffer : ∀ t u, f.yield t ≠ g.yield u := by
      intro t u he
      have hyes := htrue t [] (Stops.nil _)
      rw [he, hfalse u [] (Stops.nil _)] at hyes
      cases hyes
    intro t u hb he
    cases t with
    | inl t =>
      cases u with
      | inl u => exact congrArg Sum.inl (hf.unique hb he)
      | inr u => exact absurd he (hdiffer t u)
    | inr t =>
      cases u with
      | inl u => exact absurd he.symm (hdiffer u t)
      | inr u => exact congrArg Sum.inr (hg.unique hb he)

/-- Whether some lexemes start with one of a kind. -/
def startsWith (ps : List Part) (ls : Lexemes) : Bool :=
  ls.head?.any fun l => ps.contains (lexemePart l)

theorem starts_with_stops {ps : List Part} {ls : Lexemes} (h : Stops ps ls) :
    startsWith ps ls = false := by
  cases ls with
  | nil => rfl
  | cons l ls =>
    have hl := h l (by simp)
    simpa [startsWith] using hl

theorem Exact.cons (hf : Exact n f r) (hnull : f.nullable = false) (t : f.Tree) :
    ∃ l ls, f.yield t = l :: ls ∧ lexemePart l ∈ f.first := by
  rcases hf.starts t with hcons | ⟨hn, -⟩
  · exact hcons
  · simp [hnull] at hn

theorem Exact.starts_with (hf : Exact n f r) (hnull : f.nullable = false) (t : f.Tree)
    (rest : Lexemes) : startsWith f.first (f.yield t ++ rest) = true := by
  obtain ⟨l, ls, hl, hmem⟩ := hf.cons hnull t
  simp [hl, startsWith, hmem]

/-- A choice by the next lexeme between two phrases that are never empty. -/
theorem Exact.choice (hf : Exact n f r) (hg : Exact n g s) (hfnull : f.nullable = false)
    (hgnull : g.nullable = false) (hfirst : ∀ p ∈ g.first, p ∉ f.first) :
    Exact n (f.either g) (choose (startsWith f.first) r s) := by
  refine hf.either hg _ (fun t rest _ => hf.starts_with hfnull t rest) fun t rest _ => ?_
  exact starts_with_stops (hg.stops t hfirst (by simp [hgnull]))

/-- A phrase, or nothing. -/
def Phrase.optional (f : Phrase α) : Phrase (Option α) where
  Tree := Option f.Tree
  yield t := t.elim [] f.yield
  means t x := Option.Rel f.means t x
  first := f.first
  nullable := true
  next := f.first ++ f.next

def optionally (first : List Part) (r : Reader α) : Reader (Option α) := fun ls =>
  if startsWith first ls then do
    let (x, ls) ← r ls
    return (some x, ls)
  else .ok (none, ls)

theorem optionally_bind {γ : Type} (first : List Part) (r : Reader α) (ls : Lexemes)
    (k : Option α × Lexemes → Except Nat γ) :
    optionally first r ls >>= k =
      if startsWith first ls then r ls >>= fun p => k (some p.1, p.2) else k (none, ls) := by
  unfold optionally
  split
  · cases r ls <;> rfl
  · rfl

theorem Exact.optional (hf : Exact n f r) (hnull : f.nullable = false) :
    Exact n f.optional (optionally f.first r) where
  starts t := by
    cases t with
    | none => exact .inr ⟨rfl, rfl⟩
    | some t => exact .inl (hf.cons hnull t)
  sound := by
    intro ls x rest hs hr
    unfold optionally at hr
    split at hr
    · simp only [bind_ok, Prod.exists] at hr
      obtain ⟨y, ls', hy, he⟩ := hr
      cases he
      obtain ⟨t, ht, hm⟩ := hf.sound hs hy
      exact ⟨some t, ht, .some hm⟩
    · cases hr
      exact ⟨none, rfl, .none⟩
  complete t rest hb hrest := by
    cases t with
    | none =>
      have hstop := starts_with_stops (hrest.mono (List.subset_append_left _ _))
      exact ⟨none, by simp [Phrase.optional, optionally, hstop]⟩
    | some t =>
      obtain ⟨x, hx⟩ := hf.complete t hb (hrest.mono (List.subset_append_right _ _))
      refine ⟨some x, ?_⟩
      simp only [Phrase.optional, Option.elim_some, optionally, hf.starts_with hnull, ↓reduceIte,
        hx, ok_bind]
      rfl
  unique := by
    have hcons : ∀ t, f.yield t ≠ [] := by
      intro t hnil
      obtain ⟨l, ls, hl, -⟩ := hf.cons hnull t
      simp [hl] at hnil
    intro t u hb he
    cases t with
    | none =>
      cases u with
      | none => rfl
      | some u => exact absurd he.symm (hcons u)
    | some t =>
      cases u with
      | none => exact absurd he (hcons t)
      | some u => exact congrArg some (hf.unique hb he)

end

section

variable {α : Type} {n : Nat} {f : Phrase α} {r : Reader α}

/-- Any number of times a phrase that is never empty. -/
def Phrase.many (f : Phrase α) : Phrase (List α) where
  Tree := List f.Tree
  yield ts := ts.flatMap f.yield
  means ts xs := List.Forall₂ f.means ts xs
  first := f.first
  nullable := true
  next := f.first ++ f.next

/-- Reads on as long as the next lexeme allows. -/
def repeated (first : List Part) (item : Reader α) : Nat → Reader (List α)
  | n + 1, ls =>
    if startsWith first ls then do
      let (x, ls) ← item ls
      let (xs, ls) ← repeated first item n ls
      return (x :: xs, ls)
    else .ok ([], ls)
  | 0, ls => .ok ([], ls)

theorem repeated_bind {γ : Type} (first : List Part) (item : Reader α) (fuel : Nat) (ls : Lexemes)
    (k : List α × Lexemes → Except Nat γ) :
    repeated first item (fuel + 1) ls >>= k =
      if startsWith first ls then
        item ls >>= fun p => repeated first item fuel p.2 >>= fun q => k (p.1 :: q.1, q.2)
      else k ([], ls) := by
  rw [repeated]
  split
  · cases item ls with
    | error e => rfl
    | ok p =>
      simp only [ok_bind]
      cases repeated first item fuel p.2 <;> rfl
  · rfl

theorem repeated_sound (hf : Exact n f r) {fuel : Nat} {ls rest : Lexemes} {xs : List α}
    (hs : ∀ l ∈ ls, Spelled l) (hr : repeated f.first r fuel ls = .ok (xs, rest)) :
    ∃ ts : List f.Tree, ls = ts.flatMap f.yield ++ rest ∧ List.Forall₂ f.means ts xs := by
  induction fuel generalizing ls xs with
  | zero =>
    cases hr
    exact ⟨[], rfl, .nil⟩
  | succ fuel ih =>
    unfold repeated at hr
    split at hr
    · simp only [bind_ok, Prod.exists] at hr
      obtain ⟨x, ls₁, hx, ys, ls₂, hys, he⟩ := hr
      cases he
      obtain ⟨t, rfl, ht⟩ := hf.sound hs hx
      obtain ⟨ts, rfl, hts⟩ := ih (fun l hl => hs l (List.mem_append_right _ hl)) hys
      exact ⟨t :: ts, by simp, .cons ht hts⟩
    · cases hr
      exact ⟨[], rfl, .nil⟩

/-- What follows an item: other items or what is left. -/
theorem many_stops (hf : Exact n f r) (hnull : f.nullable = false)
    (hfirst : ∀ p ∈ f.first, p ∉ f.next) (ts : List f.Tree) {rest : Lexemes}
    (hrest : Stops (f.first ++ f.next) rest) : Stops f.next (ts.flatMap f.yield ++ rest) := by
  cases ts with
  | nil => exact hrest.mono (List.subset_append_right _ _)
  | cons t ts =>
    rw [List.flatMap_cons, List.append_assoc]
    exact hf.stops t hfirst (by simp [hnull])

theorem repeated_complete (hf : Exact n f r) (hnull : f.nullable = false)
    (hfirst : ∀ p ∈ f.first, p ∉ f.next) {fuel : Nat} (ts : List f.Tree) {rest : Lexemes}
    (hfuel : ts.length ≤ fuel) (hb : (ts.flatMap f.yield).length ≤ n)
    (hrest : Stops (f.first ++ f.next) rest) :
    ∃ xs, repeated f.first r fuel (ts.flatMap f.yield ++ rest) = .ok (xs, rest) := by
  induction ts generalizing fuel with
  | nil =>
    refine ⟨[], ?_⟩
    have hstop := starts_with_stops (hrest.mono (List.subset_append_left _ _))
    cases fuel with
    | zero => rfl
    | succ fuel => simp [repeated, hstop]
  | cons t ts ih =>
    obtain ⟨fuel, rfl⟩ : ∃ m, fuel = m + 1 := ⟨fuel - 1, by simp at hfuel; omega⟩
    have hlength : (f.yield t).length + (ts.flatMap f.yield).length ≤ n := by
      simpa using hb
    obtain ⟨xs, hxs⟩ := ih (by simpa using hfuel) (by omega)
    obtain ⟨x, hx⟩ := hf.complete t (by omega) (many_stops hf hnull hfirst ts hrest)
    refine ⟨x :: xs, ?_⟩
    rw [List.flatMap_cons, List.append_assoc, repeated, hf.starts_with hnull, if_pos rfl, hx,
      ok_bind]
    simp only [hxs, ok_bind]
    rfl

theorem many_unique (hf : Exact n f r) (hnull : f.nullable = false)
    (hfirst : ∀ p ∈ f.first, p ∉ f.next) {ts us : List f.Tree}
    (hb : (ts.flatMap f.yield).length ≤ n) (he : ts.flatMap f.yield = us.flatMap f.yield) :
    ts = us := by
  have hcons : ∀ (t : f.Tree) (ts : List f.Tree), (t :: ts).flatMap f.yield ≠ [] := by
    intro t ts hnil
    obtain ⟨l, ls, hl, -⟩ := hf.cons hnull t
    simp [hl] at hnil
  induction ts generalizing us with
  | nil =>
    cases us with
    | nil => rfl
    | cons u us => exact absurd he.symm (hcons u us)
  | cons t ts ih =>
    cases us with
    | nil => exact absurd he (hcons t ts)
    | cons u us =>
      have hstops := fun ts : List f.Tree => many_stops hf hnull hfirst ts (Stops.nil _)
      simp only [List.append_nil] at hstops
      have hlengths := congrArg List.length he
      simp only [List.flatMap_cons, List.length_append] at hb hlengths
      obtain ⟨rfl, hrest⟩ := hf.split (by omega) (by omega) (hstops ts) (hstops us) he
      rw [ih (by omega) hrest]

theorem Exact.many (hf : Exact n f r) (hnull : f.nullable = false)
    (hfirst : ∀ p ∈ f.first, p ∉ f.next) :
    Exact n f.many (fun ls => repeated f.first r ls.length ls) where
  starts ts := by
    cases ts with
    | nil => exact .inr ⟨rfl, rfl⟩
    | cons t ts =>
      obtain ⟨l, ls, hl, hmem⟩ := hf.cons hnull t
      exact .inl ⟨l, ls ++ ts.flatMap f.yield, by simp [Phrase.many, hl], hmem⟩
  sound hs hr := repeated_sound hf hs hr
  complete ts rest hb hrest := by
    refine repeated_complete hf hnull hfirst ts ?_ hb hrest
    have hone : ∀ t, 1 ≤ (f.yield t).length := by
      intro t
      obtain ⟨l, ls, hl, -⟩ := hf.cons hnull t
      simp [hl]
    have hlist : ts.length ≤ (ts.flatMap f.yield).length := by
      clear hb hrest
      induction ts with
      | nil => simp
      | cons t ts ih =>
        have := hone t
        simp only [List.flatMap_cons, List.length_append, List.length_cons]
        omega
    simp only [Phrase.many, List.length_append]
    omega
  unique hb he := many_unique hf hnull hfirst hb he

end

section

variable {α β γ : Type} {n : Nat} {f : Phrase α} {g : Phrase β} {h : Phrase γ} {r : Reader α}
  {s : Reader β} {base : f.Tree → h.Tree} {step : h.Tree → g.Tree → h.Tree}

theorem yield_folded (hstep : ∀ d u, h.yield (step d u) = h.yield d ++ g.yield u) (d : h.Tree)
    (us : List g.Tree) : h.yield (us.foldl step d) = h.yield d ++ us.flatMap g.yield := by
  induction us generalizing d with
  | nil => simp
  | cons u us ih => rw [List.foldl_cons, ih, hstep, List.flatMap_cons, List.append_assoc]

/-- Every tree is a spine: its steps are undone one by one, and each of them gives up lexemes. -/
theorem spine_onto (hg : Exact n g s) (hnull : g.nullable = false)
    (hstep : ∀ d u, h.yield (step d u) = h.yield d ++ g.yield u)
    (hlast : ∀ d, (∃ t, base t = d) ∨ ∃ d' u, step d' u = d) (d : h.Tree) :
    ∃ t us, List.foldl step (base t) us = d := by
  induction hlength : (h.yield d).length using Nat.strong_induction_on generalizing d with
  | _ length ih =>
    rcases hlast d with ⟨t, rfl⟩ | ⟨d', u, rfl⟩
    · exact ⟨t, [], rfl⟩
    · obtain ⟨l, ls, hl, -⟩ := hg.cons hnull u
      have hless : (h.yield d').length < length := by
        rw [← hlength, hstep, hl]
        simp
      obtain ⟨t, us, rfl⟩ := ih _ hless d' rfl
      exact ⟨t, us ++ [u], by simp⟩

theorem means_folded {extend : γ → β → γ}
    (hmeans : ∀ {d u y x}, h.means d y → g.means u x → h.means (step d u) (extend y x))
    {d : h.Tree} {y : γ} (hd : h.means d y) {us : List g.Tree} {xs : List β}
    (hus : List.Forall₂ g.means us xs) : h.means (us.foldl step d) (xs.foldl extend y) := by
  induction hus generalizing d y with
  | nil => exact hd
  | cons hu hus ih => exact ih (hmeans hd hu)

/-- A left recursion: a first part, then steps that each put one more part at the end. -/
theorem Exact.leftRecursive (hf : Exact n f r) (hg : Exact n g s) {read : Reader γ}
    (base : f.Tree → h.Tree) (step : h.Tree → g.Tree → h.Tree) (start : α → γ)
    (extend : γ → β → γ) (hnull : g.nullable = false) (hfg : f.before g.many = true)
    (hgg : g.before g = true)
    (hread : ∀ ls, read ls = andThen r (fun ls => repeated g.first s ls.length ls) ls >>=
      fun p => .ok (p.1.2.foldl extend (start p.1.1), p.2))
    (hbase : ∀ t, h.yield (base t) = f.yield t)
    (hstep : ∀ d u, h.yield (step d u) = h.yield d ++ g.yield u)
    (hlast : ∀ d, (∃ t, base t = d) ∨ ∃ d' u, step d' u = d)
    (hstart : ∀ {t x}, f.means t x → h.means (base t) (start x))
    (hmeans : ∀ {d u y x}, h.means d y → g.means u x → h.means (step d u) (extend y x))
    (hwithin : (f.pair g.many).within h = true) : Exact n h read := by
  have hfirst : ∀ p ∈ g.first, p ∉ g.next := fun p hp => by
    simpa using List.all_eq_true.mp hgg p hp
  refine (hf.pair (hg.many hnull hfirst) hfg).map (fun t => t.2.foldl step (base t.1))
    (fun x => x.2.foldl extend (start x.1)) hread ?_ ?_ ?_ hwithin
  · rintro ⟨t, us⟩
    have hspine := yield_folded hstep (base t) us
    rw [hbase] at hspine
    exact hspine
  · intro d
    obtain ⟨t, us, he⟩ := spine_onto hg hnull hstep hlast d
    exact ⟨(t, us), he⟩
  · rintro t x ⟨ht, hus⟩
    exact means_folded hmeans (hstart ht) hus

end

end DocQuery.Proofs
