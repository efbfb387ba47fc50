import DocQuery.Proofs.Ranges

namespace DocQuery.Proofs

open Value (doc)

/-- A filter with one entry. -/
def single (p : String × Value) : Value := .dict [(.text p.1, p.2)]

theorem same_field_text (f key : String) :
    Command.sameField? (.text f) (.text key) = if f = key then some (.text f) else none := by
  simp [Command.sameField?, Value.kind]

/-- A search through alternatives: each must have an entry on the field with a value that fits, and
what is taken from the value is added. -/
structure FieldSearch {α : Type} (find : Value → List Value → Option (Value × α))
    (fits : Value → Prop) (add : Value → α → α) (start : α) : Prop where
  nil (n : String) : find (.text n) [] = some (.text n, start)
  first (p : String × Value) (cs : List Value) :
    find .null (single p :: cs) = find (.text p.1) (single p :: cs)
  next (n : String) (p : String × Value) (cs : List Value) (r : Value × α) :
    find (.text n) (single p :: cs) = some r ↔
      (p.1 = n ∧ fits p.2) ∧ ∃ s, find (.text n) cs = some s ∧ (s.1, add p.2 s.2) = r

section Search
variable {α : Type} {find : Value → List Value → Option (Value × α)} {fits : Value → Prop}
  {add : Value → α → α} {start : α} {ps : List (String × Value)} {r : Value × α}

theorem FieldSearch.named (h : FieldSearch find fits add start) {n : String} :
    find (.text n) (ps.map single) = some r ↔
      (∀ p ∈ ps, p.1 = n ∧ fits p.2) ∧ r = (.text n, ps.foldr (fun p => add p.2) start) := by
  induction ps generalizing r with
  | nil => simp [h.nil, eq_comm]
  | cons p ps ih =>
    rw [List.map_cons, h.next]
    simp only [ih, List.forall_mem_cons]
    constructor
    · rintro ⟨hp, s, ⟨hall, rfl⟩, rfl⟩
      exact ⟨⟨hp, hall⟩, rfl⟩
    · rintro ⟨⟨hp, hall⟩, rfl⟩
      exact ⟨hp, _, ⟨hall, rfl⟩, rfl⟩

/-- The first alternative names the field, and all others must be on it. -/
theorem FieldSearch.found (h : FieldSearch find fits add start) (hne : ps ≠ []) :
    find .null (ps.map single) = some r ↔
      ∃ n, (∀ p ∈ ps, p.1 = n ∧ fits p.2) ∧
        r = (.text n, ps.foldr (fun p => add p.2) start) := by
  obtain ⟨p, ps, rfl⟩ := List.exists_cons_of_ne_nil hne
  rw [List.map_cons, h.first, ← List.map_cons, h.named]
  refine ⟨fun h => ⟨_, h⟩, ?_⟩
  rintro ⟨n, hall, rfl⟩
  obtain rfl := (hall p List.mem_cons_self).1
  exact ⟨hall, rfl⟩

end Search

theorem equalities_search : FieldSearch Command.equalities? (·.kind ≠ .dict) List.cons [] where
  nil _ := rfl
  first p cs := by
    have hnone : Command.sameField? .null (.text p.1) = some (.text p.1) := rfl
    simp only [single, Command.equalities?, Command.single?, Option.bind_eq_bind,
      Option.bind_some, same_field_text, hnone, ↓reduceIte]
  next n p cs r := by
    obtain ⟨k, v⟩ := p
    simp only [single, Command.equalities?, Command.single?, Option.bind_eq_bind,
      Option.bind_some, same_field_text]
    by_cases hk : n = k
    · cases v <;> simp [hk, Value.kind, Option.bind_eq_some_iff]
    · cases v <;> simp [hk, Ne.symm hk]

/-- Equalities are found just if all alternatives compare one field with a value. -/
theorem equalities_iff {ps : List (String × Value)} {r : Value × List Value} (hne : ps ≠ []) :
    Command.equalities? .null (ps.map single) = some r ↔
      ∃ n, (∀ p ∈ ps, p.1 = n ∧ p.2.kind ≠ .dict) ∧ r = (.text n, ps.map (·.2)) := by
  have hvalues : ps.map (·.2) = ps.foldr (fun p => List.cons p.2) [] := List.map_eq_foldr
  rw [hvalues]
  exact equalities_search.found hne

/-- The lower bound in the tests of a field. -/
def lowOf? : Value → Option Value
  | .dict es => Entries.get? es (.text "$gt")
  | _ => none

/-- The upper bound in the tests of a field. -/
def highOf? : Value → Option Value
  | .dict es => Entries.get? es (.text "$lt")
  | _ => none

/-- A bound that is not a lower one. -/
def onlyHighOf? (v : Value) : Option Value :=
  match lowOf? v with
  | some _ => none
  | none => highOf? v

theorem only_high_some {v w : Value} (h : onlyHighOf? v = some w) : highOf? v = some w := by
  unfold onlyHighOf? at h
  split at h
  · cases h
  · exact h

theorem bounds_search : FieldSearch Command.bounds?
    (fun v => (lowOf? v).isSome ∨ (highOf? v).isSome)
    (fun v r => ((lowOf? v).toList ++ r.1, (onlyHighOf? v).toList ++ r.2)) ([], []) where
  nil _ := rfl
  first p cs := by
    have hnone : Command.sameField? .null (.text p.1) = some (.text p.1) := rfl
    simp only [single, Command.bounds?, Command.single?, Option.bind_eq_bind, Option.bind_some,
      same_field_text, hnone, ↓reduceIte]
  next n p cs r := by
    obtain ⟨k, v⟩ := p
    simp only [single, Command.bounds?, Command.single?, Option.bind_eq_bind, Option.bind_some,
      same_field_text]
    by_cases hk : n = k
    · cases v with
      | dict es =>
        simp only [lowOf?, highOf?, onlyHighOf?]
        cases hlow : Entries.get? es (.text "$gt") with
        | some low => simp [hk, Option.bind_eq_some_iff]
        | none =>
          cases hhigh : Entries.get? es (.text "$lt") with
          | some high => simp [hk, Option.bind_eq_some_iff]
          | none => simp [hk]
      | _ => simp [hk, lowOf?, highOf?]
    · simp [hk, Ne.symm hk]

theorem filter_map_cons {α β : Type} (f : α → Option β) (x : α) (xs : List α) :
    (x :: xs).filterMap f = (f x).toList ++ xs.filterMap f := by
  cases h : f x <;> simp [h]

/-- Bounds are found just if all alternatives bound one field. -/
theorem bounds_iff {ps : List (String × Value)} {r : Value × List Value × List Value}
    (hne : ps ≠ []) :
    Command.bounds? .null (ps.map single) = some r ↔
      ∃ n, (∀ p ∈ ps, p.1 = n ∧ ((lowOf? p.2).isSome ∨ (highOf? p.2).isSome)) ∧
        r = (.text n, ps.filterMap (lowOf? ·.2), ps.filterMap (onlyHighOf? ·.2)) := by
  have hfold : ∀ ps : List (String × Value), ps.foldr (fun p r => ((lowOf? p.2).toList ++ r.1,
      (onlyHighOf? p.2).toList ++ r.2)) ([], []) =
      (ps.filterMap (lowOf? ·.2), ps.filterMap (onlyHighOf? ·.2)) := by
    intro ps
    induction ps with
    | nil => rfl
    | cons p ps ih => rw [List.foldr_cons, ih, filter_map_cons, filter_map_cons]
  rw [← hfold]
  exact bounds_search.found hne

/-- Simplified alternatives: tests of one field, or all of them as they are. -/
theorem alternatives_form {flat : List Value} {g : Value}
    (h : Command.alternatives flat = .ok g) :
    (∃ field vs ws, Command.equalities? .null flat = some (field, vs) ∧
      Command.distinct vs = .ok ws ∧ g = .dict [(field, doc [("$in", .list ws)])]) ∨
    (∃ field lows highs op v, Command.bounds? .null flat = some (field, lows, highs) ∧
      (op = "$gt" ∨ op = "$lt") ∧ v ∈ lows ++ highs ∧ g = .dict [(field, doc [(op, v)])]) ∨
    (Command.equalities? .null flat = none ∧ g = doc [("$or", .list flat)] ∧
      ∀ field lows highs, Command.bounds? .null flat = some (field, lows, highs) →
        lows = [] ∧ highs = []) := by
  unfold Command.alternatives at h
  cases he : Command.equalities? .null flat with
  | some found =>
    obtain ⟨field, vs⟩ := found
    rw [he] at h
    simp only [bind_ok] at h
    obtain ⟨ws, hws, hx⟩ := h
    cases hx
    exact .inl ⟨field, vs, ws, rfl, hws, rfl⟩
  | none =>
    rw [he] at h
    cases hb : Command.bounds? .null flat with
    | none =>
      rw [hb] at h
      cases h
      exact .inr (.inr ⟨rfl, rfl, by simp⟩)
    | some found =>
      obtain ⟨field, lows, highs⟩ := found
      rw [hb] at h
      cases lows with
      | cons low lows =>
        simp only [bind_ok] at h
        obtain ⟨v, hv, hx⟩ := h
        cases hx
        exact .inr (.inl ⟨field, low :: lows, highs, _, v, rfl, .inl rfl,
          List.mem_append_left highs (least_extreme.mem hv), rfl⟩)
      | nil =>
        cases highs with
        | cons high highs =>
          simp only [bind_ok] at h
          obtain ⟨v, hv, hx⟩ := h
          cases hx
          exact .inr (.inl ⟨field, [], high :: highs, _, v, rfl, .inr rfl,
            greatest_extreme.mem hv, rfl⟩)
        | nil =>
          cases h
          exact .inr (.inr ⟨rfl, rfl, by simp⟩)

end DocQuery.Proofs
