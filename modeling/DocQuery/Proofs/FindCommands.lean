import DocQuery.Proofs.Accepted
import DocQuery.Proofs.Rendering

namespace DocQuery.Proofs

open Sql
open Value (doc)

theorem term_no_subquery {c : Condition} (hc : Term c) (hl : isLiteral c = true) :
    Command.hasSubquery c.toValue = false := by
  cases hc with
  | compare hc =>
    rw [Condition.toValue, Command.hasSubquery]
    exact relation_not_subquery _
  | aggregate ha =>
    rw [Condition.toValue, Command.hasSubquery]
    exact relation_not_subquery _
  | between hc => simp [Condition.toValue, Command.hasSubquery]
  | inList hc => simp [Condition.toValue, Command.hasSubquery]
  | inQuery hc => simp [isLiteral] at hl

theorem comb_no_subquery {c : Condition} (hc : Comb c) (hl : isLiteral c = true) :
    Command.hasSubquery c.toValue = false := by
  induction hc with
  | term ht => exact term_no_subquery ht hl
  | @connect l w r _ _ hr ih =>
    simp only [isLiteral, Bool.and_eq_true] at hl
    simp [Condition.toValue, Command.hasSubquery, ih hl.1, term_no_subquery hr hl.2]

theorem shell_list {xs : List Value} (h : ∀ x ∈ xs, Succeeds (Command.shellText x)) :
    Succeeds (Command.shellText (.list xs)) := by
  have hitems : Succeeds (Command.shellItems xs) := by
    induction xs with
    | nil => exact .ok _
    | cons x xs ih =>
      obtain ⟨hx, hxs⟩ := List.forall_mem_cons.mp h
      rw [Command.shellItems]
      exact .bind hx fun _ => .bind (ih hxs) fun _ => .ok _
  rw [Command.shellText]
  exact .bind hitems fun _ => .ok _

theorem shell_dict {es : Entries}
    (h : ∀ e ∈ es, Succeeds e.1.str ∧ Succeeds (Command.shellText e.2)) :
    Succeeds (Command.shellText (.dict es)) := by
  have hentries : Succeeds (Command.shellEntries es) := by
    induction es with
    | nil => exact .ok _
    | cons e es ih =>
      obtain ⟨he, hes⟩ := List.forall_mem_cons.mp h
      rw [Command.shellEntries]
      exact .bind he.2 fun _ => .bind he.1 fun _ => .bind (ih hes) fun _ => .ok _
  rw [Command.shellText]
  exact .bind hentries fun _ => .ok _

theorem shell_scalar (v : Scalar) : Succeeds (Command.shellText v.toValue) := by
  cases v <;> exact .ok _

/-- What a command that finds documents is made of, apart from its text. -/
structure FindParts where
  collection : Value
  filter : Value
  projection : Value
  sort? : Option Value
  limit? : Option Value

namespace FindParts

def toValue (parts : FindParts) (string : String) : Value :=
  doc ([("string", .text string), ("collection", parts.collection), ("filter", parts.filter),
    ("projection", parts.projection)] ++ Command.tailEntries parts.sort? parts.limit?)

/-- All parts but the filter have texts. -/
structure Shown (parts : FindParts) : Prop where
  collection : Succeeds parts.collection.str
  projection : parts.projection.present = true → Succeeds (Command.shellText parts.projection)
  sort : ∀ s, parts.sort? = some s → Succeeds (Command.shellText s)
  limit : ∀ n, parts.limit? = some n → Succeeds n.str

end FindParts

theorem tail_text_parts {sort? limit? : Option Value} {text : String}
    (h : Command.tailText sort? limit? = .ok text) :
    (∀ s, sort? = some s → Succeeds (Command.shellText s)) ∧
      ∀ n, limit? = some n → Succeeds n.str := by
  cases sort? with
  | none =>
    cases limit? with
    | none => simp
    | some n =>
      simp only [Command.tailText, pure_ok, ok_bind, bind_ok] at h
      obtain ⟨l, hl, -⟩ := h
      exact ⟨by simp, by simpa using ⟨l, hl⟩⟩
  | some s =>
    simp only [Command.tailText, bind_ok] at h
    obtain ⟨t, ht, _, _, h⟩ := h
    refine ⟨by simpa using ⟨t, ht⟩, ?_⟩
    cases limit? with
    | none => simp
    | some n =>
      simp only [bind_ok] at h
      obtain ⟨l, hl, -⟩ := h
      simpa using ⟨l, hl⟩

theorem find_command_parts {base? : Option Value} {p : SelectOf Value} {command : Value}
    (h : Command.findCommand base? p = .ok command) :
    ∃ (parts : FindParts) (string : String), command = parts.toValue string ∧ parts.Shown ∧
      Command.filterOf base? p.condition = .ok parts.filter ∧
      Command.sortOf p.orderBy = .ok parts.sort? ∧ parts.limit? = Command.limitOf p.limit ∧
      Command.projection p.columns = .ok parts.projection := by
  simp only [Command.findCommand, bind_ok, command_lift_ok] at h
  obtain ⟨filter, hfilter, projection, hprojection, text, -, h⟩ := h
  split at h
  · simp only [bind_ok, command_lift_ok] at h
    obtain ⟨shown, hshown, projection?, -, name, hname, sort?, hs, tail, htail, hx⟩ := h
    cases hx
    obtain ⟨hsort, hlimit⟩ := tail_text_parts htail
    exact ⟨⟨p.table, filter, projection, sort?, Command.limitOf p.limit⟩, _, rfl,
      ⟨⟨name, hname⟩, fun _ => ⟨shown, hshown⟩, hsort, hlimit⟩, hfilter, hs, rfl,
      hprojection⟩
  · rename_i hnone
    simp only [bind_ok, command_lift_ok] at h
    obtain ⟨projection?, -, name, hname, sort?, hs, tail, htail, hx⟩ := h
    cases hx
    obtain ⟨hsort, hlimit⟩ := tail_text_parts htail
    exact ⟨⟨p.table, filter, projection, sort?, Command.limitOf p.limit⟩, _, rfl,
      ⟨⟨name, hname⟩, fun h => absurd h hnone, hsort, hlimit⟩, hfilter, hs, rfl,
      hprojection⟩

namespace FindParts

/-- The entries of a command. -/
def entries (parts : FindParts) (string : String) : Entries :=
  [(.text "string", .text string), (.text "collection", parts.collection),
    (.text "filter", parts.filter), (.text "projection", parts.projection)] ++
  (parts.sort?.map (fun s => (.text "sort", s))).toList ++
  (parts.limit?.map (fun n => (.text "limit", n))).toList

theorem to_value_entries (parts : FindParts) (string : String) :
    parts.toValue string = .dict (parts.entries string) := by
  obtain ⟨_, _, _, sort?, limit?⟩ := parts
  cases sort? <;> cases limit? <;> rfl

theorem get_sort (parts : FindParts) (string : String) :
    Entries.get? (parts.entries string) (.text "sort") = parts.sort? := by
  obtain ⟨_, _, _, sort?, limit?⟩ := parts
  cases sort? <;> cases limit? <;> rfl

theorem get_limit (parts : FindParts) (string : String) :
    Entries.get? (parts.entries string) (.text "limit") = parts.limit? := by
  obtain ⟨_, _, _, sort?, limit?⟩ := parts
  cases sort? <;> cases limit? <;> rfl

end FindParts

/-- The text of a command exists if all parts have texts. -/
theorem find_text_succeeds {parts : FindParts} (string : String) (h : parts.Shown)
    (hf : Succeeds (Command.shellText parts.filter)) :
    Succeeds (Command.findCommandText (parts.toValue string)) := by
  have hcollection : (parts.toValue string).entry "collection" = .ok parts.collection := rfl
  have hfilter : Entries.field (parts.entries string) "filter" = parts.filter := rfl
  have hprojection : Entries.field (parts.entries string) "projection" = parts.projection := rfl
  unfold Command.findCommandText
  rw [hcollection, FindParts.to_value_entries]
  simp only [Value.asDict, pure_ok, ok_bind, hfilter, hprojection, FindParts.get_sort,
    FindParts.get_limit]
  refine .ite (fun _ => .bind hf fun _ => ?_) ?_
  all_goals refine .ite (fun hp => .bind (h.projection hp) fun _ => ?_) ?_
  all_goals refine .bind h.collection fun _ => ?_
  all_goals
    split
    · rename_i s hs
      refine .bind (h.sort s hs) fun _ => ?_
      split
      · rename_i n hn
        exact .bind (h.limit n hn) fun _ => .ok _
      · exact .ok _
    · split
      · rename_i n hn
        exact .bind (h.limit n hn) fun _ => .ok _
      · exact .ok _

/-- A command that finds documents is simplified by simplifying its filter. -/
theorem simplify_parts (parts : FindParts) (string : String) :
    Command.simplify (parts.toValue string) = do
      let f ← Command.sortMembers (← Command.simplifyFilter parts.filter)
      let text ← Command.findCommandText ({ parts with filter := f }.toValue string)
      return { parts with filter := f }.toValue text := by
  have hset : ∀ f, Command.setEntry "filter" f (parts.toValue string) =
      { parts with filter := f }.toValue string := by
    simp [FindParts.toValue, doc, Command.setEntry, Entries.put]
  have htext : ∀ f text, Command.setEntry "string" (.text text)
      ({ parts with filter := f }.toValue string) = { parts with filter := f }.toValue text := by
    simp [FindParts.toValue, doc, Command.setEntry, Entries.put]
  have hin : (Value.text "filter").isIn (parts.toValue string) = .ok true := rfl
  have hentry : (parts.toValue string).entry "filter" = .ok parts.filter := rfl
  simp only [Command.simplify, hin, ok_bind, hentry, ↓reduceIte, hset, htext]

/-- A command that finds documents is simplified if its filter is, and the rest stays. -/
theorem simplify_find {parts : FindParts} {g r : Value} (string : String) (h : parts.Shown)
    (hg : Command.simplifyFilter parts.filter = .ok g) (hr : Command.sortMembers g = .ok r)
    (ht : Succeeds (Command.shellText r)) :
    ∃ string', Command.simplify (parts.toValue string) =
      .ok ({ parts with filter := r }.toValue string') := by
  have hshown : FindParts.Shown { parts with filter := r } :=
    ⟨h.collection, h.projection, h.sort, h.limit⟩
  obtain ⟨text, htext⟩ := find_text_succeeds string hshown ht
  refine ⟨text, ?_⟩
  simp only [simplify_parts, hg, hr, htext, ok_bind, pure_ok]

theorem filter_of_present {base? : Option Value} (c : Condition) :
    Command.filterOf base? c.toValue = Command.filter base? c.toValue := by
  simp [Command.filterOf, condition_present]

theorem command_of_stages {schema tree command : Value} {sql : String} {line : Nat} {q : Query}
    (hq : Sql.parse sql line = .ok q) (ht : Pipeline.check schema q.toValue = .ok tree)
    (hc : Pipeline.translate tree = .ok command) :
    Pipeline.command schema sql line = .ok command := by
  simp [Pipeline.command, Pipeline.parse, hq, ht, hc]

end DocQuery.Proofs
