import DocQuery.Proofs.FindCommands
import DocQuery.Proofs.Notes

namespace DocQuery.Proofs

open Sql
open Value (doc)

/-- Puts values under names, one after the other. -/
def putAll (es : Entries) (fields : List (String × Value)) : Entries :=
  fields.foldl (fun es f => Entries.put es (.text f.1) f.2) es

theorem put_all_append (es : Entries) (fields more : List (String × Value)) :
    putAll es (fields ++ more) = putAll (putAll es fields) more :=
  List.foldl_append

theorem get_put (es : Entries) (k x : String) (v : Value) :
    Entries.get? (Entries.put es (.text k) v) (.text x) =
      if k = x then some v else Entries.get? es (.text x) := by
  induction es with
  | nil => by_cases h : k = x <;> simp [Entries.put, Entries.get?, h]
  | cons e es ih =>
    obtain ⟨key, w⟩ := e
    rw [Entries.put]
    split
    · rename_i hk
      obtain rfl := eq_text_of_same hk
      by_cases h : k = x <;> simp [Entries.get?, h]
    · rename_i hk
      cases hx : key.same (.text x) with
      | true =>
        obtain rfl := eq_text_of_same hx
        have hne : k ≠ x := by
          rintro rfl
          exact hk (by simp)
        simp [Entries.get?, hne]
      | false =>
        simp only [Entries.get?, List.find?_cons, hx] at ih ⊢
        exact ih

/-- Only the last value that is put under a name counts. -/
theorem put_put (es : Entries) (k : String) (v w : Value) :
    Entries.put (Entries.put es (.text k) v) (.text k) w = Entries.put es (.text k) w := by
  induction es with
  | nil => simp [Entries.put]
  | cons e es ih =>
    obtain ⟨key, x⟩ := e
    cases hk : key.same (.text k) <;> simp [Entries.put, hk, ih]

/-- A name that is put nowhere keeps its value. -/
theorem get_put_all_other {es : Entries} {fields : List (String × Value)} {x : String}
    (h : ∀ f ∈ fields, f.1 ≠ x) :
    Entries.get? (putAll es fields) (.text x) = Entries.get? es (.text x) := by
  induction fields generalizing es with
  | nil => rfl
  | cons f fields ih =>
    obtain ⟨hf, hfields⟩ := List.forall_mem_cons.mp h
    rw [putAll, List.foldl_cons, ← putAll, ih hfields, get_put, if_neg hf]

/-- A name under which only one value is put holds this value. -/
theorem get_put_all {es : Entries} {fields : List (String × Value)} {x : String} {v : Value}
    (hx : ∃ f ∈ fields, f.1 = x) (hv : ∀ f ∈ fields, f.1 = x → f.2 = v) :
    Entries.get? (putAll es fields) (.text x) = some v := by
  induction fields generalizing es with
  | nil => simp at hx
  | cons f fields ih =>
    obtain ⟨hf, hfields⟩ := List.forall_mem_cons.mp hv
    rw [putAll, List.foldl_cons, ← putAll]
    by_cases hrest : ∃ g ∈ fields, g.1 = x
    · exact ih hrest hfields
    · have hother : ∀ g ∈ fields, g.1 ≠ x := fun g hg he => hrest ⟨g, hg, he⟩
      obtain ⟨g, hg, rfl⟩ := hx
      rcases List.mem_cons.mp hg with rfl | hg
      · rw [get_put_all_other hother, get_put, if_pos rfl, hf rfl]
      · exact absurd rfl (hother g hg)

theorem put_all_some (es : Entries) {fields : List (String × Value)} {x : String}
    (h : x ∈ fields.map (·.1)) : (Entries.get? (putAll es fields) (.text x)).isSome = true := by
  induction fields generalizing es with
  | nil => simp at h
  | cons f fields ih =>
    rw [putAll, List.foldl_cons, ← putAll]
    by_cases hx : x ∈ fields.map (·.1)
    · exact ih _ hx
    · have hother : ∀ g ∈ fields, g.1 ≠ x := by
        rintro g hg rfl
        exact hx (List.mem_map_of_mem hg)
      obtain rfl : x = f.1 := by simpa [hx] using h
      rw [get_put_all_other hother, get_put, if_pos rfl]
      rfl

theorem has_eq_get (es : Entries) (x : Value) :
    Entries.has es x = (Entries.get? es x).isSome := by
  rw [Bool.eq_iff_iff]
  simp [Entries.has, Entries.get?]

theorem get_entry {es : Entries} {k : String} {v : Value}
    (h : Entries.get? es (.text k) = some v) : (.text k, v) ∈ es := by
  obtain ⟨⟨key, w⟩, he, rfl⟩ := Option.map_eq_some_iff.mp h
  have hk := List.find?_some he
  obtain rfl : key = .text k := eq_text_of_same hk
  exact List.mem_of_find?_eq_some he

/-- The keys of a document, with a new one at the end. -/
theorem put_keys (es : Entries) (k : String) (v : Value) :
    (Entries.put es (.text k) v).map (·.1) =
      if Entries.has es (.text k) then es.map (·.1) else es.map (·.1) ++ [.text k] := by
  induction es with
  | nil => rfl
  | cons e es ih =>
    obtain ⟨key, w⟩ := e
    rw [Entries.put]
    cases hk : key.same (.text k) with
    | true => simp [Entries.has, hk]
    | false =>
      have hhas : Entries.has ((key, w) :: es) (.text k) = Entries.has es (.text k) := by
        simp [Entries.has, hk]
      rw [hhas]
      simp only [Bool.false_eq_true, ↓reduceIte, List.map_cons, ih]
      split <;> rfl

theorem put_nodup {es : Entries} (h : (es.map (·.1)).Nodup) (k : String) (v : Value) :
    ((Entries.put es (.text k) v).map (·.1)).Nodup := by
  rw [put_keys]
  split
  · exact h
  · rename_i hnew
    refine List.nodup_append.mpr ⟨h, by simp, ?_⟩
    intro x hx y hy hxy
    obtain rfl := List.mem_singleton.mp hy
    obtain ⟨e, he, rfl⟩ := List.mem_map.mp hx
    exact hnew (List.any_eq_true.mpr ⟨e, he, by rw [hxy]; simp⟩)

theorem put_mem {es : Entries} {k : String} {v : Value} {e : Value × Value}
    (h : e ∈ Entries.put es (.text k) v) : e ∈ es ∨ e = (.text k, v) := by
  induction es with
  | nil => exact .inr (List.mem_singleton.mp h)
  | cons d es ih =>
    obtain ⟨key, w⟩ := d
    rw [Entries.put] at h
    split at h
    · rename_i hk
      obtain rfl := eq_text_of_same hk
      rcases List.mem_cons.mp h with rfl | h
      · exact .inr rfl
      · exact .inl (List.mem_cons_of_mem _ h)
    · rcases List.mem_cons.mp h with rfl | h
      · exact .inl List.mem_cons_self
      · exact (ih h).imp_left (List.mem_cons_of_mem _)

/-- All entries were there or were put. -/
theorem put_all_mem {es : Entries} {fields : List (String × Value)} {e : Value × Value}
    (h : e ∈ putAll es fields) : e ∈ es ∨ ∃ f ∈ fields, e = (.text f.1, f.2) := by
  induction fields generalizing es with
  | nil => exact .inl h
  | cons f fields ih =>
    rcases ih h with h | ⟨g, hg, rfl⟩
    · rcases put_mem h with h | rfl
      · exact .inl h
      · exact .inr ⟨f, List.mem_cons_self, rfl⟩
    · exact .inr ⟨g, List.mem_cons_of_mem _ hg, rfl⟩

theorem put_new {es : Entries} {k : String} {v : Value} (h : Entries.has es (.text k) = false) :
    Entries.put es (.text k) v = es ++ [(.text k, v)] := by
  induction es with
  | nil => rfl
  | cons e es ih =>
    simp only [Entries.has, List.any_cons, Bool.or_eq_false_iff] at h
    rw [Entries.put, h.1, ih h.2]
    rfl

theorem map_put (g : Value × Value → Value) (es : Entries) (k : String) (v : Value) :
    (Entries.put es (.text k) v).map (fun e => (e.1, g e)) =
      Entries.put (es.map (fun e => (e.1, g e))) (.text k) (g (.text k, v)) := by
  induction es with
  | nil => rfl
  | cons e es ih =>
    obtain ⟨key, w⟩ := e
    rw [Entries.put, List.map_cons, Entries.put]
    split
    · rename_i hk
      obtain rfl := eq_text_of_same hk
      rfl
    · rw [List.map_cons, ih]

/-- Values may be changed before or after they are put. -/
theorem map_put_all (g : Value × Value → Value) (es : Entries) (fields : List (String × Value)) :
    (putAll es fields).map (fun e => (e.1, g e)) =
      putAll (es.map (fun e => (e.1, g e))) (fields.map (fun f => (f.1, g (.text f.1, f.2)))) := by
  induction fields generalizing es with
  | nil => rfl
  | cons f fields ih =>
    rw [putAll, List.foldl_cons, ← putAll, ih, map_put]
    rfl

/-- Names that are all different are put one behind the other. -/
theorem put_all_new {es : Entries} {fields : List (String × Value)}
    (hnew : ∀ f ∈ fields, Entries.has es (.text f.1) = false)
    (hnodup : (fields.map (·.1)).Nodup) :
    putAll es fields = es ++ fields.map (fun f => (.text f.1, f.2)) := by
  induction fields generalizing es with
  | nil => simp [putAll]
  | cons f fields ih =>
    obtain ⟨hf, hfields⟩ := List.forall_mem_cons.mp hnew
    obtain ⟨hnot, hrest⟩ := List.nodup_cons.mp hnodup
    have hput : Entries.put es (.text f.1) f.2 = es ++ [(.text f.1, f.2)] := put_new hf
    have hnew' : ∀ g ∈ fields, Entries.has (es ++ [(.text f.1, f.2)]) (.text g.1) = false := by
      intro g hg
      have hne : f.1 ≠ g.1 := by
        intro he
        exact hnot (List.mem_map.mpr ⟨g, hg, he.symm⟩)
      have hold := hfields g hg
      simp only [Entries.has] at hold
      simp [Entries.has, hold, hne]
    rw [putAll, List.foldl_cons, ← putAll, hput, ih hnew' hrest]
    simp

/-- A command that runs a pipeline. -/
def pipelineDocument (string : String) (collection : Value) (stages : List Value) : Value :=
  doc [("string", .text string), ("collection", collection), ("pipeline", .list stages)]

theorem literals_succeed {vs : List Value} :
    Succeeds (Value.literals vs) ↔ ∀ v ∈ vs, Succeeds v.literal := by
  induction vs with
  | nil => simp [Value.literals, Succeeds]
  | cons v vs ih =>
    rw [List.forall_mem_cons, ← ih, Value.literals]
    constructor
    · rintro ⟨ss, hss⟩
      simp only [bind_ok] at hss
      obtain ⟨s, hs, rest, hrest, -⟩ := hss
      exact ⟨⟨s, hs⟩, ⟨rest, hrest⟩⟩
    · rintro ⟨hv, hvs⟩
      exact .bind hv fun _ => .bind hvs fun _ => .ok _

theorem literal_list_succeeds {vs : List Value} :
    Succeeds (Value.list vs).literal ↔ ∀ v ∈ vs, Succeeds v.literal := by
  rw [← literals_succeed, Value.literal]
  constructor
  · rintro ⟨s, hs⟩
    simp only [bind_ok] at hs
    obtain ⟨ss, hss, -⟩ := hs
    exact ⟨ss, hss⟩
  · intro h
    exact .bind h fun _ => .ok _

theorem literal_dict_succeeds {es : Entries}
    (h : ∀ e ∈ es, Succeeds e.1.literal ∧ Succeeds e.2.literal) :
    Succeeds (Value.dict es).literal := by
  have hentries : Succeeds (Value.literalEntries es) := by
    induction es with
    | nil => exact .ok _
    | cons e es ih =>
      obtain ⟨he, hes⟩ := List.forall_mem_cons.mp h
      rw [Value.literalEntries]
      exact .bind he.1 fun _ => .bind he.2 fun _ => .bind (ih hes) fun _ => .ok _
  rw [Value.literal]
  exact .bind hentries fun _ => .ok _

/-- A document has a text if all values in it have texts. -/
theorem literal_doc_succeeds {fields : List (String × Value)}
    (h : ∀ f ∈ fields, Succeeds f.2.literal) : Succeeds (doc fields).literal := by
  refine literal_dict_succeeds fun e he => ?_
  obtain ⟨f, hf, rfl⟩ := List.mem_map.mp he
  exact ⟨.ok _, h f hf⟩

/-- Entries whose keys are different texts and whose values have a property. -/
structure EntriesOf (Q : Value → Prop) (es : Entries) : Prop where
  keys : ∀ e ∈ es, ∃ k, e.1 = .text k
  values : ∀ e ∈ es, Q e.2
  nodup : (es.map (·.1)).Nodup

section Hereditary
variable {Q : Value → Prop}

theorem EntriesOf.nil : EntriesOf Q [] := by
  constructor <;> simp

theorem EntriesOf.put {es : Entries} {k : String} {v : Value} (h : EntriesOf Q es) (hv : Q v) :
    EntriesOf Q (Entries.put es (.text k) v) where
  keys e he := by
    rcases put_mem he with he | rfl
    · exact h.keys e he
    · exact ⟨k, rfl⟩
  values e he := by
    rcases put_mem he with he | rfl
    · exact h.values e he
    · exact hv
  nodup := put_nodup h.nodup k v

theorem EntriesOf.put_all {es : Entries} {fields : List (String × Value)} (h : EntriesOf Q es)
    (hfields : ∀ f ∈ fields, Q f.2) : EntriesOf Q (putAll es fields) := by
  induction fields generalizing es with
  | nil => exact h
  | cons f fields ih =>
    obtain ⟨hf, hfields⟩ := List.forall_mem_cons.mp hfields
    exact ih (h.put hf) hfields

/-- A property that lists and documents have if the values in them have it. -/
structure Hereditary (Q : Value → Prop) : Prop where
  null : Q .null
  text : ∀ s, Q (.text s)
  small : ∀ n : Int, n.natAbs ≤ 1 → Q (.int n)
  list : ∀ {xs}, (∀ x ∈ xs, Q x) → Q (.list xs)
  dict : ∀ {es}, EntriesOf Q es → Q (.dict es)

variable (h : Hereditary Q)
include h

theorem Hereditary.put_all {fields : List (String × Value)} (hfields : ∀ f ∈ fields, Q f.2) :
    Q (.dict (putAll [] fields)) := h.dict (EntriesOf.nil.put_all hfields)

theorem Hereditary.entry {key : String} {v : Value} (hv : Q v) : Q (doc [(key, v)]) :=
  h.dict (EntriesOf.nil.put hv)

theorem Hereditary.lookup (source field foreign : String) :
    Q (Command.lookupStage (.text source) (.text field) (.text foreign)) := by
  have hfields : ∀ f ∈ [("from", Value.text source), ("localField", .text field),
      ("foreignField", .text foreign), ("as", .text source)], Q f.2 := by simp [h.text]
  exact h.entry (h.put_all hfields)

end Hereditary

theorem literal_hereditary : Hereditary fun v => Succeeds v.literal where
  null := .ok _
  text _ := .ok _
  small _ _ := .ok _
  list h := literal_list_succeeds.mpr h
  dict h := by
    refine literal_dict_succeeds fun e he => ⟨?_, h.values e he⟩
    obtain ⟨k, hk⟩ := h.keys e he
    rw [hk]
    exact .ok _

theorem literal_scalar_succeeds (v : Scalar) : Succeeds v.toValue.literal := by
  cases v <;> exact .ok _

theorem literal_test_succeeds (t : FieldTest) : Succeeds t.toValue.literal := by
  cases t with
  | compare r v =>
    have hv := literal_scalar_succeeds v
    cases r with
    | eq => exact hv
    | _ => exact literal_doc_succeeds (by simpa using hv)
  | between low high =>
    refine literal_doc_succeeds ?_
    simpa using ⟨literal_scalar_succeeds low, literal_scalar_succeeds high⟩
  | among vs =>
    refine literal_doc_succeeds ?_
    simp only [List.mem_singleton, forall_eq]
    refine literal_list_succeeds.mpr fun v hv => ?_
    obtain ⟨s, -, rfl⟩ := List.mem_map.mp hv
    exact literal_scalar_succeeds s

/-- Every filter has a text. -/
theorem literal_selector_succeeds (s : Selector) : Succeeds s.toValue.literal := by
  induction s with
  | field name t => exact literal_doc_succeeds (by simpa using literal_test_succeeds t)
  | both l r hl hr =>
    refine literal_doc_succeeds ?_
    simp only [List.mem_singleton, forall_eq]
    exact literal_list_succeeds.mpr (by simpa using ⟨hl, hr⟩)
  | either l r hl hr =>
    refine literal_doc_succeeds ?_
    simp only [List.mem_singleton, forall_eq]
    exact literal_list_succeeds.mpr (by simpa using ⟨hl, hr⟩)

theorem literal_stage_succeeds {operator : String} {body : Value} (h : Succeeds body.literal) :
    Succeeds (doc [(operator, body)]).literal :=
  literal_doc_succeeds (by simpa using h)

theorem literal_filter_succeeds (s? : Option Selector) :
    ∀ s ∈ ((s?.map Selector.toValue).map Command.matchStage).toList, Succeeds s.literal := by
  intro s hs
  obtain ⟨f, -, rfl⟩ : ∃ f, s? = some f ∧ Command.matchStage f.toValue = s := by simpa using hs
  exact literal_stage_succeeds (literal_selector_succeeds f)

theorem map_error_succeeds {ε ε' α : Type} {g : ε → ε'} {x : Except ε α} :
    Succeeds (x.mapError g) ↔ Succeeds x := by
  constructor
  · rintro ⟨a, ha⟩
    exact ⟨a, map_error_ok.mp ha⟩
  · rintro ⟨a, ha⟩
    exact ⟨a, map_error_ok.mpr ha⟩

/-- A pipeline command holds the stages that it was made from, and all its parts have texts. -/
theorem pipeline_command_parts {collection command : Value} {stages : List Value}
    (h : Command.pipelineCommand collection stages = .ok command) :
    ∃ string, command = pipelineDocument string collection stages ∧
      Succeeds collection.str ∧ ∀ s ∈ stages, Succeeds s.literal := by
  simp only [Command.pipelineCommand, bind_ok] at h
  obtain ⟨name, hname, shown, hshown, hx⟩ := h
  cases hx
  exact ⟨_, rfl, ⟨name, hname⟩, literal_list_succeeds.mp (map_error_succeeds.mp ⟨shown, hshown⟩)⟩

/-- Stages that have texts make a command. -/
theorem pipeline_command_shown (t : String) {stages : List Value}
    (h : ∀ s ∈ stages, Succeeds s.literal) :
    ∃ string, Command.pipelineCommand (.text t) stages =
      .ok (pipelineDocument string (.text t) stages) := by
  obtain ⟨shown, hshown⟩ : Succeeds (Value.list stages).repr :=
    map_error_succeeds.mpr (literal_list_succeeds.mpr h)
  refine ⟨Command.pipelineText t shown, ?_⟩
  simp only [Command.pipelineCommand, str_text, hshown, ok_bind]
  rfl

theorem unwind_text (b : String) :
    Command.unwindStage (.text b) = .ok (doc [("$unwind", .text ("$" ++ b))]) := rfl

theorem ref_table (c : ColumnRef) : c.toValue.entry "table" = .ok (optionalText c.table?) := rfl

theorem ref_column (c : ColumnRef) : c.toValue.entry "column" = .ok (.text c.name) := rfl

theorem qualifier_same (c : ColumnRef) (t : String) :
    (optionalText c.table?).same (.text t) = (c.table? == some t) := by
  cases hc : c.table? with
  | none => rfl
  | some u => simp [optionalText]

/-- A join clause in a tree. -/
def joinClause (joined : String) (on : Condition) : Value :=
  doc [("table", .text joined), ("condition", on.toValue)]

theorem clause_table (joined : String) (on : Condition) :
    (joinClause joined on).entry "table" = .ok (.text joined) := rfl

theorem clause_condition (joined : String) (on : Condition) :
    (joinClause joined on).entry "condition" = .ok on.toValue := rfl

theorem joins_first {q : Query} {base joined : String} {on : Condition}
    (hsource : q.source = .join base joined on) :
    (partsOf q).joins.index (.int 0) = .ok (joinClause joined on) := by
  simp only [partsOf, hsource]
  rfl

/-- A condition of comparisons with literals has no subquery. -/
theorem clause_no_subquery {q : Query} (hc : ∀ c, q.condition? = some c → Comb c)
    (hl : ∀ c, q.condition? = some c → isLiteral c = true) :
    ((partsOf q).condition.present && Command.hasSubquery (partsOf q).condition) = false := by
  cases hq : q.condition? with
  | none => simp [partsOf, hq, optionalCondition, Value.present]
  | some c =>
    have hno := comb_no_subquery (hc c hq) (hl c hq)
    simp [partsOf, hq, optionalCondition, hno]

end DocQuery.Proofs
