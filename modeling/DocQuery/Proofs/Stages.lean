import DocQuery.Proofs.Pipelines
import Mathlib.Algebra.Ring.Int.Defs

namespace DocQuery.Proofs

open Sql

/-- The value at the end of a path. -/
def valueAt : Value → List String → Option Value
  | v, [] => some v
  | .dict es, name :: path => (Entries.get? es (.text name)).bind (valueAt · path)
  | _, _ :: _ => none

/-- The names of a dotted path. -/
def pathNames (s : String) : List String := (Value.dotParts s.toList).map String.ofList

/-- What a document holds under a field, if it has the field. -/
def fieldAt? (d : Entries) (field : String) : Option Value := valueAt (.dict d) (pathNames field)

/-- A field that a document lacks counts as `null`. -/
def fieldAt (d : Entries) (field : String) : Value := (fieldAt? d field).getD .null

/-- Whether two values differ; a missing one differs from `null`. -/
def differ : Option Value → Option Value → Bool
  | some v, some w => !equals v w
  | none, none => false
  | _, _ => true

def isTrue : Value → Bool
  | .bool b => b
  | .int n => n ≠ 0
  | .null => false
  | _ => true

mutual
/-- The value of an expression. A text with a leading dollar names a field. -/
def evaluate (d : Entries) : Value → Option Value
  | .text s =>
    match s.toList with
    | '$' :: path => fieldAt? d (String.ofList path)
    | _ => some (.text s)
  | .dict [(.text "$cond", .list [c, x, y])] =>
    if (evaluate d c).any isTrue then evaluate d x else evaluate d y
  | .dict [(.text "$ne", .list [x, y])] => some (.bool (differ (evaluate d x) (evaluate d y)))
  | .dict es => some (.dict (evaluateEntries d es))
  | v => some v

/-- A document of expressions; fields without a value are left out. -/
def evaluateEntries (d : Entries) : List (Value × Value) → List (Value × Value)
  | [] => []
  | (k, x) :: es =>
    match evaluate d x with
    | some v => (k, v) :: evaluateEntries d es
    | none => evaluateEntries d es
end

/-- The members of a list that are alike, by their first one. -/
structure Class (α : Type) where
  first : α
  others : List α

def Class.members {α : Type} (g : Class α) : List α := g.first :: g.others

def place {α : Type} (alike : α → α → Bool) (x : α) : List (Class α) → List (Class α)
  | [] => [⟨x, []⟩]
  | g :: gs =>
    if alike g.first x then { g with others := g.others ++ [x] } :: gs else g :: place alike x gs

/-- The classes of a list, by their first members. -/
def classes {α : Type} (alike : α → α → Bool) (xs : List α) : List (Class α) :=
  xs.foldl (fun gs x => place alike x gs) []

/-- What is open about the evaluation of statements and of pipelines. -/
structure Engine where
  sum : List Value → Value
  min : List Value → Value
  max : List Value → Value
  average : List Value → Value
  compare : Value → Value → Ordering
  arrange : List (Class Entries) → List (Class Entries)
  sum_ints : ∀ ns : List Int, sum (ns.map .int) = .int ns.sum
  arranged : ∀ gs, (arrange gs).Perm gs

/-- Sums integers, and takes values and groups as they come. -/
def plainEngine : Engine where
  sum vs := .int ((vs.filterMap fun | .int n => some n | _ => none).sum)
  min vs := vs.headD .null
  max vs := vs.headD .null
  average vs := vs.headD .null
  compare _ _ := .eq
  arrange gs := gs
  sum_ints := by
    intro ns
    have hints : (ns.map Value.int).filterMap (fun | .int n => some n | _ => none) = ns := by
      rw [List.filterMap_map]
      exact List.filterMap_some
    rw [hints]
  arranged := fun gs => .refl gs

namespace Engine

variable (e : Engine)

/-- What an accumulator makes of the documents of a group. -/
def accumulate (docs : List Entries) : Value → Option Value
  | .dict [(.text operator, x)] =>
    match operator with
    | "$sum" => some (e.sum (docs.filterMap (evaluate · x)))
    | "$min" => some (e.min (docs.filterMap (evaluate · x)))
    | "$max" => some (e.max (docs.filterMap (evaluate · x)))
    | "$avg" => some (e.average (docs.filterMap (evaluate · x)))
    | _ => none
  | _ => none

/-- The document of a group: its key under `_id`, and what is accumulated. -/
def groupDocument? (es : Entries) (g : Class Entries) : Option Entries :=
  es.mapM (fun (name, x) =>
    if name.same (.text "_id") then some (name, (evaluate g.first x).getD .null)
    else (e.accumulate g.members x).map (name, ·))

/-- Documents are in one group if their keys are equal. -/
def groupStage (es : Entries) (docs : List Entries) : Option (List Entries) :=
  let key := fun d => (evaluate d (Entries.field es "_id")).getD .null
  (e.arrange (classes (fun a b => equals (key a) (key b)) docs)).mapM (e.groupDocument? es)

/-- Compares by one key after the other. -/
def compareBy {α : Type} (keys : List (Direction × (α → Value))) (a b : α) : Ordering :=
  keys.foldr (fun (direction, key) rest =>
    match direction with
    | .asc => (e.compare (key a) (key b)).then rest
    | .desc => (e.compare (key b) (key a)).then rest) .eq

/-- Sorts and keeps the order of what is equal by all keys. -/
def sortBy {α : Type} (keys : List (Direction × (α → Value))) (xs : List α) : List α :=
  xs.mergeSort (fun a b => (e.compareBy keys a b).isLE)

end Engine

def sortKey? : Value × Value → Option (Direction × (Entries → Value))
  | (.text field, .int 1) => some (.asc, (fieldAt · field))
  | (.text field, .int (-1)) => some (.desc, (fieldAt · field))
  | _ => none

/-- Puts a value at the end of a path, in documents on the way that are there or are new. -/
def putPath : Entries → List String → Value → Entries
  | out, [], _ => out
  | out, [name], v => Entries.put out (.text name) v
  | out, name :: next :: path, v =>
    let inner := match Entries.get? out (.text name) with
      | some (.dict es) => es
      | _ => []
    Entries.put out (.text name) (.dict (putPath inner (next :: path) v))

/-- Puts what there is under a name, which may be a path. -/
def putField (out : Entries) : Value → Option Value → Entries
  | .text name, some v => putPath out (pathNames name) v
  | _, _ => out

/-- What a projection shows under a name: the field itself, nothing, or the value of an
expression. -/
def projected (d : Entries) : Value × Value → Option Value
  | (.text name, .int 1) => fieldAt? d name
  | (_, .int 0) => none
  | (_, x) => evaluate d x

/-- A projection keeps `_id` unless it says otherwise. -/
def project (es d : Entries) : Entries :=
  es.foldl (fun out f => putField out f.1 (projected d f))
    (if Entries.has es (.text "_id") then [] else d.filter (·.1.same (.text "_id")))

/-- Puts the documents of a collection whose field equals that of a document under a name. -/
def lookup (found : List Entries) (local_ foreign name : String) (d : Entries) : Entries :=
  Entries.put d (.text name)
    (.list ((found.filter (fun b => equals (fieldAt d local_) (fieldAt b foreign))).map .dict))

/-- One document for each member of an array. -/
def unwind (name : String) (d : Entries) : List Entries :=
  match Entries.get? d (.text name) with
  | some (.list vs) => vs.map (Entries.put d (.text name))
  | some .null | none => []
  | some _ => [d]

/-- Puts the values of expressions. -/
def addFields (es d : Entries) : Entries :=
  es.foldl (fun out f => putField out f.1 (evaluate d f.2)) d

namespace Engine

variable (e : Engine) (collections : String → List Entries)

/-- The documents after a stage. -/
def stage (docs : List Entries) : Value → Option (List Entries)
  | .dict [(.text operator, body)] =>
    match operator, body with
    | "$match", f => some (docs.filter (fun d => holds (fieldAt d) f))
    | "$group", .dict es => e.groupStage es docs
    | "$sort", .dict es => return e.sortBy (← es.mapM sortKey?) docs
    | "$limit", .int n => if 0 < n then some (docs.take n.toNat) else none
    | "$project", .dict es => some (docs.map (project es))
    | "$lookup", .dict es =>
      match Entries.field es "from", Entries.field es "localField",
          Entries.field es "foreignField", Entries.field es "as" with
      | .text source, .text local_, .text foreign, .text name =>
        some (docs.map (lookup (collections source) local_ foreign name))
      | _, _, _, _ => none
    | "$unwind", .text path => some (docs.flatMap (unwind (String.ofList (path.toList.drop 1))))
    | "$addFields", .dict es => some (docs.map (addFields es))
    | _, _ => none
  | _ => none

/-- The documents that a pipeline makes of those of its collection. -/
def run (stages : List Value) (docs : List Entries) : Option (List Entries) :=
  stages.foldlM (e.stage collections) docs

end Engine

section

variable (e : Engine) (collections : String → List Entries)

theorem run_append (xs ys : List Value) (docs : List Entries) :
    e.run collections (xs ++ ys) docs =
      (e.run collections xs docs).bind (e.run collections ys) :=
  List.foldlM_append

theorem run_single (s : Value) (docs : List Entries) :
    e.run collections [s] docs = e.stage collections docs s := by
  simp [Engine.run]

/-- A filter that may be absent. -/
theorem run_filter (f? : Option Value) (docs : List Entries) :
    e.run collections (f?.map Command.matchStage).toList docs =
      some (docs.filter (fun d => f?.all (holds (fieldAt d)))) := by
  cases f? with
  | none => simp [Engine.run]
  | some f =>
    rw [Option.map_some, Option.toList_some, run_single]
    rfl

end

/-- A name that is no path. -/
def NoDot (s : String) : Prop := '.' ∉ s.toList

instance (s : String) : Decidable (NoDot s) := inferInstanceAs (Decidable (_ ∉ _))

theorem dot_parts_none {cs : List Char} (h : '.' ∉ cs) : Value.dotParts cs = [cs] := by
  induction cs with
  | nil => rfl
  | cons c cs ih =>
    obtain ⟨hc, hcs⟩ := not_or.mp (fun hm => h (List.mem_cons.mpr hm))
    rw [Value.dotParts, ih hcs]
    exact fun he => hc he.symm

theorem dot_parts_dot {cs : List Char} (ds : List Char) (h : '.' ∉ cs) :
    Value.dotParts (cs ++ '.' :: ds) = cs :: Value.dotParts ds := by
  induction cs with
  | nil => rfl
  | cons c cs ih =>
    obtain ⟨hc, hcs⟩ := not_or.mp (fun hm => h (List.mem_cons.mpr hm))
    rw [List.cons_append, Value.dotParts, ih hcs]
    exact fun he => hc he.symm

theorem path_names_name {s : String} (h : NoDot s) : pathNames s = [s] := by
  simp [pathNames, dot_parts_none h]

theorem path_names_dotted {s t : String} (hs : NoDot s) (ht : NoDot t) :
    pathNames (s ++ "." ++ t) = [s, t] := by
  have hchars : (s ++ "." ++ t).toList = s.toList ++ '.' :: t.toList := by simp
  rw [pathNames, hchars, dot_parts_dot _ hs, dot_parts_none ht]
  simp

/-- A field at the top of a document. -/
theorem field_at_name (d : Entries) {s : String} (h : NoDot s) :
    fieldAt? d s = Entries.get? d (.text s) := by
  rw [fieldAt?, path_names_name h, valueAt]
  cases Entries.get? d (.text s) <;> rfl

/-- A field of a document in a document. -/
theorem field_at_dotted {d es : Entries} {s t : String} (hs : NoDot s) (ht : NoDot t)
    (h : Entries.get? d (.text s) = some (.dict es)) :
    fieldAt? d (s ++ "." ++ t) = Entries.get? es (.text t) := by
  rw [fieldAt?, path_names_dotted hs ht, valueAt, h, Option.bind_some, valueAt]
  cases Entries.get? es (.text t) <;> rfl

theorem field_of_get {d : Entries} {name : String} {v : Value}
    (h : Entries.get? d (.text name) = some v) : Entries.field d name = v := by
  rw [Entries.field, h]
  rfl

theorem field_at_field (d : Entries) {s : String} (h : NoDot s) :
    fieldAt d s = Entries.field d s := by
  rw [fieldAt, field_at_name d h]
  rfl

theorem put_field_name (out : Entries) {name : String} (h : NoDot name) (v : Value) :
    putField out (.text name) (some v) = Entries.put out (.text name) v := by
  rw [putField, path_names_name h, putPath]

/-- Each name is there once, and none is a path. -/
structure PlainFields (es : Entries) : Prop where
  names : ∀ f ∈ es, ∃ s, f.1 = .text s ∧ NoDot s
  nodup : (es.map (·.1)).Nodup

theorem PlainFields.nil : PlainFields [] := ⟨by simp, by simp⟩

theorem PlainFields.put {es : Entries} (h : PlainFields es) {k : String} (hk : NoDot k)
    (v : Value) : PlainFields (Entries.put es (.text k) v) where
  names f hf := by
    rcases put_mem hf with hf | rfl
    · exact h.names f hf
    · exact ⟨k, rfl, hk⟩
  nodup := put_nodup h.nodup k v

theorem PlainFields.putAll {es : Entries} (h : PlainFields es) {fields : List (String × Value)}
    (hnames : ∀ f ∈ fields, NoDot f.1) : PlainFields (putAll es fields) := by
  induction fields generalizing es with
  | nil => exact h
  | cons f fields ih =>
    obtain ⟨hf, hrest⟩ := List.forall_mem_cons.mp hnames
    exact ih (h.put hf f.2) hrest

/-- Plain fields are put one after the other, where there is something to put. -/
theorem get_put_fields {es : Entries} {value : Value × Value → Option Value} (h : PlainFields es)
    (out : Entries) (k : String) :
    Entries.get? (es.foldl (fun out f => putField out f.1 (value f)) out) (.text k) =
      ((Entries.get? es (.text k)).bind fun x => value (.text k, x)).or
        (Entries.get? out (.text k)) := by
  induction es generalizing out with
  | nil => rfl
  | cons f es ih =>
    obtain ⟨key, x⟩ := f
    obtain ⟨⟨s, hs, hdot⟩, hrest⟩ := List.forall_mem_cons.mp h.names
    obtain rfl : key = .text s := hs
    obtain ⟨hnot, hnodup⟩ := List.nodup_cons.mp h.nodup
    rw [List.foldl_cons, ih ⟨hrest, hnodup⟩]
    by_cases hk : s = k
    · subst hk
      have hnone : Entries.get? es (.text s) = none := by
        cases hg : Entries.get? es (.text s) with
        | none => rfl
        | some w => exact absurd (List.mem_map_of_mem (f := (·.1)) (get_entry hg)) hnot
      have hself : Entries.get? ((.text s, x) :: es) (.text s) = some x := by
        simp [Entries.get?]
      rw [hnone, hself]
      cases hv : value (.text s, x) with
      | none => simp [putField, hv]
      | some v => simp [put_field_name out hdot, get_put, hv]
    · have hcons : Entries.get? ((.text s, x) :: es) (.text k) = Entries.get? es (.text k) := by
        simp [Entries.get?, hk]
      rw [hcons]
      cases hv : value (.text s, x) with
      | none => simp [putField]
      | some v => simp [put_field_name out hdot, get_put, hk]

theorem get_project {es d : Entries} (h : PlainFields es) {k : String} {x v : Value}
    (hx : Entries.get? es (.text k) = some x) (hv : projected d (.text k, x) = some v) :
    Entries.get? (project es d) (.text k) = some v := by
  rw [project, get_put_fields h, hx, Option.bind_some, hv, Option.some_or]

theorem evaluate_path (d : Entries) (s : String) :
    evaluate d (.text ("$" ++ s)) = fieldAt? d s := by
  have hchars : ("$" ++ s).toList = '$' :: s.toList := by simp
  simp [evaluate, hchars]

theorem evaluate_cond (d : Entries) (c x y : Value) :
    evaluate d (.doc [("$cond", .list [c, x, y])]) =
      if (evaluate d c).any isTrue then evaluate d x else evaluate d y := by
  simp [Value.doc, evaluate]

theorem evaluate_ne (d : Entries) (x y : Value) :
    evaluate d (.doc [("$ne", .list [x, y])]) =
      some (.bool (differ (evaluate d x) (evaluate d y))) := by
  simp [Value.doc, evaluate]

theorem evaluate_entries {d : Entries} {es : Entries}
    (h : ∀ e ∈ es, (evaluate d e.2).isSome = true) :
    evaluateEntries d es = es.map (fun e => (e.1, (evaluate d e.2).getD .null)) := by
  induction es with
  | nil => simp [evaluateEntries]
  | cons e es ih =>
    obtain ⟨he, hes⟩ := List.forall_mem_cons.mp h
    obtain ⟨v, hv⟩ := Option.isSome_iff_exists.mp he
    simp [evaluateEntries, hv, ih hes]

/-- A document whose names are no operators is evaluated field by field. -/
theorem evaluate_document (d : Entries) {es : Entries}
    (h : ∀ e ∈ es, ∃ s, e.1 = .text s ∧ Plain s) :
    evaluate d (.dict es) = some (.dict (evaluateEntries d es)) := by
  rw [evaluate]
  all_goals
    intros
    subst es
    obtain ⟨s, hs, hplain⟩ := h _ (List.mem_singleton_self _)
    cases hs
    exact absurd hplain (by decide)

section

variable {α : Type} {alike alike' : α → α → Bool} {P : α → Prop}
  (hsame : ∀ a b, P a → P b → alike a b = alike' a b)

include hsame

theorem place_congr {x : α} {gs : List (Class α)} (hx : P x) (hgs : ∀ g ∈ gs, P g.first) :
    place alike x gs = place alike' x gs := by
  induction gs with
  | nil => rfl
  | cons g gs ih =>
    obtain ⟨hg, hrest⟩ := List.forall_mem_cons.mp hgs
    rw [place, place, hsame g.first x hg hx, ih hrest]

end

/-- All members of a class have a property. -/
def Class.All {α : Type} (P : α → Prop) (g : Class α) : Prop := ∀ a ∈ g.members, P a

theorem place_all {α : Type} {alike : α → α → Bool} {P : α → Prop} {x : α} {gs : List (Class α)}
    (hx : P x) (hgs : ∀ g ∈ gs, g.All P) : ∀ g ∈ place alike x gs, g.All P := by
  induction gs with
  | nil => simpa [place, Class.All, Class.members] using hx
  | cons g gs ih =>
    obtain ⟨hg, hrest⟩ := List.forall_mem_cons.mp hgs
    rw [place]
    split
    · refine List.forall_mem_cons.mpr ⟨?_, hrest⟩
      intro a ha
      rcases List.mem_append.mp (List.cons_append ▸ ha : a ∈ g.members ++ [x]) with ha | ha
      · exact hg a ha
      · rwa [List.mem_singleton.mp ha]
    · exact List.forall_mem_cons.mpr ⟨hg, ih hrest⟩

/-- The members of the classes are those of the list, and only what is alike among them counts. -/
theorem classes_congr {α : Type} {alike alike' : α → α → Bool} {P : α → Prop} {xs : List α}
    (hsame : ∀ a b, P a → P b → alike a b = alike' a b) (hxs : ∀ x ∈ xs, P x) :
    classes alike xs = classes alike' xs ∧ ∀ g ∈ classes alike xs, g.All P := by
  suffices h : ∀ gs : List (Class α), (∀ g ∈ gs, g.All P) →
      xs.foldl (fun gs x => place alike x gs) gs = xs.foldl (fun gs x => place alike' x gs) gs ∧
        ∀ g ∈ xs.foldl (fun gs x => place alike x gs) gs, g.All P from h [] (by simp)
  induction xs with
  | nil => exact fun gs hgs => ⟨rfl, hgs⟩
  | cons x xs ih =>
    intro gs hgs
    obtain ⟨hx, hrest⟩ := List.forall_mem_cons.mp hxs
    have hfirst : ∀ g ∈ gs, P g.first := fun g hg => hgs g hg g.first List.mem_cons_self
    obtain ⟨heq, hall⟩ := ih hrest (place alike x gs) (place_all hx hgs)
    refine ⟨?_, hall⟩
    rw [List.foldl_cons, heq, place_congr hsame hx hfirst, List.foldl_cons]

end DocQuery.Proofs
