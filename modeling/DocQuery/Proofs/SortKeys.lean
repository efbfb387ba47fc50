import DocQuery.Proofs.Clauses
import DocQuery.Proofs.Projections

namespace DocQuery.Proofs

open Sql

/-- One key for each item of an order. -/
def itemKeys (os : List OrderItem) : List (Direction × (Entries → Value)) :=
  os.map fun o => (o.direction, (fieldAt · o.column))

/-- Two values compare the other way round if they are exchanged. -/
def Oriented (compare : Value → Value → Ordering) : Prop :=
  ∀ v w, compare w v = (compare v w).swap

/-- The direction of a column at its first place. -/
def firstDirection? (os : List OrderItem) (c : String) : Option Direction :=
  (os.find? (·.column == c)).map (·.direction)

def lastDirection? (os : List OrderItem) (c : String) : Option Direction :=
  firstDirection? os.reverse c

/-- Puts an item in the place of the one of its column, or at the end. -/
def putItem : List OrderItem → OrderItem → List OrderItem
  | [], o => [o]
  | p :: ps, o => if p.column = o.column then o :: ps else p :: putItem ps o

/-- The items of an order, put one after the other. -/
def mergedItems (os : List OrderItem) : List OrderItem := os.foldl putItem []

def sortEntries (os : List OrderItem) : Entries :=
  os.map fun o => (.text o.column, directionSign o.direction)

theorem put_sort_entry (ps : List OrderItem) (o : OrderItem) :
    Entries.put (sortEntries ps) (.text o.column) (directionSign o.direction) =
      sortEntries (putItem ps o) := by
  induction ps with
  | nil => rfl
  | cons p ps ih =>
    simp only [sortEntries, List.map_cons, Entries.put, same_text, putItem] at ih ⊢
    by_cases h : p.column = o.column
    · simp [h]
    · simp [h, ih]

/-- The document of an order has the merged items. -/
theorem order_entries_merged (os : List OrderItem) :
    orderEntries [] os = sortEntries (mergedItems os) := by
  have hfold : ∀ ps : List OrderItem, os.foldl (fun es o =>
      Entries.put es (.text (orderName [] o.column)) (directionSign o.direction)) (sortEntries ps) =
        sortEntries (os.foldl putItem ps) := by
    induction os with
    | nil => simp
    | cons o os ih =>
      intro ps
      have hname : orderName [] o.column = o.column := by simp [orderName]
      rw [List.foldl_cons, hname, put_sort_entry, ih, List.foldl_cons]
  rw [orderEntries, putAll, List.foldl_map]
  exact hfold []

theorem sort_keys_of (os : List OrderItem) :
    (sortEntries os).mapM sortKey? = some (itemKeys os) := by
  rw [sortEntries, List.mapM_map]
  refine map_m_total fun o _ => ?_
  obtain ⟨column, direction⟩ := o
  cases direction <;> rfl

theorem first_direction_cons (o : OrderItem) (os : List OrderItem) (c : String) :
    firstDirection? (o :: os) c =
      if o.column = c then some o.direction else firstDirection? os c := by
  by_cases h : o.column = c <;> simp [firstDirection?, h]

theorem last_direction_cons (o : OrderItem) (os : List OrderItem) (c : String) :
    lastDirection? (o :: os) c =
      (lastDirection? os c).or (if o.column = c then some o.direction else none) := by
  have happend : ∀ ps : List OrderItem, firstDirection? (ps ++ [o]) c =
      (firstDirection? ps c).or (if o.column = c then some o.direction else none) := by
    intro ps
    induction ps with
    | nil => rw [List.nil_append, first_direction_cons]; rfl
    | cons p ps ih =>
      rw [List.cons_append, first_direction_cons, first_direction_cons, ih]
      split <;> rfl
  rw [lastDirection?, List.reverse_cons, happend, lastDirection?]

theorem first_direction_put (ps : List OrderItem) (o : OrderItem) (c : String) :
    firstDirection? (putItem ps o) c =
      if o.column = c then some o.direction else firstDirection? ps c := by
  induction ps with
  | nil => rw [putItem, first_direction_cons]
  | cons p ps ih =>
    rw [putItem]
    split
    · rename_i hp
      rw [first_direction_cons, first_direction_cons, hp]
      split <;> rfl
    · rename_i hp
      rw [first_direction_cons, ih, first_direction_cons]
      by_cases h : p.column = c
      · have hne : ¬ o.column = c := fun he => hp (h.trans he.symm)
        simp [h, hne]
      · simp [h]

/-- The last direction that is put under a column counts. -/
theorem first_direction_merged (os : List OrderItem) (c : String) :
    firstDirection? (mergedItems os) c = lastDirection? os c := by
  have hfold : ∀ ps : List OrderItem, firstDirection? (os.foldl putItem ps) c =
      (lastDirection? os c).or (firstDirection? ps c) := by
    induction os with
    | nil => exact fun ps => rfl
    | cons o os ih =>
      intro ps
      rw [List.foldl_cons, ih, first_direction_put, last_direction_cons, Option.or_assoc]
      split <;> rfl
  rw [mergedItems, hfold]
  exact Option.or_none

/-- All items of the first column are merged into the first item. -/
theorem merged_cons (o : OrderItem) (os : List OrderItem) :
    mergedItems (o :: os) =
      ⟨o.column, (lastDirection? os o.column).getD o.direction⟩ ::
        mergedItems (os.filter (·.column ≠ o.column)) := by
  have hfold : ∀ (p : OrderItem) (ps : List OrderItem), os.foldl putItem (p :: ps) =
      ⟨p.column, (lastDirection? os p.column).getD p.direction⟩ ::
        (os.filter (·.column ≠ p.column)).foldl putItem ps := by
    induction os with
    | nil => exact fun p ps => rfl
    | cons u us ih =>
      intro p ps
      rw [List.foldl_cons, putItem, last_direction_cons]
      by_cases h : p.column = u.column
      · rw [if_pos h, ih, h]
        cases lastDirection? us u.column <;> simp
      · have hne : ¬ u.column = p.column := fun he => h he.symm
        rw [if_neg h, ih, if_neg hne, Option.or_none, List.filter_cons_of_pos (by simpa using hne),
          List.foldl_cons]
  exact hfold o []

theorem first_direction_filter (os : List OrderItem) {c d : String} (h : c ≠ d) :
    firstDirection? (os.filter (·.column ≠ d)) c = firstDirection? os c := by
  induction os with
  | nil => rfl
  | cons o os ih =>
    by_cases ho : o.column = d
    · have hne : ¬ o.column = c := fun he => h (he.symm.trans ho)
      rw [List.filter_cons_of_neg (by simpa using ho), ih, first_direction_cons, if_neg hne]
    · rw [List.filter_cons_of_pos (by simpa using ho), first_direction_cons, ih,
        first_direction_cons]

theorem last_direction_filter (os : List OrderItem) {c d : String} (h : c ≠ d) :
    lastDirection? (os.filter (·.column ≠ d)) c = lastDirection? os c := by
  rw [lastDirection?, ← List.filter_reverse, first_direction_filter _ h, lastDirection?]

theorem direction_removed (os : List OrderItem) (c : String) :
    firstDirection? (os.filter (·.column ≠ c)) c = none := by
  rw [firstDirection?, List.find?_eq_none.mpr, Option.map_none]
  intro o ho
  simpa using (List.mem_filter.mp ho).2

/-- No column has another direction at its last place than at its first one. -/
def KeepsDirections (os : List OrderItem) : Prop :=
  ∀ c, firstDirection? os c = lastDirection? os c

theorem KeepsDirections.head {o : OrderItem} {os : List OrderItem}
    (h : KeepsDirections (o :: os)) :
    (lastDirection? os o.column).getD o.direction = o.direction := by
  have hcolumn := h o.column
  rw [first_direction_cons, last_direction_cons, if_pos rfl, if_pos rfl] at hcolumn
  cases hl : lastDirection? os o.column with
  | none => rfl
  | some d =>
    rw [hl] at hcolumn
    exact (Option.some.inj hcolumn).symm

theorem KeepsDirections.others {o : OrderItem} {os : List OrderItem}
    (h : KeepsDirections (o :: os)) : KeepsDirections (os.filter (·.column ≠ o.column)) := by
  intro c
  by_cases hc : c = o.column
  · rw [hc, direction_removed, lastDirection?, ← List.filter_reverse, direction_removed]
  · have hne : ¬ o.column = c := fun he => hc he.symm
    have hcolumn := h c
    rw [first_direction_cons, last_direction_cons, if_neg hne, if_neg hne,
      Option.or_none] at hcolumn
    rw [first_direction_filter _ hc, last_direction_filter _ hc, hcolumn]

/-- Compares documents by one item of an order. -/
def Engine.compareItem (e : Engine) (o : OrderItem) (a b : Entries) : Ordering :=
  match o.direction with
  | .asc => e.compare (fieldAt a o.column) (fieldAt b o.column)
  | .desc => e.compare (fieldAt b o.column) (fieldAt a o.column)

theorem compare_items_cons (e : Engine) (o : OrderItem) (os : List OrderItem) (a b : Entries) :
    e.compareBy (itemKeys (o :: os)) a b =
      (e.compareItem o a b).then (e.compareBy (itemKeys os) a b) := by
  obtain ⟨column, direction⟩ := o
  cases direction <;> rfl

/-- Items of one column find the same documents equal. -/
theorem compare_item_equal {e : Engine} (he : Oriented e.compare) {o p : OrderItem}
    (hcolumn : p.column = o.column) {a b : Entries} (h : e.compareItem o a b = .eq) :
    e.compareItem p a b = .eq := by
  have hswap := he (fieldAt a o.column) (fieldAt b o.column)
  unfold Engine.compareItem at h ⊢
  rw [hcolumn]
  cases ho : o.direction <;> cases hp : p.direction <;> simp_all

/-- After a column has found documents equal, its other items can be left out. -/
theorem compare_others {e : Engine} (he : Oriented e.compare) {o : OrderItem} {a b : Entries}
    (h : e.compareItem o a b = .eq) (os : List OrderItem) :
    e.compareBy (itemKeys (os.filter (·.column ≠ o.column))) a b =
      e.compareBy (itemKeys os) a b := by
  induction os with
  | nil => rfl
  | cons p os ih =>
    by_cases hp : p.column = o.column
    · rw [List.filter_cons_of_neg (by simpa using hp), ih, compare_items_cons,
        compare_item_equal he hp h]
      rfl
    · rw [List.filter_cons_of_pos (by simpa using hp), compare_items_cons, ih, compare_items_cons]

/-- The merged items compare as the items do, if no direction is lost. -/
theorem compare_merged {e : Engine} (he : Oriented e.compare) {os : List OrderItem}
    (h : KeepsDirections os) (a b : Entries) :
    e.compareBy (itemKeys (mergedItems os)) a b = e.compareBy (itemKeys os) a b := by
  -- The other items of the first column are taken out first, so that the list gets shorter.
  induction hn : os.length using Nat.strong_induction_on generalizing os with
  | _ n ih =>
    cases os with
    | nil => rfl
    | cons o os =>
      have hshorter : (os.filter (·.column ≠ o.column)).length < n := by
        have hle := List.length_filter_le (·.column ≠ o.column) os
        simp only [List.length_cons] at hn
        omega
      rw [merged_cons, h.head, compare_items_cons, ih _ hshorter h.others rfl, compare_items_cons]
      cases hitem : e.compareItem o a b with
      | eq => rw [compare_others he hitem]
      | lt => rfl
      | gt => rfl

theorem dot_parts_join (cs : List Char) : ['.'].intercalate (Value.dotParts cs) = cs := by
  have hjoin : ∀ (p : List Char) (ps : List (List Char)), ps ≠ [] →
      ['.'].intercalate (p :: ps) = p ++ '.' :: ['.'].intercalate ps := by
    intro p ps hps
    obtain ⟨r, rs, rfl⟩ := List.exists_cons_of_ne_nil hps
    simp [List.intercalate]
  fun_induction Value.dotParts cs with
  | case1 => rfl
  | case2 cs ih =>
    have hparts : Value.dotParts cs ≠ [] := by
      fun_cases Value.dotParts cs <;> simp
    rw [hjoin _ _ hparts, ih]
    rfl
  | case3 c cs hc p ps hparts ih =>
    rw [hparts] at ih
    cases ps with
    | nil => simpa [List.intercalate] using ih
    | cons r rs =>
      rw [hjoin _ _ (by simp)] at ih ⊢
      rw [← ih]
      rfl
  | case4 c cs hc hparts ih =>
    rw [hparts] at ih
    simpa [List.intercalate] using ih

/-- A field is told by its path. -/
theorem path_names_injective {s t : String} (h : pathNames s = pathNames t) : s = t := by
  have hparts : Value.dotParts s.toList = Value.dotParts t.toList :=
    List.map_injective_iff.mpr (fun _ _ he => String.ofList_injective he) h
  have hchars := congrArg ['.'].intercalate hparts
  rw [dot_parts_join, dot_parts_join] at hchars
  exact String.toList_injective hchars

/-- A document with a value at one path has only documents at other ones. -/
theorem put_path_other {path other : List String} (hne : other ≠ path) {n : Int} {v : Value}
    (hv : valueAt (.dict (putPath [] path (.int n))) other = some v) : ∃ es, v = .dict es := by
  induction path generalizing other with
  | nil =>
    cases other with
    | nil => exact absurd rfl hne
    | cons x xs => cases hv
  | cons name path ih =>
    cases other with
    | nil => exact ⟨_, (Option.some.inj hv).symm⟩
    | cons x xs =>
      obtain ⟨w, hw, hrest⟩ := value_at_name.mp hv
      cases path with
      | nil =>
        rw [putPath, get_put] at hw
        split at hw
        · rename_i hname
          cases hw
          cases xs with
          | nil => exact absurd (by rw [hname]) hne
          | cons y ys => cases hrest
        · cases hw
      | cons next path =>
        rw [putPath, get_put] at hw
        split at hw
        · rename_i hname
          cases hw
          exact ih (fun he => hne (by rw [hname, he])) hrest
        · cases hw

/-- Integers by their size, and all else as zero. -/
def rank : Value → Int
  | .int n => n
  | _ => 0

def rankEngine : Engine := { plainEngine with compare := fun v w => Ord.compare (rank v) (rank w) }

theorem rank_oriented : Oriented rankEngine.compare := by
  intro v w
  exact Std.OrientedOrd.eq_swap

/-- A document with a number under one field. -/
def numbered (c : String) (n : Int) : Entries := putPath [] (pathNames c) (.int n)

theorem rank_numbered (c : String) (n : Int) : rank (fieldAt (numbered c n) c) = n := by
  obtain ⟨name, path, hpath⟩ := path_names_cons c
  rw [fieldAt, fieldAt?, numbered, put_path_shows _ (by simp [hpath])]
  rfl

theorem rank_numbered_other {c d : String} (h : d ≠ c) (n : Int) :
    rank (fieldAt (numbered c n) d) = 0 := by
  rw [fieldAt]
  cases hv : fieldAt? (numbered c n) d with
  | none => rfl
  | some v =>
    obtain ⟨es, rfl⟩ := put_path_other (fun he => h (path_names_injective he)) hv
    rfl

/-- How two ascending numbers compare in a direction, if there is one. -/
def ascentIn : Option Direction → Ordering
  | none => .eq
  | some .asc => .lt
  | some .desc => .gt

theorem ascent_injective {x y : Option Direction} (h : ascentIn x = ascentIn y) : x = y := by
  rcases x with _ | _ | _ <;> rcases y with _ | _ | _ <;> simp [ascentIn] at h ⊢

/-- Documents that differ in one column compare by the first direction of this column. -/
theorem numbered_compare (os : List OrderItem) (c : String) :
    rankEngine.compareBy (itemKeys os) (numbered c 1) (numbered c 2) =
      ascentIn (firstDirection? os c) := by
  induction os with
  | nil => rfl
  | cons o os ih =>
    rw [compare_items_cons, ih, first_direction_cons]
    obtain ⟨column, direction⟩ := o
    by_cases h : column = c
    · subst h
      cases direction <;>
        simp [Engine.compareItem, rankEngine, rank_numbered, ascentIn] <;> rfl
    · have hequal : rankEngine.compareItem ⟨column, direction⟩ (numbered c 1) (numbered c 2) =
          .eq := by
        cases direction <;>
          simp [Engine.compareItem, rankEngine, rank_numbered_other h]
      rw [hequal, if_neg h]
      rfl

/-- The document of an order compares any two documents as the items of the order do, one after the
other, just if no column has another direction at its last place than at its first one. -/
theorem sort_document_exact (os : List OrderItem) :
    ∃ es keys, Command.sort (.list (os.map OrderItem.toValue)) = .ok (.dict es) ∧
      es.mapM sortKey? = some keys ∧
      ((∀ e : Engine, Oriented e.compare → ∀ a b : Entries,
          e.compareBy keys a b = e.compareBy (itemKeys os) a b) ↔ KeepsDirections os) := by
  refine ⟨sortEntries (mergedItems os), itemKeys (mergedItems os), ?_, sort_keys_of _, ?_⟩
  · rw [sort_of, order_entries_merged]
  · constructor
    · intro h c
      have hcompare := h rankEngine rank_oriented (numbered c 1) (numbered c 2)
      rw [numbered_compare, numbered_compare, first_direction_merged] at hcompare
      exact (ascent_injective hcompare).symm
    · intro h e he a b
      exact compare_merged he h a b

/-- By age in both directions. -/
def agesTwice : List OrderItem := [⟨"age", .asc⟩, ⟨"age", .desc⟩]

/-- The second direction takes the place of the first one. -/
theorem sort_direction_lost :
    ¬ ∀ (os : List OrderItem) (es : Entries) (keys : List (Direction × (Entries → Value))),
        Command.sort (.list (os.map OrderItem.toValue)) = .ok (.dict es) →
        es.mapM sortKey? = some keys → ∀ e : Engine, Oriented e.compare → ∀ a b : Entries,
          e.compareBy keys a b = e.compareBy (itemKeys os) a b := by
  intro h
  have hsort : Command.sort (.list (agesTwice.map OrderItem.toValue)) =
      .ok (.dict (sortEntries [⟨"age", .desc⟩])) := by
    rw [sort_of, order_entries_merged]
    rfl
  have hcompare := h agesTwice _ _ hsort (sort_keys_of _) rankEngine rank_oriented
    (numbered "age" 1) (numbered "age" 2)
  rw [numbered_compare, numbered_compare] at hcompare
  cases hcompare

end DocQuery.Proofs
