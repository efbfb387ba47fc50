import DocQuery.Command.Simplify
import DocQuery.Proofs.Selectors

namespace DocQuery.Proofs

open Value (doc)

/-- A relation orders values if it never goes in a circle and each value stands on one side of any
two that it relates. -/
structure Orders (r : Value → Value → Bool) (vs : List Value) : Prop where
  irrefl : ∀ v ∈ vs, r v v = false
  trans : ∀ u ∈ vs, ∀ v ∈ vs, ∀ w ∈ vs, r u v = true → r v w = true → r u w = true
  split : ∀ u ∈ vs, ∀ v ∈ vs, ∀ w ∈ vs, r u w = true → r u v = true ∨ r v w = true

theorem Orders.subset {r : Value → Value → Bool} {vs ws : List Value} (h : Orders r vs)
    (hs : ∀ w ∈ ws, w ∈ vs) : Orders r ws where
  irrefl v hv := h.irrefl v (hs v hv)
  trans u hu v hv w hw := h.trans u (hs u hu) v (hs v hv) w (hs w hw)
  split u hu v hv w hw := h.split u (hs u hu) v (hs v hv) w (hs w hw)

theorem Orders.reverse {r : Value → Value → Bool} {vs : List Value} (h : Orders r vs) :
    Orders (fun v w => r w v) vs where
  irrefl := h.irrefl
  trans u hu v hv w hw huv hvw := h.trans w hw v hv u hu hvw huv
  split u hu v hv w hw huw := (h.split w hw v hv u hu huw).symm

/-- The first of the values that no other one precedes. -/
def best (r : Value → Value → Bool) : Value → List Value → Value
  | v, [] => v
  | v, w :: ws => best r (if r w v then w else v) ws

theorem best_mem (r : Value → Value → Bool) (v : Value) (ws : List Value) :
    best r v ws ∈ v :: ws := by
  induction ws generalizing v with
  | nil => simp [best]
  | cons w ws ih =>
    cases hb : r w v with
    | true =>
      simp only [best, hb, ↓reduceIte]
      exact List.mem_cons_of_mem _ (ih w)
    | false =>
      simp only [best, hb, Bool.false_eq_true, ↓reduceIte]
      rcases List.mem_cons.mp (ih v) with he | hm
      · simp [he]
      · simp [hm]

theorem best_first {r : Value → Value → Bool} {v : Value} {ws : List Value}
    (h : Orders r (v :: ws)) : ∀ w ∈ v :: ws, r w (best r v ws) = false := by
  induction ws generalizing v with
  | nil => simpa [best] using h.irrefl v (by simp)
  | cons w ws ih =>
    have hv : v ∈ v :: w :: ws := by simp
    have hw : w ∈ v :: w :: ws := by simp
    have hm : best r v (w :: ws) ∈ v :: w :: ws := best_mem r v (w :: ws)
    have hrest := ih (v := if r w v then w else v) (h.subset (by split <;> simp +contextual))
    rw [← best] at hrest
    intro u hu
    by_contra hum
    have hum : r u (best r v (w :: ws)) = true := by simpa using hum
    -- The value that is given up for the other is not before the best one either.
    cases hb : r w v with
    | true =>
      simp only [hb, ↓reduceIte] at hrest
      have hw' := hrest w (by simp)
      rcases List.mem_cons.mp hu with rfl | hu
      · simp [h.trans w hw u hv _ hm hb hum] at hw'
      · simp [hrest u hu] at hum
    | false =>
      simp only [hb, Bool.false_eq_true, ↓reduceIte] at hrest
      have hv' := hrest v (by simp)
      rcases List.mem_cons.mp hu with rfl | hu
      · simp [hv'] at hum
      · rcases List.mem_cons.mp hu with rfl | hu
        · rcases h.split u hw v hv _ hm hum with huv | hvm
          · simp [hb] at huv
          · simp [hv'] at hvm
        · simp [hrest u (by simp [hu])] at hum

/-- The best bound admits what any of the bounds admits. -/
theorem best_weakest {r : Value → Value → Bool} {x v : Value} {ws : List Value}
    (h : Orders r (x :: v :: ws)) : r (best r v ws) x = true ↔ ∃ w ∈ v :: ws, r w x = true := by
  have hx : x ∈ x :: v :: ws := by simp
  have hm := best_mem r v ws
  have hfirst := best_first (h.subset (fun w hw => List.mem_cons_of_mem _ hw) : Orders r (v :: ws))
  constructor
  · intro hb
    exact ⟨_, hm, hb⟩
  · rintro ⟨w, hw, hwx⟩
    rcases h.split w (List.mem_cons_of_mem _ hw) _ (List.mem_cons_of_mem _ hm) x hx hwx with hb | hb
    · simp [hfirst w hw] at hb
    · exact hb

/-- Values of which each two can be compared, and which are in order. -/
structure Comparable (vs : List Value) : Prop extends Orders before vs where
  answers : ∀ v ∈ vs, ∀ w ∈ vs, v.less w = .ok (before v w)

theorem Comparable.subset {vs ws : List Value} (h : Comparable vs) (hs : ∀ w ∈ ws, w ∈ vs) :
    Comparable ws :=
  ⟨h.toOrders.subset hs, fun v hv w hw => h.answers v (hs v hv) w (hs w hw)⟩

/-- Integers can be compared with each other, and so can texts. -/
theorem comparable_scalars (vs : List Scalar)
    (h : ∀ v ∈ vs, ∀ w ∈ vs, v.isText = w.isText) : Comparable (vs.map Scalar.toValue) where
  irrefl := by
    simp only [List.forall_mem_map, before_scalar]
    exact fun v _ => scalar_lt_irrefl v
  trans := by
    simp only [List.forall_mem_map, before_scalar]
    exact fun u _ v _ w _ huv hvw => scalar_lt_trans huv hvw
  split := by
    simp only [List.forall_mem_map, before_scalar]
    intro u hu v hv w hw huw
    rcases scalar_lt_trichotomy (h u hu v hv) with huv | rfl | hvu
    · exact .inl huv
    · exact .inr huw
    · exact .inr (scalar_lt_trans hvu huw)
  answers := by
    simp only [List.forall_mem_map, before_scalar]
    exact fun v hv w hw => less_scalar (h v hv w hw)

/-- The last value that is kept if each next one is tested against the one that is kept. -/
structure Extreme (extreme : Value → List Value → Except Fault Value)
    (test : Value → Value → Except (Kind × Kind) Bool) : Prop where
  nil (v : Value) : extreme v [] = .ok v
  ok {v w : Value} {b : Bool} (ws : List Value) (h : test w v = .ok b) :
    extreme v (w :: ws) = extreme (if b then w else v) ws
  error {v w : Value} {e : Kind × Kind} (ws : List Value) (h : test w v = .error e) :
    ∃ f, extreme v (w :: ws) = .error f

theorem least_extreme : Extreme Command.least Value.less where
  nil _ := rfl
  ok ws h := by rw [Command.least, h]
  error ws h := by
    rw [Command.least, h]
    exact ⟨_, rfl⟩

theorem greatest_extreme : Extreme Command.greatest Value.greater where
  nil _ := rfl
  ok ws h := by rw [Command.greatest, h]
  error ws h := by
    rw [Command.greatest, h]
    exact ⟨_, rfl⟩

section Extremes
variable {extreme : Value → List Value → Except Fault Value}
  {test : Value → Value → Except (Kind × Kind) Bool} {v : Value} {ws : List Value}

theorem Extreme.eq_best (h : Extreme extreme test) {r : Value → Value → Bool}
    (hr : ∀ u ∈ v :: ws, ∀ w ∈ v :: ws, test u w = .ok (r u w)) :
    extreme v ws = .ok (best r v ws) := by
  induction ws generalizing v with
  | nil => exact h.nil v
  | cons w ws ih =>
    have hkept : ∀ u ∈ (if r w v then w else v) :: ws, u ∈ v :: w :: ws := by
      split <;> simp +contextual
    rw [h.ok ws (hr w (by simp) v (by simp)), best]
    exact ih fun u hu w hw => hr u (hkept u hu) w (hkept w hw)

theorem Extreme.mem (h : Extreme extreme test) {u : Value} (hu : extreme v ws = .ok u) :
    u ∈ v :: ws := by
  induction ws generalizing v with
  | nil =>
    rw [h.nil] at hu
    exact List.mem_singleton.mpr (Except.ok.inj hu).symm
  | cons w ws ih =>
    cases htest : test w v with
    | error e =>
      obtain ⟨f, hf⟩ := h.error ws htest
      rw [hf] at hu
      cases hu
    | ok b =>
      rw [h.ok ws htest] at hu
      rcases List.mem_cons.mp (ih hu) with rfl | hu
      · cases b <;> simp
      · exact List.mem_cons_of_mem v (List.mem_cons_of_mem w hu)

end Extremes

theorem least_eq {v : Value} {ws : List Value} (h : Comparable (v :: ws)) :
    Command.least v ws = .ok (best before v ws) :=
  least_extreme.eq_best h.answers

theorem greatest_eq {v : Value} {ws : List Value} (h : Comparable (v :: ws)) :
    Command.greatest v ws = .ok (best (fun v w => before w v) v ws) :=
  greatest_extreme.eq_best fun u hu w hw => by rw [Value.greater, h.answers w hw u hu]

/-- A lower or an upper bound, which is not reached itself. -/
inductive Bound where
  | above (v : Value)
  | below (v : Value)
deriving Repr

namespace Bound

def value : Bound → Value
  | above v | below v => v

/-- The test of a field in a filter. -/
def toValue (f : String) : Bound → Value
  | above v => doc [(f, doc [("$gt", v)])]
  | below v => doc [(f, doc [("$lt", v)])]

def holds (x : Value) : Bound → Bool
  | above v => before v x
  | below v => before x v

def lower? : Bound → Option Value
  | above v => some v
  | below _ => none

def upper? : Bound → Option Value
  | above _ => none
  | below v => some v

end Bound

/-- Bounds in lists of alternatives that are nested to any depth. -/
inductive Nest where
  | bound (b : Bound)
  | any (ts : List Nest)

mutual
def Nest.bounds : Nest → List Bound
  | .bound b => [b]
  | .any ts => nestBounds ts

def nestBounds : List Nest → List Bound
  | [] => []
  | t :: ts => t.bounds ++ nestBounds ts
end

mutual
def Nest.toValue (f : String) : Nest → Value
  | .bound b => b.toValue f
  | .any ts => doc [("$or", .list (nestValues f ts))]

def nestValues (f : String) : List Nest → List Value
  | [] => []
  | t :: ts => t.toValue f :: nestValues f ts
end

theorem holds_bound (at_ : String → Value) (f : String) (b : Bound) :
    holds at_ (b.toValue f) = b.holds (at_ f) := by
  cases b <;>
    simp [Bound.toValue, Bound.holds, doc, holds, holdsEntries, suits, isOperator, passesTest,
      passes]

mutual
/-- Nested alternatives come out in their place. -/
theorem flatten_nest (f : String) (hf : f ≠ "$or") (t : Nest) {vs ws : List Value}
    (hv : Command.flattenItems vs = .ok ws) :
    Command.flattenItems (t.toValue f :: vs) = .ok (t.bounds.map (Bound.toValue f) ++ ws) := by
  cases t with
  | bound b =>
    cases b <;>
      simp [Nest.toValue, Nest.bounds, Bound.toValue, doc, Command.flattenItems, Command.nested?,
        hf, hv]
  | any ts =>
    have ih := flatten_nests f hf ts
    simp [Nest.toValue, Nest.bounds, doc, Command.flattenItems, Command.nested?, Command.flatten,
      ih, hv]

theorem flatten_nests (f : String) (hf : f ≠ "$or") (ts : List Nest) :
    Command.flattenItems (nestValues f ts) = .ok ((nestBounds ts).map (Bound.toValue f)) := by
  cases ts with
  | nil => rfl
  | cons t ts =>
    have ih := flatten_nest f hf t (flatten_nests f hf ts)
    simpa [nestValues, nestBounds] using ih
end

theorem bounds_on_field (f : String) (bs : List Bound) :
    Command.bounds? (.text f) (bs.map (Bound.toValue f)) =
      some (.text f, bs.filterMap Bound.lower?, bs.filterMap Bound.upper?) := by
  induction bs with
  | nil => rfl
  | cons b bs ih =>
    cases b <;>
      simp [Bound.toValue, doc, Command.bounds?, Command.single?, Command.sameField?, Value.kind,
        Entries.get?, Bound.lower?, Bound.upper?, List.filterMap_cons, ih]

/-- Bounds of one field are recognised, and come apart into lower and upper ones. -/
theorem bounds_of_bounds (f : String) (b : Bound) (bs : List Bound) :
    Command.bounds? .null ((b :: bs).map (Bound.toValue f)) =
      some (.text f, (b :: bs).filterMap Bound.lower?, (b :: bs).filterMap Bound.upper?) := by
  have h := bounds_on_field f bs
  cases b <;>
    simp [Bound.toValue, doc, Command.bounds?, Command.single?, Command.sameField?, Value.kind,
      Entries.get?, Bound.lower?, Bound.upper?, List.filterMap_cons, h]

theorem bounds_not_equalities (f : String) (b : Bound) (bs : List Bound) :
    Command.equalities? .null ((b :: bs).map (Bound.toValue f)) = none := by
  cases b <;> simp [Bound.toValue, doc, Command.equalities?, Command.single?]

theorem mem_lowers {bs : List Bound} {v : Value} :
    v ∈ bs.filterMap Bound.lower? ↔ .above v ∈ bs := by
  rw [List.mem_filterMap]
  constructor
  · rintro ⟨b, hb, hv⟩
    cases b <;> simp_all [Bound.lower?]
  · intro hv
    exact ⟨_, hv, rfl⟩

theorem mem_uppers {bs : List Bound} {v : Value} :
    v ∈ bs.filterMap Bound.upper? ↔ .below v ∈ bs := by
  rw [List.mem_filterMap]
  constructor
  · rintro ⟨b, hb, hv⟩
    cases b <;> simp_all [Bound.upper?]
  · intro hv
    exact ⟨_, hv, rfl⟩

/-- What is left of bounds: the weakest lower one, or the weakest upper one where there is no
lower one. -/
theorem weakest_bound (at_ : String → Value) (f : String) (b : Bound) (bs : List Bound)
    (h : Comparable (at_ f :: (b :: bs).map Bound.value)) :
    ∃ c ∈ b :: bs, Command.alternatives ((b :: bs).map (Bound.toValue f)) = .ok (c.toValue f) ∧
      (holds at_ (c.toValue f) = true ↔
        (∃ v, .above v ∈ b :: bs ∧ before v (at_ f) = true) ∨
          (∀ v, .above v ∉ b :: bs) ∧ ∃ v, .below v ∈ b :: bs ∧ before (at_ f) v = true) := by
  have hvalue : ∀ c ∈ b :: bs, c.value ∈ at_ f :: (b :: bs).map Bound.value :=
    fun c hc => List.mem_cons_of_mem _ (List.mem_map_of_mem hc)
  simp only [Command.alternatives, bounds_not_equalities, bounds_of_bounds]
  cases hlow : (b :: bs).filterMap Bound.lower? with
  | cons low lows =>
    have hmem : ∀ v ∈ low :: lows, .above v ∈ b :: bs := fun v hv => mem_lowers.mp (hlow ▸ hv)
    have hcomp : Comparable (at_ f :: low :: lows) := h.subset (by
      intro w hw
      rcases List.mem_cons.mp hw with rfl | hw
      · simp
      · exact hvalue _ (hmem w hw))
    have hleast := least_eq (hcomp.subset (fun w hw => List.mem_cons_of_mem _ hw))
    simp only [hleast, ok_bind, pure_ok]
    refine ⟨.above (best before low lows), hmem _ (best_mem _ _ _), rfl, ?_⟩
    rw [holds_bound, Bound.holds, best_weakest hcomp.toOrders]
    constructor
    · rintro ⟨v, hv, hx⟩
      exact .inl ⟨v, hmem v hv, hx⟩
    · rintro (⟨v, hv, hx⟩ | ⟨hnone, -⟩)
      · exact ⟨v, hlow ▸ mem_lowers.mpr hv, hx⟩
      · exact absurd (hmem low (by simp)) (hnone low)
  | nil =>
    have hnone : ∀ v, .above v ∉ b :: bs := by
      intro v hv
      have := mem_lowers.mpr hv
      simp [hlow] at this
    cases hhigh : (b :: bs).filterMap Bound.upper? with
    | nil =>
      cases b with
      | above v => exact absurd (List.mem_cons_self) (hnone v)
      | below v => simp [Bound.upper?] at hhigh
    | cons high highs =>
      have hmem : ∀ v ∈ high :: highs, .below v ∈ b :: bs := fun v hv => mem_uppers.mp (hhigh ▸ hv)
      have hcomp : Comparable (at_ f :: high :: highs) := h.subset (by
        intro w hw
        rcases List.mem_cons.mp hw with rfl | hw
        · simp
        · exact hvalue _ (hmem w hw))
      have hgreatest := greatest_eq (hcomp.subset (fun w hw => List.mem_cons_of_mem _ hw))
      simp only [hgreatest, ok_bind, pure_ok]
      refine ⟨.below (best _ high highs), hmem _ (best_mem _ _ _), rfl, ?_⟩
      rw [holds_bound, Bound.holds, best_weakest hcomp.toOrders.reverse]
      constructor
      · rintro ⟨v, hv, hx⟩
        exact .inr ⟨hnone, v, hmem v hv, hx⟩
      · rintro (⟨v, hv, -⟩ | ⟨-, v, hv, hx⟩)
        · exact absurd hv (hnone v)
        · exact ⟨v, hhigh ▸ mem_uppers.mpr hv, hx⟩

theorem alternatives_of_bounds (at_ : String → Value) (f : String) (b : Bound) (bs : List Bound)
    (h : Comparable (at_ f :: (b :: bs).map Bound.value)) :
    ∃ g, Command.alternatives ((b :: bs).map (Bound.toValue f)) = .ok g ∧
      (holds at_ g = true ↔
        (∃ v, .above v ∈ b :: bs ∧ before v (at_ f) = true) ∨
          (∀ v, .above v ∉ b :: bs) ∧ ∃ v, .below v ∈ b :: bs ∧ before (at_ f) v = true) := by
  obtain ⟨c, -, hc, hx⟩ := weakest_bound at_ f b bs h
  exact ⟨_, hc, hx⟩

/-- A value is lost if it passes an upper bound only, where there are lower bounds too. -/
def Lost (bs : List Bound) (x : Value) : Prop :=
  (∃ v, .above v ∈ bs) ∧ (∀ v, .above v ∈ bs → before v x = false) ∧
    ∃ v, .below v ∈ bs ∧ before x v = true

theorem simplify_alternatives (f : String) (hf : f ≠ "$or") (ts : List Nest) :
    Command.simplifyFilter ((Nest.any ts).toValue f) =
      Command.alternatives ((nestBounds ts).map (Bound.toValue f)) := by
  have hflat := flatten_nests f hf ts
  simp [Command.simplifyFilter, Nest.toValue, doc, Value.isIn, Entries.has, Value.entry,
    Value.index, Entries.get?, Command.flatten, hflat]

theorem some_bound_holds {at_ : String → Value} {f : String} {bs : List Bound} :
    (∃ b ∈ bs, holds at_ (b.toValue f) = true) ↔
      (∃ v, .above v ∈ bs ∧ before v (at_ f) = true) ∨
        ∃ v, .below v ∈ bs ∧ before (at_ f) v = true := by
  constructor
  · rintro ⟨b, hb, hx⟩
    rw [holds_bound] at hx
    cases b with
    | above v => exact .inl ⟨v, hb, hx⟩
    | below v => exact .inr ⟨v, hb, hx⟩
  · rintro (⟨v, hv, hx⟩ | ⟨v, hv, hx⟩)
    · exact ⟨_, hv, by rwa [holds_bound]⟩
    · exact ⟨_, hv, by rwa [holds_bound]⟩

/-- Bounds of one field always have a simpler form. It selects a document just if one of the bounds
does, unless the value of the document is lost. -/
theorem range_simplification_exact (f : String) (hf : f ≠ "$or") (ts : List Nest) (d : Entries)
    (h : Comparable (Entries.field d f :: (nestBounds ts).map Bound.value)) :
    ∃ g, Command.simplifyFilter ((Nest.any ts).toValue f) = .ok g ∧
      ((holds (Entries.field d) g = true ↔
          ∃ b ∈ nestBounds ts, holds (Entries.field d) (b.toValue f) = true) ↔
        ¬ Lost (nestBounds ts) (Entries.field d f)) := by
  rw [simplify_alternatives f hf ts]
  cases hbs : nestBounds ts with
  | nil =>
    refine ⟨_, rfl, ?_⟩
    simp [Lost, holds, holdsEntries]
  | cons b bs =>
    rw [hbs] at h
    obtain ⟨g, hg, hholds⟩ := alternatives_of_bounds (Entries.field d) f b bs h
    refine ⟨g, hg, ?_⟩
    rw [hholds, some_bound_holds, Lost]
    constructor
    · rintro hiff ⟨⟨v, hv⟩, hlow, w, hw, hx⟩
      rcases hiff.mpr (.inr ⟨w, hw, hx⟩) with ⟨u, hu, hux⟩ | ⟨hnone, -⟩
      · simp [hlow u hu] at hux
      · exact hnone v hv
    · intro hkept
      constructor
      · rintro (hlow | ⟨-, hup⟩)
        · exact .inl hlow
        · exact .inr hup
      · rintro (hlow | hup)
        · exact .inl hlow
        · by_cases hany : ∃ v, .above v ∈ b :: bs
          · left
            by_contra hno
            refine hkept ⟨hany, fun v hv => ?_, hup⟩
            by_contra hx
            exact hno ⟨v, hv, by simpa using hx⟩
          · exact .inr ⟨fun v hv => hany ⟨v, hv⟩, hup⟩

/-- `age > 60 OR (age < 18 OR age > 40)`, of a document with the age 50. -/
theorem range_simplification_fifty :
    let ts : List Nest :=
      [.bound (.above (.int 60)), .any [.bound (.below (.int 18)), .bound (.above (.int 40))]]
    let d : Entries := [(.text "name", .text "Ada"), (.text "age", .int 50)]
    Comparable (Entries.field d "age" :: (nestBounds ts).map Bound.value) ∧
      ∃ g, Command.simplifyFilter ((Nest.any ts).toValue "age") = .ok g ∧
        ((holds (Entries.field d) g = true ↔
            ∃ b ∈ nestBounds ts, holds (Entries.field d) (b.toValue "age") = true) ↔
          ¬ Lost (nestBounds ts) (Entries.field d "age")) := by
  intro ts d
  have hcomp : Comparable (Entries.field d "age" :: (nestBounds ts).map Bound.value) :=
    comparable_scalars [.int 50, .int 60, .int 18, .int 40] (by decide)
  exact ⟨hcomp, range_simplification_exact "age" (by decide) ts d hcomp⟩

/-- Of `age < 18 OR age > 60` only the second bound is left, which an age of 10 does not pass. -/
theorem range_simplification_loses :
    ¬ ∀ (f : String) (ts : List Nest) (d : Entries), f ≠ "$or" →
      Comparable (Entries.field d f :: (nestBounds ts).map Bound.value) →
      ∃ g, Command.simplifyFilter ((Nest.any ts).toValue f) = .ok g ∧
        (holds (Entries.field d) g = true ↔
          ∃ b ∈ nestBounds ts, holds (Entries.field d) (b.toValue f) = true) := by
  intro hall
  have hcomp := comparable_scalars [.int 10, .int 18, .int 60] (by decide)
  obtain ⟨g, hg, hiff⟩ := hall "age" [.bound (.below (.int 18)), .bound (.above (.int 60))]
    [(.text "age", .int 10)] (by decide) hcomp
  have hgt : g = (Bound.above (.int 60)).toValue "age" := by
    have : (Except.ok ((Bound.above (.int 60)).toValue "age") : Except Fault Value) = .ok g := hg
    exact (Except.ok.inj this).symm
  have hlost := hiff.mpr ⟨.below (.int 18), by simp [nestBounds, Nest.bounds], rfl⟩
  rw [hgt] at hlost
  exact absurd hlost (by decide)

end DocQuery.Proofs
