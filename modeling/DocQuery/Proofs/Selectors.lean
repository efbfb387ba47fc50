import DocQuery.Proofs.Matching
import DocQuery.Sql.Syntax

namespace DocQuery.Proofs

open Value (doc)

inductive Scalar where
  | int (n : Int)
  | text (s : String)
deriving DecidableEq, Repr

namespace Scalar

def toValue : Scalar → Value
  | int n => .int n
  | text s => .text s

def isText : Scalar → Bool
  | int _ => false
  | text _ => true

/-- Integers by size, texts by code points. -/
def lt : Scalar → Scalar → Bool
  | int m, int n => m < n
  | text s, text t => s < t
  | _, _ => false

def le : Scalar → Scalar → Bool
  | int m, int n => m ≤ n
  | text s, text t => s ≤ t
  | _, _ => false

theorem to_value_injective {v w : Scalar} (h : v.toValue = w.toValue) : v = w := by
  cases v <;> cases w <;> simp_all [toValue]

end Scalar

@[simp] theorem same_scalar (v w : Scalar) : v.toValue.same w.toValue = decide (v = w) := by
  cases v <;> cases w <;> simp [Scalar.toValue, beq_eq_decide]

@[simp] theorem equals_scalar (v w : Scalar) : equals v.toValue w.toValue = decide (v = w) := by
  cases v <;> cases w <;> simp [equals, orderType, Scalar.toValue, Value.kind, beq_eq_decide]

@[simp] theorem before_scalar (v w : Scalar) : before v.toValue w.toValue = v.lt w := by
  cases v <;> cases w <;>
    simp [before, orderType, Scalar.toValue, Scalar.lt, Value.kind, Except.toOption]

theorem scalar_le (v w : Scalar) : v.le w = (v.lt w || decide (v = w)) := by
  cases v with
  | int m =>
    cases w with
    | int n =>
      rw [Bool.eq_iff_iff]
      simp only [Scalar.le, Scalar.lt, decide_eq_true_eq, Bool.or_eq_true, Scalar.int.injEq]
      exact le_iff_lt_or_eq
    | text t => simp [Scalar.le, Scalar.lt]
  | text s =>
    cases w with
    | int n => simp [Scalar.le, Scalar.lt]
    | text t =>
      rw [Bool.eq_iff_iff]
      simp only [Scalar.le, Scalar.lt, decide_eq_true_eq, Bool.or_eq_true, Scalar.text.injEq]
      exact le_iff_lt_or_eq

theorem scalar_lt_irrefl (v : Scalar) : v.lt v = false := by
  cases v <;> simp [Scalar.lt]

theorem scalar_lt_trans {u v w : Scalar} (huv : u.lt v = true) (hvw : v.lt w = true) :
    u.lt w = true := by
  cases u <;> cases v <;> cases w <;> simp_all only [Scalar.lt, decide_eq_true_eq, reduceCtorEq]
  · exact lt_trans huv hvw
  · exact lt_trans huv hvw

/-- Scalars of one type are in order, one way or the other. -/
theorem scalar_lt_trichotomy {v w : Scalar} (h : v.isText = w.isText) :
    v.lt w = true ∨ v = w ∨ w.lt v = true := by
  cases v <;> cases w <;> simp_all only [Scalar.isText, Scalar.lt, decide_eq_true_eq,
    Scalar.int.injEq, Scalar.text.injEq, reduceCtorEq]
  · exact lt_trichotomy _ _
  · exact lt_trichotomy _ _

theorem less_scalar {v w : Scalar} (h : v.isText = w.isText) :
    v.toValue.less w.toValue = .ok (v.lt w) := by
  cases v <;> cases w <;> simp_all [Scalar.isText, Scalar.toValue, Scalar.lt]

/-- A test of one field against literals. -/
inductive FieldTest where
  | compare (r : Sql.Relation) (v : Scalar)
  | between (low high : Scalar)
  | among (vs : List Scalar)
deriving DecidableEq, Repr

namespace FieldTest

/-- What stands beside the field in a filter. -/
def toValue : FieldTest → Value
  | compare .eq v => v.toValue
  | compare .ne v => doc [("$ne", v.toValue)]
  | compare .gt v => doc [("$gt", v.toValue)]
  | compare .lt v => doc [("$lt", v.toValue)]
  | compare .ge v => doc [("$gte", v.toValue)]
  | compare .le v => doc [("$lte", v.toValue)]
  | between low high => doc [("$gte", low.toValue), ("$lte", high.toValue)]
  | among vs => doc [("$in", .list (vs.map Scalar.toValue))]

/-- Whether a value passes, of whatever type it is. -/
def holds (x : Value) : FieldTest → Bool
  | compare .eq v => equals x v.toValue
  | compare .ne v => !equals x v.toValue
  | compare .gt v => before v.toValue x
  | compare .lt v => before x v.toValue
  | compare .ge v => before v.toValue x || equals x v.toValue
  | compare .le v => before x v.toValue || equals x v.toValue
  | between low high =>
    (before low.toValue x || equals x low.toValue) &&
      (before x high.toValue || equals x high.toValue)
  | among vs => vs.any (fun v => equals x v.toValue)

/-- The same test on a scalar, in the terms of SQL. -/
def accepts (x : Scalar) : FieldTest → Bool
  | compare .eq v => x = v
  | compare .ne v => x ≠ v
  | compare .gt v => v.lt x
  | compare .lt v => x.lt v
  | compare .ge v => v.le x
  | compare .le v => x.le v
  | between low high => low.le x && x.le high
  | among vs => x ∈ vs

theorem suits_to_value (x : Value) (t : FieldTest) : suits x t.toValue = t.holds x := by
  cases t with
  | compare r v =>
    cases r <;> cases v <;>
      simp [toValue, holds, suits, doc, isOperator, passesTest, passes, Scalar.toValue]
  | between low high => simp [toValue, holds, suits, doc, isOperator, passesTest, passes]
  | among vs =>
    simp [toValue, holds, suits, doc, isOperator, passesTest, passes, membersOf, List.any_map,
      Function.comp_def]

theorem holds_scalar (x : Scalar) (t : FieldTest) : t.holds x.toValue = t.accepts x := by
  cases t with
  | compare r v =>
    cases r <;> simp [holds, accepts, scalar_le, eq_comm]
  | between low high =>
    have hlow : decide (x = low) = decide (low = x) := by simp [eq_comm]
    simp [holds, accepts, scalar_le, hlow]
  | among vs =>
    rw [Bool.eq_iff_iff]
    simp [holds, accepts]

end FieldTest

inductive Selector where
  | field (name : String) (test : FieldTest)
  | both (left right : Selector)
  | either (left right : Selector)
deriving Repr

namespace Selector

def toValue : Selector → Value
  | field name t => doc [(name, t.toValue)]
  | both l r => doc [("$and", .list [l.toValue, r.toValue])]
  | either l r => doc [("$or", .list [l.toValue, r.toValue])]

def holds (at_ : String → Value) : Selector → Bool
  | field name t => t.holds (at_ name)
  | both l r => l.holds at_ && r.holds at_
  | either l r => l.holds at_ || r.holds at_

/-- The key of a filter, which has just one. -/
def key : Selector → String
  | field name _ => name
  | both _ _ => "$and"
  | either _ _ => "$or"

/-- What stands under the key. -/
def body : Selector → Value
  | field _ t => t.toValue
  | both l r => .list [l.toValue, r.toValue]
  | either l r => .list [l.toValue, r.toValue]

end Selector

theorem selector_single (s : Selector) : s.toValue = .dict [(.text s.key, s.body)] := by
  cases s <;> rfl

theorem test_not_list (t : FieldTest) (vs : List Value) : t.toValue ≠ .list vs := by
  cases t with
  | compare r v => cases r <;> cases v <;> simp [FieldTest.toValue, doc, Scalar.toValue]
  | between low high => simp [FieldTest.toValue, doc]
  | among vs => simp [FieldTest.toValue, doc]

theorem holds_field (at_ : String → Value) (name : String) (v : Value)
    (h : ∀ vs, v ≠ .list vs) : Proofs.holds at_ (doc [(name, v)]) = suits (at_ name) v := by
  cases v <;> simp_all [doc, Proofs.holds, holdsEntries]

/-- The closed form selects what the filter selects. -/
theorem holds_to_value (at_ : String → Value) (s : Selector) :
    Proofs.holds at_ s.toValue = s.holds at_ := by
  induction s with
  | field name t =>
    rw [Selector.toValue, holds_field at_ name _ (test_not_list t), FieldTest.suits_to_value]
    rfl
  | both l r ihl ihr =>
    simp [Selector.toValue, Selector.holds, doc, Proofs.holds, holdsEntries, holdsAll, ihl, ihr]
  | either l r ihl ihr =>
    simp [Selector.toValue, Selector.holds, doc, Proofs.holds, holdsEntries, holdsAny, ihl, ihr]

end DocQuery.Proofs
