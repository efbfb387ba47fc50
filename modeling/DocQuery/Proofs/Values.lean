import DocQuery.Command.Error
import DocQuery.Value.Access
import Mathlib.Data.String.Basic

namespace DocQuery.Proofs

/-- A sequence of two steps succeeds just if both do. -/
theorem bind_ok {ε α β : Type} {x : Except ε α} {f : α → Except ε β} {b : β} :
    (x >>= f) = .ok b ↔ ∃ a, x = .ok a ∧ f a = .ok b := by
  cases x with
  | error e => simp [bind, Except.bind]
  | ok a => simp [bind, Except.bind]

@[simp] theorem ok_bind {ε α β : Type} (a : α) (f : α → Except ε β) :
    (Except.ok a >>= f) = f a := rfl

@[simp] theorem pure_ok {ε α : Type} (a : α) : (pure a : Except ε α) = .ok a := rfl

/-- A check of all items succeeds just if it does on each. -/
theorem for_each_ok {ε α : Type} {g : α → Except ε Unit} {xs : List α} :
    xs.forM g = .ok () ↔ ∀ x ∈ xs, g x = .ok () := by
  induction xs with
  | nil => simp
  | cons x xs ih =>
    rw [List.forM_eq_forM] at ih ⊢
    rw [List.forM_cons, bind_ok, List.forall_mem_cons]
    constructor
    · rintro ⟨_, hx, hxs⟩
      exact ⟨hx, ih.mp hxs⟩
    · rintro ⟨hx, hxs⟩
      exact ⟨_, hx, ih.mpr hxs⟩

/-- All results of a step have a property. -/
def Gives {ε α : Type} (x : Except ε α) (Q : α → Prop) : Prop := ∀ a, x = .ok a → Q a

theorem Gives.bind {ε α β : Type} {x : Except ε α} {f : α → Except ε β} {Q : β → Prop}
    (h : ∀ a, Gives (f a) Q) : Gives (x >>= f) Q := by
  intro b hb
  obtain ⟨a, -, ha⟩ := bind_ok.mp hb
  exact h a b ha

theorem Gives.ite {ε α : Type} {c : Prop} [Decidable c] {x y : Except ε α} {Q : α → Prop}
    (hx : Gives x Q) (hy : Gives y Q) : Gives (if c then x else y) Q := by
  split
  · exact hx
  · exact hy

def Succeeds {ε α : Type} (x : Except ε α) : Prop := ∃ a, x = .ok a

theorem Succeeds.ok {ε α : Type} (a : α) : Succeeds (.ok a : Except ε α) := ⟨a, rfl⟩

theorem Succeeds.bind {ε α β : Type} {x : Except ε α} {f : α → Except ε β} (hx : Succeeds x)
    (hf : ∀ a, Succeeds (f a)) : Succeeds (x >>= f) := by
  obtain ⟨a, rfl⟩ := hx
  exact hf a

theorem Succeeds.ite {ε α : Type} {c : Prop} [Decidable c] {x y : Except ε α}
    (hx : c → Succeeds x) (hy : Succeeds y) : Succeeds (if c then x else y) := by
  split
  · exact hx ‹c›
  · exact hy

theorem map_error_ok {ε ε' α : Type} {g : ε → ε'} {x : Except ε α} {a : α} :
    x.mapError g = .ok a ↔ x = .ok a := by
  cases x <;> simp [Except.mapError]

/-- A step on values succeeds inside a translation just if it does by itself. -/
theorem command_lift_ok {α : Type} {x : Except Fault α} {a : α} :
    (liftM x : Except Command.Error α) = .ok a ↔ x = .ok a := map_error_ok

@[simp] theorem command_lift (a : α) :
    (liftM (Except.ok a : Except Fault α) : Except Command.Error α) = .ok a := rfl

@[simp] theorem same_text (s t : String) : (Value.text s).same (.text t) = (s == t) := by
  simp [Value.same]

theorem pow2_sub_self (e : Int) : Number.Double.pow2 (e - e) = 1 := by
  simp [Number.Double.pow2]

@[simp] theorem same_int (m n : Int) : (Value.int m).same (.int n) = (m == n) := by
  simp only [Value.same, Value.sameNumber, Value.number?, Number.Double.same, Number.Double.ofInt,
    pow2_sub_self]
  grind

@[simp] theorem same_int_text (n : Int) (s : String) : (Value.int n).same (.text s) = false := by
  simp [Value.same, Value.sameNumber, Value.number?]

@[simp] theorem same_text_int (n : Int) (s : String) : (Value.text s).same (.int n) = false := by
  simp [Value.same, Value.sameNumber, Value.number?]

@[simp] theorem less_int (m n : Int) : (Value.int m).less (.int n) = .ok (decide (m < n)) := by
  simp only [Value.less, Value.number?, Number.Double.less, Number.Double.ofInt,
    pow2_sub_self, Number.Double.signedMantissa]
  grind

@[simp] theorem less_text (s t : String) :
    (Value.text s).less (.text t) = .ok (decide (s < t)) := by
  simp [Value.less]

@[simp] theorem as_key_text (s : String) : (Value.text s).asKey = .ok () := rfl

@[simp] theorem str_text (s : String) : (Value.text s).str = .ok s := rfl

@[simp] theorem entry_of_text (s : String) (v : Value) :
    Value.entryOf (.text s) v = .ok (.dict [(.text s, v)]) := rfl

end DocQuery.Proofs
