import Mathlib.Tactic.Common

/-! Programs that read and write byte buffers by index. They end with a value or a
fault: an exception they throw, or an access outside a buffer, which has no defined
behaviour. -/

namespace PrismSdk.Library

inductive Fault where
  | thrown (what : String)
  | undefined
  deriving DecidableEq, Repr

abbrev Checked (α : Type) := Except Fault α

namespace Checked

variable {α β : Type}

/-- Read one byte. -/
def load (p : List UInt8) (i : ℕ) : Checked UInt8 :=
  match p[i]? with
  | some byte => .ok byte
  | none => .error .undefined

/-- Read `n` bytes. -/
def loadAll (p : List UInt8) (i n : ℕ) : Checked (List UInt8) :=
  if i + n ≤ p.length then .ok ((p.drop i).take n) else .error .undefined

/-- Write one byte. -/
def save (p : List UInt8) (i : ℕ) (byte : UInt8) : Checked (List UInt8) :=
  if i < p.length then .ok (p.set i byte) else .error .undefined

theorem bind_eq_ok {x : Checked α} {f : α → Checked β} {b : β} :
    x >>= f = .ok b ↔ ∃ a, x = .ok a ∧ f a = .ok b := by
  cases x with
  | error e =>
    constructor
    · rintro ⟨⟩
    · rintro ⟨a, ⟨⟩, -⟩
  | ok a =>
    constructor
    · exact fun h => ⟨a, rfl, h⟩
    · rintro ⟨_, ⟨⟩, h⟩
      exact h

@[simp] theorem ok_bind (a : α) (f : α → Checked β) : (Except.ok a : Checked α) >>= f = f a := rfl

@[simp] theorem error_bind (e : Fault) (f : α → Checked β) :
    (Except.error e : Checked α) >>= f = .error e := rfl

theorem load_eq_ok {p : List UInt8} {i : ℕ} {byte : UInt8} :
    load p i = .ok byte ↔ p[i]? = some byte := by
  unfold load
  cases p[i]? with
  | none => simp
  | some b => simp

theorem load_of_lt {p : List UInt8} {i : ℕ} (h : i < p.length) : load p i = .ok (p.getD i 0) := by
  rw [load_eq_ok, List.getD_eq_getElem?_getD, List.getElem?_eq_getElem h]
  rfl

theorem loadAll_of_le {p : List UInt8} {i n : ℕ} (h : i + n ≤ p.length) :
    loadAll p i n = .ok ((p.drop i).take n) := if_pos h

theorem save_of_lt {p : List UInt8} {i : ℕ} (h : i < p.length) (byte : UInt8) :
    save p i byte = .ok (p.set i byte) := if_pos h

/-! ### Safety -/

/-- The program ends with a value or an exception. -/
def Safe (x : Checked α) : Prop := x ≠ .error .undefined

theorem safe_ok (a : α) : Safe (.ok a) := by rintro ⟨⟩

theorem safe_thrown (what : String) : Safe (.error (.thrown what) : Checked α) := by rintro ⟨⟩

theorem Safe.bind {x : Checked α} {f : α → Checked β} (hx : Safe x)
    (hf : ∀ a, x = .ok a → Safe (f a)) : Safe (x >>= f) := by
  cases x with
  | error fault =>
    intro h
    exact hx (congrArg Except.error (Except.error.inj h))
  | ok a => exact hf a rfl

theorem safe_load {p : List UInt8} {i : ℕ} (h : i < p.length) : Safe (load p i) := by
  rw [load_of_lt h]
  exact safe_ok _

end Checked

end PrismSdk.Library
