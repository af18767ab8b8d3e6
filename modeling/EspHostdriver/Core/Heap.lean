/-
A heap of objects: allocation that may fail, tables of live objects, and calls that may fault.

- `Heap.malloc` asks an oracle whether the next allocation succeeds; the address is fresh in any case, so two objects
  never share one. Quantifying over the oracle is quantifying over every pattern of failures.
- `Table α` maps addresses to the live objects of one type; `set` writes an object, `free` ends its life.
- A call that may fault returns `Except`; `bind_ok` takes a successful sequence of calls apart.
-/
import Mathlib.Tactic

namespace EspHostdriver

abbrev Addr := ℕ

structure Heap where
  /-- does the `k`-th allocation succeed -/
  ok : ℕ → Bool
  /-- allocations so far, and the next fresh address -/
  next : ℕ

def Heap.malloc (h : Heap) : Option Addr × Heap :=
  (if h.ok h.next then some h.next else none, { h with next := h.next + 1 })

/-- the live objects of one type -/
abbrev Table (α : Type*) := Addr → Option α

namespace Table

variable {α : Type*}

def set (t : Table α) (a : Addr) (v : α) : Table α := fun b => if b = a then some v else t b

def free (t : Table α) (a : Addr) : Table α := fun b => if b = a then none else t b

@[simp] theorem set_self (t : Table α) (a : Addr) (v : α) : t.set a v a = some v := by simp [set]

theorem set_ne (t : Table α) {a b : Addr} (v : α) (h : b ≠ a) : t.set a v b = t b := by simp [set, h]

theorem set_same {t : Table α} {a : Addr} {v : α} (h : t a = some v) : t.set a v = t := by
  funext b
  by_cases hb : b = a
  · rw [hb, set_self, h]
  · exact set_ne t v hb

theorem set_apply (t : Table α) (a b : Addr) (v : α) : t.set a v b = if b = a then some v else t b := rfl

theorem set_comm (t : Table α) {a b : Addr} (h : a ≠ b) (x y : α) : (t.set a x).set b y = (t.set b y).set a x := by
  funext c
  simp only [set_apply]
  split_ifs with h1 h2 <;> first | rfl | exact absurd (h2.symm.trans h1) h

/-- what is live stays live under a write -/
theorem live_set {t : Table α} {a : Addr} (v : α) {b : Addr} (h : ∃ x, t b = some x) : ∃ x, t.set a v b = some x := by
  by_cases hb : b = a
  · exact ⟨v, by simp [hb]⟩
  · obtain ⟨x, hx⟩ := h; exact ⟨x, by rw [set_ne t v hb, hx]⟩

end Table

/-- a sequence of two calls succeeds when both do -/
theorem bind_ok {ε α β : Type} {x : Except ε α} {f : α → Except ε β} {b : β} :
    (x >>= f) = .ok b ↔ ∃ a, x = .ok a ∧ f a = .ok b := by
  cases x with
  | error e => simp [bind, Except.bind]
  | ok a => simp [bind, Except.bind]

/-- and fails with the error of the one that does not -/
theorem bind_error {ε α β : Type} {x : Except ε α} {f : α → Except ε β} {e : ε} :
    (x >>= f) = .error e ↔ x = .error e ∨ ∃ a, x = .ok a ∧ f a = .error e := by
  cases x with
  | error e' => simp [bind, Except.bind]
  | ok a => simp [bind, Except.bind]

theorem ok_pair {ε α β : Type} {a c : α} {b d : β} :
    (Except.ok (a, b) : Except ε (α × β)) = .ok (c, d) ↔ a = c ∧ b = d := by simp

theorem toOption_some {ε α : Type} {x : Except ε α} {a : α} (h : x.toOption = some a) : x = .ok a := by
  cases x with
  | error e => cases h
  | ok b => cases h; rfl

end EspHostdriver
