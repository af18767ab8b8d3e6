/-
What `itoa` leaves in the buffer it is given (`net/netdev.c`).

The first loop divides digits off into an array of `len` places, the second stores them through `s` the other way round,
and the terminator goes behind the last one. Between the loops it is checked that every digit had a place; that the
terminator has one is not.

- `fill_eq`: the first loop has all digits exactly when they have a place, and else it stops at a rest.
- `itoa_eq`: the stores of a call are the text and its terminator, at the positions from 0 on; without room for the
  digits there are none.
- `host_itoa`: the names of the nodes in the model of the sockets are what these stores leave.
- `itoa_exact`: the call is exact if and only if the number has not exactly `len` digits.
- `itoa_exact_fails`: the descriptor number 10000000 has 8 digits, and a name has 8 bytes.
-/
import EspHostdriver.Core.Numeral
import EspHostdriver.Net.Netdev

namespace EspHostdriver.NumberText

open Numeral

/-! ## Model -/

/-- the array `inv_s`, filled from its start, and what is left of `v` -/
structure Digits where
  inv : Bytes
  v : Int32
deriving DecidableEq

/-- one turn of the first loop; an `int` divided by an `unsigned int` is divided as one -/
def turn (base : UInt32) (t : Digits) : Digits :=
  let d := (t.v.toUInt32 % base).toNat % 0xff
  ⟨t.inv ++ [UInt8.ofNat (if d < 10 then 48 + d else 97 + d - 10)], (t.v.toUInt32 / base).toInt32⟩

/-- the first loop with so many places left -/
def fill (base : UInt32) : ℕ → Digits → Digits
  | 0, t => t
  | n + 1, t => if (turn base t).v ≠ 0 then fill base n (turn base t) else turn base t

/-- the stores of a call through `s`, in order; null leaves before the first -/
def itoa (v : Int32) (base : UInt32) (len : ℕ) : Option (List (ℕ × UInt8)) :=
  let t := fill base len ⟨[], v⟩
  if t.v ≠ 0 then none
  else
    let len := t.inv.length
    some (((List.range len).map fun i => (i, t.inv.getD (len - 1 - i) 0)) ++ [(len, 0)])

/-- the memory behind `s` after some stores -/
def stored (m : ℕ → UInt8) (stores : List (ℕ × UInt8)) : ℕ → UInt8 := stores.foldl (fun m p => Function.update m p.1 p.2) m

/-- the terminated text at the start of the memory -/
def Holds (m : ℕ → UInt8) (t : Bytes) : Prop := (List.range (t.length + 1)).map m = t ++ [0]

instance (m : ℕ → UInt8) (t : Bytes) : Decidable (Holds m t) := inferInstanceAs (Decidable (_ = _))

/-- null if and only if the text does not fit with its terminator; else only the buffer is written, and it holds the text -/
def Exact (v : Int32) (base : UInt32) (len : ℕ) : Prop :=
  ∃ ds, IsDigits base.toNat ds v.toInt.toNat ∧
    (itoa v base len = none ↔ len < ds.length + 1) ∧
    ∀ stores, itoa v base len = some stores →
      (∀ p ∈ stores, p.1 < len) ∧ ∀ m, Holds (stored m stores) (ds.map digitChar).reverse

/-! ## The stores -/

/-- storing one byte after the other -/
theorem stored_range (m : ℕ → UInt8) (f : ℕ → UInt8) (n : ℕ) :
    stored m ((List.range n).map fun i => (i, f i)) = fun i => if i < n then f i else m i := by
  induction n with
  | zero =>
    funext i
    rw [if_neg (Nat.not_lt_zero i)]
    rfl
  | succ n ih =>
    have hsplit : stored m ((List.range (n + 1)).map fun i => (i, f i)) =
        Function.update (stored m ((List.range n).map fun i => (i, f i))) n (f n) := by
      simp only [stored, List.range_succ, List.map_append, List.foldl_append, List.map_singleton, List.foldl_cons,
        List.foldl_nil]
    rw [hsplit, ih]
    funext i
    by_cases hi : i = n
    · subst hi
      rw [Function.update_self, if_pos (Nat.lt_succ_self i)]
    · have hlt : i < n + 1 ↔ i < n := by omega
      simp only [Function.update_of_ne hi, hlt]

/-- the stores of a text and its terminator -/
def storesOf (t : Bytes) : List (ℕ × UInt8) := ((List.range t.length).map fun i => (i, t.getD i 0)) ++ [(t.length, 0)]

theorem storesOf_pos {t : Bytes} {p : ℕ × UInt8} (h : p ∈ storesOf t) : p.1 ≤ t.length := by
  rw [storesOf, List.mem_append, List.mem_map, List.mem_singleton] at h
  rcases h with ⟨i, hi, rfl⟩ | rfl
  · exact le_of_lt (List.mem_range.1 hi)
  · exact le_rfl

/-- the terminator is stored behind the text -/
theorem end_mem_storesOf (t : Bytes) : (t.length, 0) ∈ storesOf t :=
  List.mem_append_right _ (List.mem_singleton_self _)

theorem storesOf_holds (m : ℕ → UInt8) (t : Bytes) : Holds (stored m (storesOf t)) t := by
  have hmem : stored m (storesOf t) = Function.update (fun i => if i < t.length then t.getD i 0 else m i) t.length 0 := by
    rw [← stored_range m (fun i => t.getD i 0) t.length]
    simp only [stored, storesOf, List.foldl_append, List.foldl_cons, List.foldl_nil]
  rw [Holds, hmem, List.range_succ, List.map_append, List.map_singleton, Function.update_self]
  congr 1
  apply List.ext_getElem
  · simp
  · intro i h1 h2
    have hi : i ≠ t.length := by omega
    simp [Function.update_of_ne hi, h2]

/-! ## The first loop -/

/-- what the division takes a number for -/
def value (v : Int32) : ℕ := v.toUInt32.toNat

theorem value_eq_zero {v : Int32} : value v = 0 ↔ v = 0 := by
  constructor
  · intro h
    have hbits : v.toUInt32 = 0 := UInt32.toNat_inj.1 h
    calc v = v.toUInt32.toInt32 := rfl
      _ = (0 : UInt32).toInt32 := by rw [hbits]
      _ = 0 := rfl
  · intro h
    rw [h]
    rfl

theorem value_of_nonneg {v : Int32} (h : 0 ≤ v) : v.toInt.toNat = value v :=
  (Int32.toNat_toUInt32_of_le h).symm

variable {base : UInt32}

/-- a turn takes the lowest digit off -/
theorem turn_eq (hb : base.toNat ≤ 36) (h2 : 2 ≤ base.toNat) (t : Digits) :
    (turn base t).inv = t.inv ++ [digitChar (value t.v % base.toNat)] ∧ value (turn base t).v = value t.v / base.toNat := by
  have hd : (t.v.toUInt32 % base).toNat % 0xff = value t.v % base.toNat := by
    have := Nat.mod_lt (value t.v) (show base.toNat > 0 by omega)
    rw [UInt32.toNat_mod]
    exact Nat.mod_eq_of_lt (by simp only [value] at this; omega)
  constructor
  · simp only [turn, hd]
    rfl
  · simp only [turn, value]
    rw [UInt32.toUInt32_toInt32, UInt32.toNat_div]

/-- the first loop: all the digits if they have a place, a rest if not -/
theorem fill_eq (hb : base.toNat ≤ 36) (h2 : 2 ≤ base.toNat) {n : ℕ} (hn : 0 < n) (t : Digits) :
    if (digits base.toNat (value t.v)).length ≤ n then
      fill base n t = ⟨t.inv ++ (digits base.toNat (value t.v)).map digitChar, 0⟩
    else (fill base n t).v ≠ 0 := by
  induction n generalizing t with
  | zero => exact absurd hn (lt_irrefl 0)
  | succ n ih =>
    obtain ⟨hinv, hval⟩ := turn_eq hb h2 t
    rw [digits_step h2, fill]
    by_cases hq : value t.v / base.toNat = 0
    · -- the last digit
      have hv : (turn base t).v = 0 := value_eq_zero.1 (hval.trans hq)
      have hlen : [value t.v % base.toNat].length ≤ n + 1 := by simp
      rw [if_pos hq, if_pos hlen, if_neg (not_not_intro hv)]
      calc turn base t = ⟨(turn base t).inv, (turn base t).v⟩ := rfl
        _ = ⟨t.inv ++ [value t.v % base.toNat].map digitChar, 0⟩ := by rw [hinv, hv, List.map_singleton]
    · have hv : (turn base t).v ≠ 0 := by
        intro h0
        apply hq
        rw [← hval]
        exact value_eq_zero.2 h0
      rw [if_neg hq, if_pos hv, ← hval]
      rcases Nat.eq_zero_or_pos n with rfl | hpos
      · -- no place for the next one
        have hlong := digits_pos h2 (value (turn base t).v)
        rw [if_neg (by simp only [List.length_cons]; omega)]
        exact hv
      · have hrest := ih hpos (turn base t)
        simp only [List.length_cons, Nat.add_le_add_iff_right]
        split_ifs at hrest ⊢ with hfit
        · rw [hrest, hinv, hval]
          simp
        · exact hrest

/-! ## A call -/

/-- a call stores the text if its digits have a place, and nothing if not -/
theorem itoa_eq (h2 : 2 ≤ base.toNat) (hb : base.toNat ≤ 36) {len : ℕ} (hlen : 0 < len) (v : Int32) :
    itoa v base len =
      if (digits base.toNat (value v)).length ≤ len then some (storesOf (text base.toNat (value v))) else none := by
  have hloop := fill_eq hb h2 hlen ⟨[], v⟩
  split_ifs at hloop ⊢ with hfit
  · simp only [itoa, hloop, List.nil_append, ne_eq, not_true_eq_false, if_false, storesOf, text_length, List.length_map]
    congr 2
    apply List.map_congr_left
    intro i hi
    have hlt : i < ((digits base.toNat (value v)).map digitChar).length := by simpa using hi
    rw [text, List.getD_eq_getElem?_getD, List.getD_eq_getElem?_getD, List.getElem?_reverse hlt, List.length_map]
  · simp only [itoa, if_pos hloop]

/-- **the model of the sockets names a node as the stores leave it** -/
theorem host_itoa (h2 : 2 ≤ base.toNat) (hb : base.toNat ≤ 36) {len : ℕ} (hlen : 0 < len) {v : Int32} (hv : 0 ≤ v) :
    (itoa v base len = none ↔ EspHostdriver.itoa v.toInt.toNat base.toNat len = none) ∧
      ∀ stores, itoa v base len = some stores →
        ∃ t, EspHostdriver.itoa v.toInt.toNat base.toNat len = some t ∧ ∀ m, Holds (stored m stores) t := by
  rw [itoa_eq h2 hb hlen, itoa_eq_text h2 hb, value_of_nonneg hv]
  split_ifs with hfit
  · refine ⟨by simp, ?_⟩
    intro stores hs
    obtain rfl := Option.some.inj hs
    exact ⟨_, rfl, fun m => storesOf_holds m _⟩
  · exact ⟨by simp, by simp⟩

/-- **a call is exact if and only if the number has not exactly as many digits as the buffer has bytes** -/
theorem itoa_exact {v : Int32} (hv : 0 ≤ v) (h2 : 2 ≤ base.toNat) (hb : base.toNat ≤ 36) {len : ℕ} (hlen : 1 ≤ len) :
    Exact v base len ↔ (digits base.toNat v.toInt.toNat).length ≠ len := by
  have hcall := itoa_eq h2 hb hlen v
  rw [← value_of_nonneg hv] at hcall
  constructor
  · intro h heq
    -- the call returns its buffer, so the text would have to fit
    obtain ⟨ds, hds, hnull, -⟩ := h
    rw [isDigits_unique h2 hds, heq] at hnull
    rw [hcall, heq, if_pos le_rfl] at hnull
    exact Option.some_ne_none _ (hnull.2 (Nat.lt_succ_self len))
  · intro hne
    refine ⟨_, isDigits_digits h2 _, ?_, ?_⟩
    · rw [hcall]
      split_ifs with hfit
      · constructor
        · intro h
          cases h
        · intro h
          omega
      · exact iff_of_true rfl (by omega)
    · intro stores hs
      rw [hcall] at hs
      split_ifs at hs with hfit
      obtain rfl := Option.some.inj hs
      refine ⟨?_, fun m => storesOf_holds m _⟩
      intro p hp
      have := storesOf_pos hp
      rw [text_length] at this
      omega

theorem itoa_exact_sample : Exact 9999999 10 8 :=
  (itoa_exact (by decide) (by decide) (by decide) (by decide)).2 (by decide)

/-- a text as long as the buffer gets its terminator behind it -/
theorem past_the_end (h2 : 2 ≤ base.toNat) (hb : base.toNat ≤ 36) {len : ℕ} (hlen : 1 ≤ len) {v : Int32} (hv : 0 ≤ v)
    (heq : (digits base.toNat v.toInt.toNat).length = len) : ∃ stores, itoa v base len = some stores ∧ (len, 0) ∈ stores := by
  have hcall := itoa_eq h2 hb hlen v
  rw [← value_of_nonneg hv, if_pos heq.le] at hcall
  refine ⟨_, hcall, ?_⟩
  have hend := end_mem_storesOf (text base.toNat v.toInt.toNat)
  rwa [text_length, heq] at hend

/-- the descriptor number 10000000 in the 8 bytes of a name -/
theorem itoa_exact_fails : ¬ ∀ (v : Int32) (base : UInt32) (len : ℕ), 0 ≤ v → 2 ≤ base.toNat → base.toNat ≤ 36 → 1 ≤ len →
    Exact v base len := by
  intro h
  obtain ⟨ds, -, -, hstores⟩ := h 10000000 10 8 (by decide) (by decide) (by decide) (by decide)
  have hcall : itoa 10000000 10 8 =
      some [(0, 49), (1, 48), (2, 48), (3, 48), (4, 48), (5, 48), (6, 48), (7, 48), (8, 0)] := by decide +kernel
  have hin := (hstores _ hcall).1 (8, 0) (by simp)
  exact absurd hin (lt_irrefl 8)

end EspHostdriver.NumberText
