/-
Numbers in a base: their digits and their text.

- `IsDigits base ds n`: `ds`, lowest first, are digits of the base, have no leading zero and the value `n`.
- `isDigits_digits` and `isDigits_unique`: every number has exactly one such list, `digits base n`.
- `digits_step`: one division takes the lowest digit off.
- `digits_length_le`: a number below `base ^ k` has at most `k` digits, and a number from there on has more.
- `text base n` is written with the digits 0-9 and a-z; `text_ten`: in base 10 it is the decimal text.
-/
import EspHostdriver.Core.Text

namespace EspHostdriver.Numeral

structure IsDigits (base : ℕ) (ds : List ℕ) (n : ℕ) : Prop where
  ne_nil : ds ≠ []
  lt : ∀ d ∈ ds, d < base
  /-- only the number 0 starts with the digit 0 -/
  lead : ds.getLast? = some 0 → ds = [0]
  value : Nat.ofDigits base ds = n

/-- the digits of a number, the last one first; 0 has one -/
def digits (base n : ℕ) : List ℕ := if n = 0 then [0] else Nat.digits base n

def digitChar (d : ℕ) : UInt8 := UInt8.ofNat (if d < 10 then 48 + d else 97 + d - 10)

def text (base n : ℕ) : Bytes := ((digits base n).map digitChar).reverse

variable {base : ℕ}

/-! ## Digits -/

theorem isDigits_digits (hb : 1 < base) (n : ℕ) : IsDigits base (digits base n) n := by
  by_cases hn : n = 0
  · subst hn
    exact ⟨by simp [digits], by simp [digits]; omega, fun _ => rfl, by simp [digits]⟩
  · have hd : digits base n = Nat.digits base n := if_neg hn
    rw [hd]
    refine ⟨Nat.digits_ne_nil_iff_ne_zero.2 hn, fun d => Nat.digits_lt_base hb, ?_, Nat.ofDigits_digits base n⟩
    intro h0
    rw [List.getLast?_eq_some_getLast (Nat.digits_ne_nil_iff_ne_zero.2 hn), Option.some.injEq] at h0
    exact absurd h0 (Nat.getLast_digit_ne_zero base hn)

theorem isDigits_unique (hb : 1 < base) {ds : List ℕ} {n : ℕ} (h : IsDigits base ds n) : ds = digits base n := by
  obtain ⟨hne, hlt, hlead, hval⟩ := h
  by_cases hlast : ds.getLast? = some 0
  · rw [hlead hlast] at hval ⊢
    have hn : n = 0 := by rw [← hval]; simp
    rw [hn]
    rfl
  · have hback : Nat.digits base n = ds := by
      rw [← hval]
      apply Nat.digits_ofDigits base hb ds hlt
      intro hne' h0
      apply hlast
      rw [List.getLast?_eq_some_getLast hne', h0]
    have hn : n ≠ 0 := by
      intro h0
      apply hne
      rw [← hback, h0, Nat.digits_zero]
    rw [digits, if_neg hn, hback]

theorem digits_step (hb : 1 < base) (n : ℕ) :
    digits base n = n % base :: if n / base = 0 then [] else digits base (n / base) := by
  by_cases hn : n = 0
  · simp [digits, hn]
  · have hstep := Nat.digits_def' hb (Nat.pos_of_ne_zero hn)
    by_cases hq : n / base = 0
    · rw [digits, if_neg hn, hstep, hq, Nat.digits_zero, if_pos rfl]
    · rw [digits, if_neg hn, hstep, if_neg hq, digits, if_neg hq]

theorem digits_pos (hb : 1 < base) (n : ℕ) : 0 < (digits base n).length :=
  List.length_pos_of_ne_nil (isDigits_digits hb n).ne_nil

theorem digits_length_le (hb : 1 < base) {k : ℕ} (hk : 0 < k) (n : ℕ) : (digits base n).length ≤ k ↔ n < base ^ k := by
  by_cases hn : n = 0
  · subst hn
    have hpow : 0 < base ^ k := Nat.pow_pos (by omega)
    simp only [digits, if_true, List.length_singleton]
    omega
  · rw [digits, if_neg hn]
    exact Nat.digits_length_le_iff hb n

/-! ## Text -/

@[simp] theorem text_length (base n : ℕ) : (text base n).length = (digits base n).length := by simp [text]

theorem text_ten (n : ℕ) : text 10 n = dec n := by
  induction n using Nat.strong_induction_on with
  | _ n ih =>
    have hchar : digitChar (n % 10) = digit (n % 10) := by simp [digitChar, digit, show n % 10 < 10 by omega]
    rw [text, digits_step (by norm_num)]
    by_cases hn : n < 10
    · have hq : n / 10 = 0 := by omega
      rw [if_pos hq, dec_small hn, List.map_singleton, hchar, Nat.mod_eq_of_lt hn]
      rfl
    · have hq : ¬ n / 10 = 0 := by omega
      rw [if_neg hq, dec_step hn, ← ih (n / 10) (by omega), List.map_cons, List.reverse_cons, hchar]
      rfl

end EspHostdriver.Numeral
