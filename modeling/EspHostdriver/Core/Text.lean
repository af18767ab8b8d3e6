/-
Bytes and C strings: terminated text in memory, decimal numbers, `atoi`.

- `cstr m` is the C string that starts at the memory `m`; memory past the listed bytes reads as 0.
- `dec n` is the decimal text of `n` without leading zeros, `decInt` the one `printf` writes for an `int`.
- `atoi` reads an optional blank, an optional sign and digits, and stops at the first other byte. The value is read as a
  64-bit number (clamped at its ends) and cut down to an `int`.
- `atoi_dec`: `atoi` gives back every number below 2^31 from its decimal text, whatever follows the digits.
- `IsDec` collects what is known of a decimal text: only digits, hence no separator, terminator or newline in it.
-/
import Mathlib.Tactic

namespace EspHostdriver

abbrev Bytes := List UInt8

/-- the bytes of an ASCII literal -/
def str (s : String) : Bytes := s.toList.map fun c => UInt8.ofNat c.toNat

/-- the C string at the start of `m` -/
def cstr (m : Bytes) : Bytes := m.takeWhile (· ≠ 0)

theorem cstr_append {t : Bytes} (ht : 0 ∉ t) (m : Bytes) : cstr (t ++ m) = t ++ cstr m :=
  List.takeWhile_append_of_pos fun c hc => by
    have : c ≠ 0 := fun h => ht (by rwa [h] at hc)
    simpa using this

@[simp] theorem cstr_zero (m : Bytes) : cstr (0 :: m) = [] := rfl

theorem cstr_term {t : Bytes} (ht : 0 ∉ t) (m : Bytes) : cstr (t ++ 0 :: m) = t := by
  simp [cstr_append ht]

theorem cstr_self {t : Bytes} (ht : 0 ∉ t) : cstr t = t := by
  simpa [cstr] using cstr_append ht []

/-- what lies behind the end of a string does not matter -/
theorem cstr_append_zero (t m : Bytes) : cstr (t ++ 0 :: m) = cstr t := by
  induction t with
  | nil => rfl
  | cons c t ih =>
    by_cases hc : c = 0
    · simp [cstr, hc]
    · simpa [cstr, hc] using ih

theorem take_cstr (m : Bytes) (n : ℕ) : (cstr m).take n = cstr (m.take n) := by
  induction m generalizing n with
  | nil => simp [cstr]
  | cons c m ih =>
    cases n with
    | zero => simp [cstr]
    | succ n =>
      by_cases hc : c = 0
      · simp [cstr, hc]
      · simpa [cstr, hc] using ih n

theorem zero_notMem_cstr (m : Bytes) : 0 ∉ cstr m := by
  intro h
  simpa using List.all_eq_true.1 (List.all_takeWhile (l := m) (p := (· ≠ (0 : UInt8)))) 0 h

/-- a C string ends at the first 0 byte: it is the first `n` bytes exactly when they hold no 0 and a 0 follows -/
theorem cstr_eq_take {b a : Bytes} : cstr (b ++ a) = b ↔ 0 ∉ b ∧ a.headD 0 = 0 := by
  constructor
  · intro h
    have h0 : 0 ∉ b := h ▸ zero_notMem_cstr (b ++ a)
    refine ⟨h0, ?_⟩
    rw [cstr_append h0] at h
    have hnil : cstr a = [] := by simpa using h
    cases a with
    | nil => rfl
    | cons c a => by_contra hc; simp [cstr, show ¬ c = 0 from hc] at hnil
  · rintro ⟨h0, ha⟩
    rw [cstr_append h0]
    cases a with
    | nil => simp [cstr]
    | cons c a => simp [cstr, show c = 0 from ha]

def digit (d : ℕ) : UInt8 := UInt8.ofNat (48 + d)

def isDigit (c : UInt8) : Bool := 48 ≤ c && c ≤ 57

/-- `fuel` bounds the number of digits -/
def decAux : ℕ → ℕ → Bytes
  | 0, _ => []
  | f + 1, n => if n < 10 then [digit n] else decAux f (n / 10) ++ [digit (n % 10)]

def dec (n : ℕ) : Bytes := decAux (n + 1) n

/-- what `%d` prints -/
def decInt (v : ℤ) : Bytes := if v < 0 then 45 :: dec (-v).toNat else dec v.toNat

theorem decAux_fuel {f g n : ℕ} (hf : n < f) (hg : n < g) : decAux f n = decAux g n := by
  induction f generalizing g n with
  | zero => omega
  | succ f ih =>
    cases g with
    | zero => omega
    | succ g =>
      by_cases h : n < 10
      · simp [decAux, h]
      · simp only [decAux, h, if_false]
        rw [ih (g := g) (by omega) (by omega)]

theorem dec_small {n : ℕ} (h : n < 10) : dec n = [digit n] := by simp [dec, decAux, h]

theorem dec_step {n : ℕ} (h : ¬ n < 10) : dec n = dec (n / 10) ++ [digit (n % 10)] := by
  have := decAux_fuel (f := n) (g := n / 10 + 1) (n := n / 10) (by omega) (by omega)
  simp [dec, decAux, h, this]

theorem digit_toNat {d : ℕ} (h : d < 10) : (digit d).toNat = 48 + d := by
  simp only [digit, UInt8.toNat_ofNat']; omega

theorem isDigit_iff (c : UInt8) : isDigit c = true ↔ 48 ≤ c.toNat ∧ c.toNat ≤ 57 := by
  simp [isDigit, UInt8.le_iff_toNat_le]

theorem isDigit_digit {d : ℕ} (h : d < 10) : isDigit (digit d) = true := by
  rw [isDigit_iff, digit_toNat h]; omega

theorem dec_isDigit (n : ℕ) : ∀ c ∈ dec n, isDigit c = true := by
  induction n using Nat.strong_induction_on with
  | _ n ih =>
    by_cases h : n < 10
    · simp [dec_small h, isDigit_digit h]
    · intro c hc
      rw [dec_step h, List.mem_append, List.mem_singleton] at hc
      rcases hc with hc | rfl
      · exact ih _ (by omega) c hc
      · exact isDigit_digit (by omega)

theorem dec_ne_nil (n : ℕ) : dec n ≠ [] := by
  by_cases h : n < 10
  · simp [dec_small h]
  · simp [dec_step h]

/-- a byte that is no digit does not occur in a decimal text -/
theorem notMem_dec {c : UInt8} (hc : isDigit c = false) (n : ℕ) : c ∉ dec n := by
  intro h
  rw [dec_isDigit n c h] at hc; cases hc

theorem dec_length_le {n k : ℕ} (hk : 0 < k) (h : n < 10 ^ k) : (dec n).length ≤ k := by
  induction k generalizing n with
  | zero => omega
  | succ k ih =>
    by_cases hn : n < 10
    · simp [dec_small hn]
    · cases k with
      | zero => simp at h; omega
      | succ k =>
        have := ih (n := n / 10) (by omega) (Nat.div_lt_of_lt_mul (by rw [pow_succ] at h; omega))
        simp [dec_step hn]; omega

/-! ## Reading a number -/

def isSpace (c : UInt8) : Bool := c == 32 || (9 ≤ c && c ≤ 13)

/-- the value of the digits at the start of `m` -/
def natOf (m : Bytes) : ℕ := (m.takeWhile isDigit).foldl (fun a c => 10 * a + (c.toNat - 48)) 0

/-- a mathematical integer as a C `int` -/
def toInt32 (v : ℤ) : ℤ := v.bmod (2 ^ 32)

/-- the range of a `long` -/
def clampLong (v : ℤ) : ℤ := max (-2 ^ 63) (min v (2 ^ 63 - 1))

def atoi (m : Bytes) : ℤ :=
  match m.dropWhile isSpace with
  | 45 :: t => toInt32 (clampLong (-(natOf t : ℤ)))
  | 43 :: t => toInt32 (clampLong (natOf t))
  | t => toInt32 (clampLong (natOf t))

theorem toInt32_of_lt {n : ℕ} (h : n < 2 ^ 31) : toInt32 n = n := by
  unfold toInt32
  exact Int.bmod_eq_of_le (by omega) (by omega)

theorem foldl_dec (n : ℕ) : (dec n).foldl (fun a c => 10 * a + (c.toNat - 48)) 0 = n := by
  induction n using Nat.strong_induction_on with
  | _ n ih =>
    by_cases h : n < 10
    · simp [dec_small h, digit_toNat h]
    · have hd : n % 10 < 10 := by omega
      rw [dec_step h, List.foldl_append, ih _ (by omega)]
      simp [digit_toNat hd]; omega

/-- what may follow a number: nothing, or a byte that is no digit -/
def Stops (m : Bytes) : Prop := ∀ c ∈ m.head?, isDigit c = false

theorem stops_nil : Stops [] := by simp [Stops]

theorem stops_cons {c : UInt8} (m : Bytes) (h : isDigit c = false) : Stops (c :: m) := by simpa [Stops] using h

theorem natOf_dec (n : ℕ) {m : Bytes} (hm : Stops m) : natOf (dec n ++ m) = n := by
  have ht : m.takeWhile isDigit = [] := by
    cases m with
    | nil => rfl
    | cons c m => simp [hm c (by simp)]
  have hdigits : (dec n ++ m).takeWhile isDigit = dec n := by
    rw [List.takeWhile_append_of_pos (dec_isDigit n), ht, List.append_nil]
  rw [natOf, hdigits]
  exact foldl_dec n

/-- **`atoi` undoes `%d`** on the numbers below 2^31, whatever follows the digits -/
theorem atoi_dec {n : ℕ} (hn : n < 2 ^ 31) {m : Bytes} (hm : Stops m) : atoi (dec n ++ m) = n := by
  obtain ⟨c, t, hct⟩ : ∃ c t, dec n = c :: t := List.exists_cons_of_ne_nil (dec_ne_nil n)
  have hc := (isDigit_iff c).1 (dec_isDigit n c (by simp [hct]))
  have hsp : isSpace c = false := by
    simp only [isSpace, Bool.or_eq_false_iff, beq_eq_false_iff_ne, Bool.and_eq_false_iff, decide_eq_false_iff_not,
      UInt8.le_iff_toNat_le]
    refine ⟨fun h => ?_, Or.inr ?_⟩
    · rw [h] at hc; simp at hc
    · simp; omega
  have h45 : c ≠ 45 := fun h => by rw [h] at hc; simp at hc
  have h43 : c ≠ 43 := fun h => by rw [h] at hc; simp at hc
  have hdrop : (dec n ++ m).dropWhile isSpace = c :: (t ++ m) := by simp [hct, hsp]
  have hval : natOf (c :: (t ++ m)) = n := by rw [← natOf_dec n hm, hct]; rfl
  have hcl : clampLong n = n := by simp only [clampLong]; omega
  unfold atoi
  rw [hdrop]
  split
  · rename_i h; cases h; exact absurd rfl h45
  · rename_i h; cases h; exact absurd rfl h43
  · rw [hval, hcl, toInt32_of_lt hn]

example : atoi (str "80:") = 80 ∧ atoi (str " -7,") = -7 ∧ atoi (str "x") = 0 := by decide

end EspHostdriver
