/-
Texts that are cut at a separator: lines, and quoted fields of a line.

- `splitOn_terminated`: the pieces of a text made of terminated parts are the pieces of the parts, in order.
- `splitOn_append_left`: what stands before the first separator goes to the first piece, and no other piece is longer
  than what comes after it (`piece_length_le`).
- `quoted q l k`: the text of `l` between the quotes `2k` and `2k+1`. `quoted_zero` and `quoted_succ` find it, field by
  field, in a line whose fields and gaps hold no quote.
-/
import Mathlib.Tactic

namespace EspHostdriver.Fields

variable {α : Type*} [BEq α] {q : α} {pre t l xs : List α}

/-! ## Pieces -/

theorem splitOn_head (q : α) (xs : List α) : ∃ h ts, xs.splitOn q = h :: ts ∧ h <+: xs := by
  induction xs with
  | nil => exact ⟨[], [], List.splitOn_nil q, List.prefix_refl _⟩
  | cons x xs ih =>
    obtain ⟨h, ts, he, hpre⟩ := ih
    rw [List.splitOn_cons_eq_if_modifyHead, he]
    split_ifs
    · exact ⟨[], h :: ts, rfl, List.nil_prefix⟩
    · exact ⟨x :: h, ts, rfl, (List.prefix_cons_inj x).2 hpre⟩

theorem splitOn_append_left [LawfulBEq α] (hq : q ∉ pre) (xs : List α) :
    (pre ++ xs).splitOn q = (xs.splitOn q).modifyHead (pre ++ ·) := by
  obtain ⟨h, ts, he, _⟩ := splitOn_head q xs
  induction pre with
  | nil => simp [he]
  | cons x pre ih =>
    rw [List.mem_cons, not_or] at hq
    obtain ⟨hx, hpre⟩ := hq
    have hne : (x == q) = false := beq_eq_false_iff_ne.2 (Ne.symm hx)
    rw [List.cons_append, List.splitOn_cons_eq_if_modifyHead, ih hpre, he]
    simp [hne]

theorem piece_length_le (h : l ∈ xs.splitOn q) : l.length ≤ xs.length := by
  induction xs generalizing l with
  | nil =>
    rw [List.splitOn_nil, List.mem_singleton] at h
    rw [h]
  | cons x xs ih =>
    obtain ⟨p, ts, he, hpre⟩ := splitOn_head q xs
    rw [List.splitOn_cons_eq_if_modifyHead] at h
    have hmem : l = [] ∨ l = x :: p ∨ l ∈ xs.splitOn q := by
      rw [he] at h ⊢
      split_ifs at h
      · exact (List.mem_cons.1 h).imp id Or.inr
      · rcases List.mem_cons.1 h with h | h
        · exact Or.inr (Or.inl h)
        · exact Or.inr (Or.inr (List.mem_cons_of_mem p h))
    rcases hmem with rfl | rfl | hl
    · exact Nat.zero_le _
    · exact Nat.succ_le_succ hpre.length_le
    · exact (ih hl).trans (Nat.le_succ _)

theorem splitOn_terminated [LawfulBEq α] (q : α) (ts : List (List α)) :
    (ts.flatMap (· ++ [q])).splitOn q = ts.flatMap (·.splitOn q) ++ [[]] := by
  induction ts with
  | nil => exact List.splitOn_nil q
  | cons t ts ih =>
    rw [List.flatMap_cons, List.flatMap_cons, List.append_assoc, List.singleton_append, List.splitOn_append_cons_self, ih,
      List.append_assoc]

/-! ## Quoted fields -/

def quoted (q : α) (l : List α) (k : ℕ) : List α := (l.splitOn q).getD (2 * k + 1) []

variable [LawfulBEq α]

theorem quoted_cut (hpre : q ∉ pre) (ht : q ∉ t) (rest : List α) :
    (pre ++ q :: (t ++ q :: rest)).splitOn q = pre :: t :: rest.splitOn q := by
  rw [List.splitOn_append_cons_self_of_not_mem hpre, List.splitOn_append_cons_self_of_not_mem ht]

theorem quoted_zero (hpre : q ∉ pre) (ht : q ∉ t) (rest : List α) : quoted q (pre ++ q :: (t ++ q :: rest)) 0 = t := by
  rw [quoted, quoted_cut hpre ht]
  rfl

theorem quoted_succ (hpre : q ∉ pre) (ht : q ∉ t) (rest : List α) (k : ℕ) :
    quoted q (pre ++ q :: (t ++ q :: rest)) (k + 1) = quoted q rest k := by
  rw [quoted, quoted_cut hpre ht]
  rfl

/-- a field that may be cut anywhere is a prefix of what follows its first quote -/
theorem quoted_le (hpre : q ∉ pre) (xs : List α) : quoted q (pre ++ q :: xs) 0 <+: xs := by
  obtain ⟨h, ts, he, hp⟩ := splitOn_head q xs
  rw [quoted, List.splitOn_append_cons_self_of_not_mem hpre, he]
  exact hp

end EspHostdriver.Fields
