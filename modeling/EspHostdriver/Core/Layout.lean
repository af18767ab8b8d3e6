/-
Storage of structures: sizes, alignments, offsets, and copies into a block.

- `Ty`: the size and the alignment of a type; a size is a multiple of the alignment.
- `struct fs`: the members `fs` one behind the other, each at the next multiple of its alignment, and the end rounded up.
- `member_end_le`: a member ends inside its structure.
- `InBlock start len size`: every one of the `len` bytes from `start` on lies in a block of `size` bytes; no byte, no
  demand (`inBlock_iff`).
- `trailing_inBlock`: a block of the structure's size, with the size of its last member replaced by `n`, has room for `n`
  bytes at that member.
-/
import Mathlib.Tactic

namespace EspHostdriver.Layout

/-! ## Types -/

/-- the next multiple of `a` -/
def alignUp (n a : ℕ) : ℕ := (n + a - 1) / a * a

structure Ty where
  size : ℕ
  align : ℕ
  align_pos : 0 < align
  aligned : align ∣ size

theorem le_alignUp {a : ℕ} (ha : 0 < a) (n : ℕ) : n ≤ alignUp n a := by
  have hdiv := Nat.div_add_mod (n + a - 1) a
  have hmod := Nat.mod_lt (n + a - 1) ha
  rw [alignUp, Nat.mul_comm]
  omega

/-- a type that is aligned at its size -/
def scalar (k : ℕ) (h : 0 < k) : Ty := ⟨k, k, h, dvd_rfl⟩

/-- an array member without a length takes no room -/
def flexible (t : Ty) : Ty := ⟨0, t.align, t.align_pos, dvd_zero _⟩

/-- the end of the members, the first at 0 -/
def cursor (fs : List Ty) : ℕ := fs.foldl (fun o t => alignUp o t.align + t.size) 0

/-- where a member starts -/
def offset (fs : List Ty) (k : ℕ) : ℕ := alignUp (cursor (fs.take k)) ((fs[k]?.map Ty.align).getD 1)

def maxAlign (fs : List Ty) : ℕ := fs.foldr (fun t a => max t.align a) 1

theorem maxAlign_pos (fs : List Ty) : 0 < maxAlign fs := by
  induction fs with
  | nil => exact Nat.one_pos
  | cons t fs ih => exact lt_max_of_lt_right ih

def struct (fs : List Ty) : Ty :=
  ⟨alignUp (cursor fs) (maxAlign fs), maxAlign fs, maxAlign_pos fs, Nat.dvd_mul_left _ _⟩

variable {fs : List Ty} {t : Ty} {k : ℕ}

theorem cursor_append_singleton (fs : List Ty) (t : Ty) : cursor (fs ++ [t]) = alignUp (cursor fs) t.align + t.size := by
  simp [cursor]

theorem cursor_le_append (fs ts : List Ty) : cursor fs ≤ cursor (fs ++ ts) := by
  induction ts using List.reverseRecOn with
  | nil => rw [List.append_nil]
  | append_singleton ts t ih =>
    calc cursor fs ≤ cursor (fs ++ ts) := ih
      _ ≤ alignUp (cursor (fs ++ ts)) t.align := le_alignUp t.align_pos _
      _ ≤ alignUp (cursor (fs ++ ts)) t.align + t.size := Nat.le_add_right _ _
      _ = cursor (fs ++ (ts ++ [t])) := by rw [← List.append_assoc, cursor_append_singleton]

theorem member_end_le (h : fs[k]? = some t) : offset fs k + t.size ≤ (struct fs).size := by
  have htake : fs.take (k + 1) = fs.take k ++ [t] := by
    rw [List.take_add_one, h]
    rfl
  calc offset fs k + t.size = cursor (fs.take k ++ [t]) := by
        rw [cursor_append_singleton, offset, h]
        rfl
    _ = cursor (fs.take (k + 1)) := by rw [htake]
    _ ≤ cursor (fs.take (k + 1) ++ fs.drop (k + 1)) := cursor_le_append _ _
    _ = cursor fs := by rw [List.take_append_drop]
    _ ≤ (struct fs).size := le_alignUp (maxAlign_pos fs) _

/-! ## Copies into a block -/

def InBlock (start len size : ℕ) : Prop := Set.Ico start (start + len) ⊆ Set.Iio size

theorem inBlock_iff {start len size : ℕ} : InBlock start len size ↔ len = 0 ∨ start + len ≤ size := by
  constructor
  · intro h
    rcases Nat.eq_zero_or_pos len with h0 | hpos
    · exact Or.inl h0
    · have hlast : start + len - 1 ∈ Set.Iio size := h ⟨by omega, by omega⟩
      rw [Set.mem_Iio] at hlast
      exact Or.inr (by omega)
  · intro h b hb
    rw [Set.mem_Ico] at hb
    rw [Set.mem_Iio]
    omega

theorem InBlock.mono {start len size size' : ℕ} (h : InBlock start len size) (hle : size ≤ size') :
    InBlock start len size' :=
  h.trans (Set.Iio_subset_Iio hle)

theorem trailing_inBlock (h : fs[k]? = some t) (n : ℕ) : InBlock (offset fs k) n ((struct fs).size + n - t.size) := by
  have := member_end_le h
  exact inBlock_iff.2 (Or.inr (by omega))

end EspHostdriver.Layout
