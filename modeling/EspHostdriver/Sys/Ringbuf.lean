/-
Lean model of the ring buffer (`sys/ringbuf.c`) and what it implements.

`rd` is the slot read last, `wr` the slot written next; one slot always stays empty, so a buffer of `size` slots holds
at most `size - 1` bytes. `size_t` arithmetic is modulo 2^64. The loops of `ringbuf_read` and `ringbuf_write` move one
byte per round and stop early when the buffer is empty or full.

- `contents` is the byte queue a buffer stands for, `Ok` the invariant that relates indices, size and storage.
- `ringbufRead_spec`: reading `n` bytes takes the first `min n` of the queue off its front.
- `ringbufWrite_spec`: writing appends the part of the bytes that a queue of capacity `size - 1` accepts, and returns
  its length. The rest of the bytes is not stored.
- `ringbufLeft_eq`, `ringbufContains_eq`, `ringbufEmpty_iff`, `ringbufFull_iff`: the accounting functions agree with
  the queue, wrap-around included.
-/
import EspHostdriver.Core.Fifo
import EspHostdriver.Core.Text

namespace EspHostdriver

open Fifo

/-! ## Model -/

/-- `ringbuf_t`; `data` is the storage, a null pointer is the empty list -/
structure Ringbuf where
  rd : ℕ
  wr : ℕ
  size : ℕ
  data : Bytes
deriving DecidableEq, Repr

/-- a value as a `size_t` -/
def sizeT (n : ℤ) : ℕ := (n % 2 ^ 64).toNat

/-- `(i + 1) % buf->size` -/
def Ringbuf.next (b : Ringbuf) (i : ℕ) : ℕ := sizeT (i + 1) % b.size

/-- `n - 1` as the initial read index: the buffer is empty -/
def ringbufInit (data : Bytes) (n : ℕ) : Ringbuf := ⟨sizeT (n - 1), 0, n, data⟩

/-- the bytes read, in order; their number is what the C function returns -/
def ringbufRead (b : Ringbuf) : ℕ → Bytes × Ringbuf
  | 0 => ([], b)
  | n + 1 =>
    if b.next b.rd ≠ b.wr then
      let b' := { b with rd := b.next b.rd }
      let r := ringbufRead b' n
      (b'.data.getD b'.rd 0 :: r.1, r.2)
    else ([], b)

/-- the number of bytes stored -/
def ringbufWrite (b : Ringbuf) : Bytes → ℕ × Ringbuf
  | [] => (0, b)
  | c :: l =>
    if b.wr ≠ b.rd then
      let r := ringbufWrite { b with data := b.data.set b.wr c, wr := b.next b.wr } l
      (r.1 + 1, r.2)
    else (0, b)

def ringbufLeft (b : Ringbuf) : ℕ := sizeT (sizeT (b.rd - b.wr) + if b.rd < b.wr then b.size else 0)

def ringbufContains (b : Ringbuf) : ℕ := sizeT (b.size - ringbufLeft b - 1)

def ringbufEmpty (b : Ringbuf) : ℤ := if b.next b.rd ≠ b.wr then 0 else 1

def ringbufFull (b : Ringbuf) : ℤ := if b.wr = b.rd then 1 else 0

/-! ## The queue a buffer stands for -/

/-- the indices are slots, the storage has `size` bytes -/
structure Ringbuf.Ok (b : Ringbuf) : Prop where
  pos : 0 < b.size
  bound : b.size < 2 ^ 64
  rd : b.rd < b.size
  wr : b.wr < b.size
  len : b.data.length = b.size

/-- bytes stored and not read yet -/
def Ringbuf.count (b : Ringbuf) : ℕ := if b.rd < b.wr then b.wr - b.rd - 1 else b.wr + b.size - b.rd - 1

/-- where the `k`-th unread byte is -/
def Ringbuf.slot (b : Ringbuf) (k : ℕ) : ℕ := if b.rd + 1 + k < b.size then b.rd + 1 + k else b.rd + 1 + k - b.size

def Ringbuf.contents (b : Ringbuf) : Bytes := (List.range b.count).map fun k => b.data.getD (b.slot k) 0

theorem sizeT_of_lt {n : ℕ} (h : n < 2 ^ 64) : sizeT n = n := by simp only [sizeT]; omega

theorem Ringbuf.next_eq {b : Ringbuf} (hb : b.size < 2 ^ 64) {i : ℕ} (hi : i < b.size) :
    b.next i = if i + 1 = b.size then 0 else i + 1 := by
  have h1 : sizeT ((i : ℤ) + 1) = i + 1 := by simp only [sizeT]; omega
  rw [Ringbuf.next, h1]
  split_ifs with h
  · rw [h, Nat.mod_self]
  · exact Nat.mod_eq_of_lt (by omega)

theorem Ringbuf.contents_length (b : Ringbuf) : b.contents.length = b.count := by simp [Ringbuf.contents]

theorem Ringbuf.Ok.count_lt {b : Ringbuf} (h : b.Ok) : b.count ≤ b.size - 1 := by
  have := h.rd; have := h.wr
  unfold Ringbuf.count; split_ifs <;> omega

/-- the loop test of `ringbuf_read`: it goes on exactly while something is unread -/
theorem Ringbuf.Ok.next_rd_eq_wr {b : Ringbuf} (h : b.Ok) : b.next b.rd = b.wr ↔ b.count = 0 := by
  have := h.rd; have := h.wr
  rw [Ringbuf.next_eq h.bound h.rd]
  unfold Ringbuf.count
  split_ifs <;> omega

/-- the loop test of `ringbuf_write`: it goes on exactly while a slot is free -/
theorem Ringbuf.Ok.wr_eq_rd {b : Ringbuf} (h : b.Ok) : b.wr = b.rd ↔ b.count = b.size - 1 := by
  have := h.rd; have := h.wr
  unfold Ringbuf.count
  split_ifs <;> omega

theorem ringbufInit_ok {data : Bytes} {n : ℕ} (h0 : 0 < n) (hn : n < 2 ^ 64) (hd : data.length = n) :
    (ringbufInit data n).Ok := by
  have h1 : sizeT ((n : ℤ) - 1) = n - 1 := by simp only [sizeT]; omega
  constructor <;> simp only [ringbufInit] <;> omega

theorem ringbufInit_contents {data : Bytes} {n : ℕ} (h0 : 0 < n) (hn : n < 2 ^ 64) :
    (ringbufInit data n).contents = [] := by
  have h1 : sizeT ((n : ℤ) - 1) = n - 1 := by simp only [sizeT]; omega
  have : (ringbufInit data n).count = 0 := by simp only [Ringbuf.count, ringbufInit, h1]; split_ifs <;> omega
  simp [Ringbuf.contents, this]

/-! ## Reading -/

/-- one round of the read loop -/
theorem Ringbuf.Ok.read_one {b : Ringbuf} (h : b.Ok) (hne : b.next b.rd ≠ b.wr) :
    let b' := { b with rd := b.next b.rd }
    b'.Ok ∧ b.contents = b.data.getD b'.rd 0 :: b'.contents := by
  intro b'
  have hrd := h.rd; have hwr := h.wr
  have hn := Ringbuf.next_eq h.bound h.rd
  have hok : b'.Ok := ⟨h.pos, h.bound, by simp only [b', hn]; split_ifs <;> omega, h.wr, h.len⟩
  refine ⟨hok, ?_⟩
  have hc : b.count = b'.count + 1 := by
    have hwr' : b.next b.rd ≠ b.wr := hne
    rw [hn] at hwr'
    simp only [Ringbuf.count, b', hn]
    split_ifs at * <;> omega
  have hs0 : b.slot 0 = b'.rd := by simp only [Ringbuf.slot, b', hn]; split_ifs <;> omega
  have hs : ∀ k, k < b'.count → b.slot (k + 1) = b'.slot k := by
    intro k hk
    have := hok.count_lt
    have : b'.size = b.size := rfl
    simp only [Ringbuf.slot, b', hn]
    split_ifs <;> omega
  rw [Ringbuf.contents, hc, List.range_succ_eq_map, List.map_cons, List.map_map, hs0, Ringbuf.contents]
  refine congrArg _ (List.map_congr_left fun k hk => ?_)
  simp only [Function.comp_apply, Nat.succ_eq_add_one, hs k (List.mem_range.1 hk)]
  rfl

/-- **Reading takes the front of the queue.** -/
theorem ringbufRead_spec {b : Ringbuf} (h : b.Ok) (n : ℕ) :
    (ringbufRead b n).1 = b.contents.take n ∧ (ringbufRead b n).2.Ok ∧
      (ringbufRead b n).2.contents = b.contents.drop n ∧ (ringbufRead b n).2.size = b.size := by
  induction n generalizing b with
  | zero => exact ⟨rfl, h, rfl, rfl⟩
  | succ n ih =>
    by_cases hne : b.next b.rd ≠ b.wr
    · obtain ⟨hok, hc⟩ := h.read_one hne
      obtain ⟨h1, h2, h3, h4⟩ := ih hok
      simp only [ringbufRead, if_pos hne]
      rw [hc]
      exact ⟨by rw [h1, List.take_succ_cons], h2, by rw [h3, List.drop_succ_cons], h4⟩
    · have h0 : b.contents = [] := by
        have := h.next_rd_eq_wr.1 (not_not.1 hne)
        simp [Ringbuf.contents, this]
      simp only [ringbufRead, if_neg hne]
      exact ⟨by simp [h0], h, by simp [h0], trivial⟩

/-! ## Writing -/

/-- one round of the write loop -/
theorem Ringbuf.Ok.write_one {b : Ringbuf} (h : b.Ok) (hne : b.wr ≠ b.rd) (c : UInt8) :
    let b' := { b with data := b.data.set b.wr c, wr := b.next b.wr }
    b'.Ok ∧ b'.contents = b.contents ++ [c] := by
  intro b'
  have hrd := h.rd; have hwr := h.wr; have hlen := h.len
  have hn := Ringbuf.next_eq h.bound h.wr
  have hok : b'.Ok :=
    ⟨h.pos, h.bound, h.rd, by simp only [b', hn]; split_ifs <;> omega, by simp only [b', List.length_set]; exact h.len⟩
  refine ⟨hok, ?_⟩
  have hc : b'.count = b.count + 1 := by
    simp only [Ringbuf.count, b', hn]
    split_ifs at * <;> omega
  have hlast : b.slot b.count = b.wr := by
    simp only [Ringbuf.slot, Ringbuf.count]
    split_ifs <;> omega
  have hne' : ∀ k, k < b.count → b.slot k ≠ b.wr := by
    intro k hk
    simp only [Ringbuf.count] at hk
    simp only [Ringbuf.slot]
    split_ifs at * <;> omega
  rw [Ringbuf.contents, hc, List.range_succ, List.map_append, List.map_singleton]
  refine congrArg₂ _ (List.map_congr_left fun k hk => ?_) ?_
  · have hk' := hne' k (List.mem_range.1 hk)
    change (b.data.set b.wr c).getD (b.slot k) 0 = b.data.getD (b.slot k) 0
    simp only [List.getD_eq_getElem?_getD, List.getElem?_set_ne (Ne.symm hk')]
  · change [(b.data.set b.wr c).getD (b.slot b.count) 0] = [c]
    rw [hlast]
    simp [List.getD_eq_getElem?_getD, hlen, hwr]

/-- **Writing appends what a queue of capacity `size - 1` accepts**, and returns how much that was. -/
theorem ringbufWrite_spec {b : Ringbuf} (h : b.Ok) (l : Bytes) :
    (ringbufWrite b l).1 = (accepted (b.size - 1) b.contents l).length ∧ (ringbufWrite b l).2.Ok ∧
      (ringbufWrite b l).2.contents = b.contents ++ accepted (b.size - 1) b.contents l ∧
      (ringbufWrite b l).2.size = b.size := by
  induction l generalizing b with
  | nil => exact ⟨by simp [ringbufWrite, accepted], h, by simp [ringbufWrite, accepted], rfl⟩
  | cons c l ih =>
    have hcl := Ringbuf.contents_length b
    by_cases hne : b.wr ≠ b.rd
    · obtain ⟨hok, hc⟩ := h.write_one hne c
      have hlt : b.contents.length < b.size - 1 := by
        have := h.count_lt
        have : b.count ≠ b.size - 1 := fun he => hne (h.wr_eq_rd.2 he)
        omega
      obtain ⟨h1, h2, h3, h4⟩ := ih hok
      rw [hc] at h1 h3
      rw [accepted_cons c l hlt]
      simp only [ringbufWrite, if_pos hne]
      exact ⟨by rw [h1, List.length_cons], h2, by rw [h3, List.append_assoc]; rfl, h4⟩
    · have hfull : b.size - 1 ≤ b.contents.length := by rw [hcl, h.wr_eq_rd.1 (not_not.1 hne)]
      rw [accepted_full hfull]
      simp only [ringbufWrite, if_neg hne]
      exact ⟨rfl, h, by simp, trivial⟩

/-- a byte that finds the buffer full is dropped: 31 bytes fit into the 32 slots of a socket's buffer -/
example : (ringbufWrite (ringbufInit (List.replicate 32 0) 32) (List.replicate 40 7)).1 = 31 := by decide

/-! ## Accounting -/

theorem ringbufLeft_eq {b : Ringbuf} (h : b.Ok) : ringbufLeft b = b.size - 1 - b.contents.length := by
  have := h.rd; have := h.wr; have := h.bound
  rw [Ringbuf.contents_length]
  simp only [ringbufLeft, sizeT, Ringbuf.count]
  split_ifs <;> omega

theorem ringbufContains_eq {b : Ringbuf} (h : b.Ok) : ringbufContains b = b.contents.length := by
  have := h.count_lt; have := h.bound; have := h.pos
  rw [ringbufContains, ringbufLeft_eq h, Ringbuf.contents_length]
  simp only [sizeT]
  omega

theorem ringbufEmpty_iff {b : Ringbuf} (h : b.Ok) : ringbufEmpty b = 1 ↔ b.contents = [] := by
  rw [ringbufEmpty, ← List.length_eq_zero_iff, Ringbuf.contents_length, ← h.next_rd_eq_wr]
  split_ifs with hne <;> simp_all

theorem ringbufFull_iff {b : Ringbuf} (h : b.Ok) : ringbufFull b = 1 ↔ b.contents.length = b.size - 1 := by
  rw [ringbufFull, Ringbuf.contents_length, ← h.wr_eq_rd]
  split_ifs with he <;> simp [he]

end EspHostdriver
