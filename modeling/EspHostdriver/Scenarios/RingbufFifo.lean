/-
The ring buffer (`sys/ringbuf.c`) as a bounded queue, over every sequence of calls.

`ringCall` is one call of `ringbuf_write` or `ringbuf_read` on a buffer, `fifoCall` the same call on a byte queue that
may hold `cap` bytes. A write is answered with the number of bytes stored, a read with the bytes themselves.

- `Stands`: a well-formed buffer of `cap + 1` slots stands for the queue of its unread bytes.
- `ringCall_stands`: one call is answered alike on both sides and leaves them standing for each other.
- `ringbuf_fifo`: so is every sequence of calls after `ringbuf_init`, and the accounting functions tell the length of
  the queue, the space left, and whether it is empty or full.
-/
import EspHostdriver.Core.Machine
import EspHostdriver.Sys.Ringbuf

namespace EspHostdriver.RingbufFifo

open Machine Fifo

/-! ## The calls on both sides -/

inductive Call where
  | write (l : Bytes)
  | read (n : ℕ)

inductive Answer where
  | wrote (n : ℕ)
  | got (l : Bytes)
deriving DecidableEq

def ringCall (b : Ringbuf) : Call → Answer × Ringbuf
  | .write l => (.wrote (ringbufWrite b l).1, (ringbufWrite b l).2)
  | .read n => (.got (ringbufRead b n).1, (ringbufRead b n).2)

/-- the abstract queue: what does not fit is refused, what is not there is not returned -/
def fifoCall (cap : ℕ) (q : Bytes) : Call → Answer × Bytes
  | .write l => (.wrote (min l.length (cap - q.length)), q ++ l.take (min l.length (cap - q.length)))
  | .read n => (.got (q.take (min n q.length)), q.drop (min n q.length))

/-- the buffer is well-formed and holds the queue -/
structure Stands (cap : ℕ) (b : Ringbuf) (q : Bytes) : Prop where
  ok : b.Ok
  size : b.size = cap + 1
  contents : b.contents = q

theorem Stands.length_le {cap : ℕ} {b : Ringbuf} {q : Bytes} (h : Stands cap b q) : q.length ≤ cap := by
  have hlt := h.ok.count_lt
  have hlen := b.contents_length
  rw [h.size] at hlt
  rw [h.contents] at hlen
  omega

/-! ## One call -/

theorem take_min_length (l : Bytes) (k : ℕ) : l.take (min l.length k) = l.take k := by
  rcases le_total l.length k with h | h
  · rw [min_eq_left h, List.take_length, List.take_of_length_le h]
  · rw [min_eq_right h]

theorem write_stands {cap : ℕ} {b : Ringbuf} {q : Bytes} (h : Stands cap b q) (l : Bytes) :
    (ringbufWrite b l).1 = min l.length (cap - q.length) ∧
      Stands cap (ringbufWrite b l).2 (q ++ l.take (min l.length (cap - q.length))) := by
  obtain ⟨hr, hok, hc, hs⟩ := ringbufWrite_spec h.ok l
  have hcap : b.size - 1 = cap := by rw [h.size, Nat.add_sub_cancel]
  rw [hcap, h.contents, accepted] at hr hc
  rw [take_min_length]
  refine ⟨?_, hok, hs.trans h.size, hc⟩
  rw [hr, List.length_take, min_comm]

theorem read_stands {cap : ℕ} {b : Ringbuf} {q : Bytes} (h : Stands cap b q) (n : ℕ) :
    (ringbufRead b n).1 = q.take (min n q.length) ∧ Stands cap (ringbufRead b n).2 (q.drop (min n q.length)) := by
  obtain ⟨hr, hok, hc, hs⟩ := ringbufRead_spec h.ok n
  rw [h.contents] at hr hc
  have hdrop : q.drop (min n q.length) = q.drop n := by
    rcases le_total n q.length with hn | hn
    · rw [min_eq_left hn]
    · rw [min_eq_right hn, List.drop_length, List.drop_eq_nil_of_le hn]
  rw [min_comm, take_min_length, min_comm, hdrop]
  exact ⟨hr, hok, hs.trans h.size, hc⟩

/-- one call is answered alike -/
theorem ringCall_stands (cap : ℕ) (b : Ringbuf) (q : Bytes) (c : Call) (h : Stands cap b q) :
    (ringCall b c).1 = (fifoCall cap q c).1 ∧ Stands cap (ringCall b c).2 (fifoCall cap q c).2 := by
  cases c with
  | write l =>
    obtain ⟨hr, hs⟩ := write_stands h l
    exact ⟨congrArg Answer.wrote hr, hs⟩
  | read n =>
    obtain ⟨hr, hs⟩ := read_stands h n
    exact ⟨congrArg Answer.got hr, hs⟩

/-! ## Every sequence of calls -/

theorem init_stands {n : ℕ} {data : Bytes} (h0 : 1 ≤ n) (hn : n < 2 ^ 64) (hd : data.length = n) :
    Stands (n - 1) (ringbufInit data n) [] :=
  ⟨ringbufInit_ok h0 hn hd, by simp only [ringbufInit]; omega, ringbufInit_contents h0 hn⟩

theorem ringbufEmpty_eq {b : Ringbuf} (h : b.Ok) : ringbufEmpty b = if b.contents.length = 0 then 1 else 0 := by
  by_cases he : b.contents.length = 0
  · rw [if_pos he, ringbufEmpty_iff h, List.length_eq_zero_iff.1 he]
  · have hne : ringbufEmpty b ≠ 1 := fun h1 => he (by rw [(ringbufEmpty_iff h).1 h1, List.length_nil])
    rw [if_neg he]
    unfold ringbufEmpty at hne ⊢
    split_ifs at hne ⊢ <;> simp_all

theorem ringbufFull_eq {b : Ringbuf} (h : b.Ok) :
    ringbufFull b = if b.contents.length = b.size - 1 then 1 else 0 := by
  by_cases hf : b.contents.length = b.size - 1
  · rw [if_pos hf, ringbufFull_iff h, hf]
  · have hne : ringbufFull b ≠ 1 := fun h1 => hf ((ringbufFull_iff h).1 h1)
    rw [if_neg hf]
    unfold ringbufFull at hne ⊢
    split_ifs at hne ⊢ <;> simp_all

/-- **The ring buffer is a queue of capacity `n - 1`.** After every sequence of calls from `ringbuf_init` on, every
call was answered as the queue answers it, and the accounting functions describe the queue. -/
theorem ringbuf_fifo {n : ℕ} {data : Bytes} (h0 : 1 ≤ n) (hn : n < 2 ^ 64) (hd : data.length = n)
    (calls : List Call) :
    let b := (answers ringCall (ringbufInit data n) calls).2
    let q := (answers (fifoCall (n - 1)) [] calls).2
    (answers ringCall (ringbufInit data n) calls).1 = (answers (fifoCall (n - 1)) [] calls).1 ∧
      b.contents = q ∧ q.length ≤ n - 1 ∧
      ringbufContains b = q.length ∧ ringbufLeft b = n - 1 - q.length ∧
      ringbufEmpty b = (if q.length = 0 then 1 else 0) ∧ ringbufFull b = (if q.length = n - 1 then 1 else 0) := by
  intro b q
  obtain ⟨hans, hs⟩ := answers_sim (ringCall_stands (n - 1)) (init_stands h0 hn hd) calls
  have hlen : b.contents.length = q.length := congrArg List.length hs.contents
  have hsize : b.size - 1 = n - 1 := by rw [hs.size, Nat.add_sub_cancel]
  refine ⟨hans, hs.contents, hs.length_le, ?_, ?_, ?_, ?_⟩
  · rw [ringbufContains_eq hs.ok, hlen]
  · rw [ringbufLeft_eq hs.ok, hlen, hsize]
  · rw [ringbufEmpty_eq hs.ok, hlen]
  · rw [ringbufFull_eq hs.ok, hlen, hsize]

/-- three slots: two bytes fit, the third is refused, and they come out in order -/
theorem ringbuf_fifo_sample :
    (answers ringCall (ringbufInit [0, 0, 0] 3) [.write [1, 2, 4], .read 1, .write [8], .read 9]).1 =
      [.wrote 2, .got [1], .wrote 1, .got [2, 8]] := by
  rw [(@ringbuf_fifo 3 [0, 0, 0] (by decide) (by decide) rfl
    [.write [1, 2, 4], .read 1, .write [8], .read 9]).1]
  decide

end EspHostdriver.RingbufFifo
