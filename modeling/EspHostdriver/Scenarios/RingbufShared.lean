/-
The ring buffer (`sys/ringbuf.c`) between one producer and one consumer that share it without a lock: the reader thread
fills the stream of a socket while a user thread drains it.

Every load and every store of `rd`, `wr` or a slot is a step of its own; the two threads take their steps in any order
on one memory. C does not say which operand of `!=` is loaded first, so a step names its choice. A byte counts as
accepted when the store of `wr` publishes it, and as read when its slot is loaded.

- `write_alone`, `read_alone`: a call whose steps nobody interrupts does what `ringbufWrite` and `ringbufRead` do.
- `Inv`: after `W` bytes published and `R` slots claimed, `wr` is `W` and `rd` is `R - 1` modulo the size, at most
  `size - 1` bytes lie in between, and the slots hold them. What a thread has loaded is an index of now or of earlier;
  an old index only makes the buffer look fuller to the producer and emptier to the consumer.
- `step_inv`: every step of either thread keeps it.
- `shared_prefix`: on every interleaving the bytes read are a prefix of the bytes accepted, and the producer never
  stores into a slot that the consumer has claimed and not copied yet.
-/
import EspHostdriver.Core.Machine
import EspHostdriver.Sys.Ringbuf

namespace EspHostdriver.RingbufShared

open Machine

/-! ## Model -/

/-- which operand of a comparison is loaded first -/
inductive Operand where
  | rd
  | wr
deriving DecidableEq

/-- where the producer is in `ringbuf_write`: the byte at hand, the bytes behind it, what it has loaded -/
inductive WritePc where
  | idle
  | test (c : UInt8) (l : Bytes)
  | testWr (c : UInt8) (l : Bytes) (w : ℕ)
  | testRd (c : UInt8) (l : Bytes) (r : ℕ)
  | store (c : UInt8) (l : Bytes)
  | storeAt (c : UInt8) (l : Bytes) (w : ℕ)
  | next (c : UInt8) (l : Bytes)
  | nextTo (c : UInt8) (l : Bytes) (w : ℕ)
deriving DecidableEq

/-- where the consumer is in `ringbuf_read`: the bytes to read behind the one at hand, what it has loaded -/
inductive ReadPc where
  | idle
  | test (n : ℕ)
  | testRd (n r : ℕ)
  | testWr (n w : ℕ)
  | claim (n : ℕ)
  | claimAs (n r : ℕ)
  | copy (n : ℕ)
  | copyAt (n r : ℕ)
deriving DecidableEq

/-- the shared buffer, the two threads, the bytes accepted and the bytes read so far -/
structure Shared where
  buf : Ringbuf
  writer : WritePc
  reader : ReadPc
  sent : Bytes
  got : Bytes
deriving DecidableEq

inductive Act where
  | writeCall (l : Bytes)
  | readCall (n : ℕ)
  | writer (o : Operand)
  | reader (o : Operand)
deriving DecidableEq

/-- `i<n` of `ringbuf_write` -/
def writeFrom : Bytes → WritePc
  | [] => .idle
  | c :: l => .test c l

/-- `i<n` of `ringbuf_read` -/
def readFrom : ℕ → ReadPc
  | 0 => .idle
  | n + 1 => .test n

def writerStep (s : Shared) (o : Operand) : Option Shared :=
  match s.writer with
  | .idle => none
  | .test c l =>
    match o with
    | .wr => some { s with writer := .testWr c l s.buf.wr }
    | .rd => some { s with writer := .testRd c l s.buf.rd }
  | .testWr c l w => some { s with writer := if w ≠ s.buf.rd then .store c l else .idle }
  | .testRd c l r => some { s with writer := if s.buf.wr ≠ r then .store c l else .idle }
  | .store c l => some { s with writer := .storeAt c l s.buf.wr }
  | .storeAt c l w => some { s with buf := { s.buf with data := s.buf.data.set w c }, writer := .next c l }
  | .next c l => some { s with writer := .nextTo c l s.buf.wr }
  | .nextTo c l w =>
    some { s with buf := { s.buf with wr := s.buf.next w }, sent := s.sent ++ [c], writer := writeFrom l }

def readerStep (s : Shared) (o : Operand) : Option Shared :=
  match s.reader with
  | .idle => none
  | .test n =>
    match o with
    | .rd => some { s with reader := .testRd n s.buf.rd }
    | .wr => some { s with reader := .testWr n s.buf.wr }
  | .testRd n r => some { s with reader := if s.buf.next r ≠ s.buf.wr then .claim n else .idle }
  | .testWr n w => some { s with reader := if s.buf.next s.buf.rd ≠ w then .claim n else .idle }
  | .claim n => some { s with reader := .claimAs n s.buf.rd }
  | .claimAs n r => some { s with buf := { s.buf with rd := s.buf.next r }, reader := .copy n }
  | .copy n => some { s with reader := .copyAt n s.buf.rd }
  | .copyAt n r => some { s with got := s.got ++ [s.buf.data.getD r 0], reader := readFrom n }

def step (s : Shared) : Act → Option Shared
  | .writeCall l => if s.writer = .idle then some { s with writer := writeFrom l } else none
  | .readCall n => if s.reader = .idle then some { s with reader := readFrom n } else none
  | .writer o => writerStep s o
  | .reader o => readerStep s o

def start (data : Bytes) (n : ℕ) : Shared := ⟨ringbufInit data n, .idle, .idle, [], []⟩

/-- the slot that a step stores a byte into -/
def stores (s : Shared) : Act → Option ℕ
  | .writer _ =>
    match s.writer with
    | .storeAt _ _ w => some w
    | _ => none
  | _ => none

/-- slots the consumer has claimed and not copied yet -/
def ReadPc.claimed : ReadPc → ℕ
  | .copy _ => 1
  | .copyAt _ _ => 1
  | _ => 0

/-- `rd` has been advanced onto slot `i`, which has not been copied yet -/
def Claims (s : Shared) (i : ℕ) : Prop := s.reader.claimed = 1 ∧ s.buf.rd = i

/-! ## Calls that nobody interrupts -/

/-- **A write alone** stores what `ringbufWrite` stores. -/
theorem write_alone (l : Bytes) (s : Shared) (h : s.writer = writeFrom l) : ∃ acts,
    run step s acts = some { s with
      buf := (ringbufWrite s.buf l).2, writer := .idle, sent := s.sent ++ l.take (ringbufWrite s.buf l).1 } := by
  induction l generalizing s with
  | nil =>
    have hidle : { s with writer := .idle } = s := by rw [show WritePc.idle = s.writer from h.symm]
    exact ⟨[], by simp [ringbufWrite, hidle]⟩
  | cons c l ih =>
    by_cases hne : s.buf.wr ≠ s.buf.rd
    · let s' : Shared := { s with
        buf := { s.buf with data := s.buf.data.set s.buf.wr c, wr := s.buf.next s.buf.wr }
        sent := s.sent ++ [c], writer := writeFrom l }
      have hround : run step s (List.replicate 6 (.writer .wr)) = some s' := by
        simp [run_cons, step, writerStep, h, writeFrom, hne, s', Ringbuf.next, List.replicate]
      obtain ⟨acts, hacts⟩ := ih s' rfl
      refine ⟨List.replicate 6 (.writer .wr) ++ acts, ?_⟩
      rw [run_append, hround, Option.bind_some, hacts]
      simp only [ringbufWrite, if_pos hne, List.take_succ_cons, s', List.append_assoc, List.singleton_append]
    · refine ⟨List.replicate 2 (.writer .wr), ?_⟩
      simp [run_cons, step, writerStep, h, writeFrom, hne, ringbufWrite, List.replicate]

/-- **A read alone** returns what `ringbufRead` returns. -/
theorem read_alone (n : ℕ) (s : Shared) (h : s.reader = readFrom n) : ∃ acts,
    run step s acts = some { s with
      buf := (ringbufRead s.buf n).2, reader := .idle, got := s.got ++ (ringbufRead s.buf n).1 } := by
  induction n generalizing s with
  | zero =>
    have hidle : { s with reader := .idle } = s := by rw [show ReadPc.idle = s.reader from h.symm]
    exact ⟨[], by simp [ringbufRead, hidle]⟩
  | succ n ih =>
    by_cases hne : s.buf.next s.buf.rd ≠ s.buf.wr
    · let s' : Shared := { s with
        buf := { s.buf with rd := s.buf.next s.buf.rd }
        got := s.got ++ [s.buf.data.getD (s.buf.next s.buf.rd) 0], reader := readFrom n }
      have hround : run step s (List.replicate 6 (.reader .rd)) = some s' := by
        simp [run_cons, step, readerStep, h, readFrom, hne, s', List.replicate]
      obtain ⟨acts, hacts⟩ := ih s' rfl
      refine ⟨List.replicate 6 (.reader .rd) ++ acts, ?_⟩
      rw [run_append, hround, Option.bind_some, hacts]
      simp only [ringbufRead, if_pos hne, s', List.append_assoc, List.singleton_append]
    · refine ⟨List.replicate 2 (.reader .rd), ?_⟩
      simp [run_cons, step, readerStep, h, readFrom, hne, ringbufRead, List.replicate]

/-! ## The invariant -/

/-- slots claimed so far -/
def Shared.claims (s : Shared) : ℕ := s.got.length + s.reader.claimed

/-- what the producer knows when `W` bytes are published and `R` slots are claimed -/
def WriterOk (n W R : ℕ) (b : Ringbuf) : WritePc → Prop
  | .idle => True
  | .test _ _ => True
  | .testWr _ _ w => w = b.wr
  | .testRd _ _ r => ∃ R', R' ≤ R ∧ W < R' + n ∧ r = (R' + n - 1) % n
  | .store _ _ => W + 1 < R + n
  | .storeAt _ _ w => W + 1 < R + n ∧ w = b.wr
  | .next c _ => W + 1 < R + n ∧ b.data.getD b.wr 0 = c
  | .nextTo c _ w => W + 1 < R + n ∧ w = b.wr ∧ b.data.getD b.wr 0 = c

/-- what the consumer knows -/
def ReaderOk (n W R : ℕ) (b : Ringbuf) : ReadPc → Prop
  | .idle => True
  | .test _ => True
  | .testRd _ r => r = b.rd
  | .testWr _ w => ∃ W', R ≤ W' ∧ W' ≤ W ∧ w = W' % n
  | .claim _ => R < W
  | .claimAs _ r => R < W ∧ r = b.rd
  | .copy _ => True
  | .copyAt _ r => r = b.rd

structure Inv (n : ℕ) (s : Shared) : Prop where
  size : s.buf.size = n
  len : s.buf.data.length = n
  order : s.claims ≤ s.sent.length
  room : s.sent.length < s.claims + n
  rd : s.buf.rd = (s.claims + n - 1) % n
  wr : s.buf.wr = s.sent.length % n
  stored : ∀ j, s.got.length ≤ j → j < s.sent.length → s.buf.data.getD (j % n) 0 = s.sent.getD j 0
  got : s.got = s.sent.take s.got.length
  writer : WriterOk n s.sent.length s.claims s.buf s.writer
  reader : ReaderOk n s.sent.length s.claims s.buf s.reader

/-! ## Positions and slots -/

/-- positions less than a buffer apart lie in different slots -/
theorem mod_ne {n i j : ℕ} (hij : i < j) (hji : j < i + n) : i % n ≠ j % n := by
  intro h
  have hd : n ∣ j - i := (Nat.modEq_iff_dvd' hij.le).1 h
  have hle := Nat.le_of_dvd (by omega) hd
  omega

theorem next_mod {b : Ringbuf} {n : ℕ} (h0 : 1 ≤ n) (hn : n < 2 ^ 64) (hs : b.size = n) (x : ℕ) :
    b.next (x % n) = (x + 1) % n := by
  have hx : x % n < n := Nat.mod_lt x h0
  rw [Ringbuf.next_eq (hs ▸ hn) (hs ▸ hx), hs, Nat.add_mod x 1 n]
  split_ifs with h
  · rcases Nat.lt_or_ge 1 n with h1 | h1
    · rw [Nat.mod_eq_of_lt h1, h, Nat.mod_self]
    · rw [show n = 1 by omega, Nat.mod_one]
  · rw [Nat.mod_eq_of_lt (show 1 < n by omega), Nat.mod_eq_of_lt (show x % n + 1 < n by omega)]

/-- the slot after the last one claimed -/
theorem next_claimed {b : Ringbuf} {n : ℕ} (h0 : 1 ≤ n) (hn : n < 2 ^ 64) (hs : b.size = n) (R : ℕ) :
    b.next ((R + n - 1) % n) = R % n := by
  rw [next_mod h0 hn hs, Nat.sub_add_cancel (by omega), Nat.add_mod_right]

/-- an index of the consumer that differs from `wr` leaves a free slot -/
theorem room_of_ne {n W R : ℕ} (hroom : W < R + n) (hne : W % n ≠ (R + n - 1) % n) : W + 1 < R + n := by
  rcases Nat.lt_or_ge (W + 1) (R + n) with h | h
  · exact h
  · exact absurd (by rw [show W = R + n - 1 by omega]) hne

/-! ## One step -/

section Step

variable {n : ℕ} {s s' : Shared} {o : Operand}

/-- a step of the producer that only moves it on -/
theorem Inv.writerMove (h : Inv n s) {pc : WritePc} (hpc : WriterOk n s.sent.length s.claims s.buf pc) :
    Inv n { s with writer := pc } :=
  ⟨h.size, h.len, h.order, h.room, h.rd, h.wr, h.stored, h.got, hpc, h.reader⟩

/-- a step of the consumer that only moves it on -/
theorem Inv.readerMove (h : Inv n s) {pc : ReadPc} (hcl : pc.claimed = s.reader.claimed)
    (hpc : ReaderOk n s.sent.length s.claims s.buf pc) : Inv n { s with reader := pc } := by
  have hc : Shared.claims { s with reader := pc } = s.claims := by simp only [Shared.claims, hcl]
  refine ⟨h.size, h.len, ?_, ?_, ?_, h.wr, h.stored, h.got, ?_, ?_⟩ <;> rw [hc]
  · exact h.order
  · exact h.room
  · exact h.rd
  · exact h.writer
  · exact hpc

theorem writeFrom_ok (n W R : ℕ) (b : Ringbuf) (l : Bytes) : WriterOk n W R b (writeFrom l) := by
  cases l <;> trivial

theorem readFrom_ok (n W R : ℕ) (b : Ringbuf) (k : ℕ) : ReaderOk n W R b (readFrom k) := by
  cases k <;> trivial

/-- more bytes published: what the consumer knows still holds -/
theorem ReaderOk.mono {W W' R : ℕ} {b b' : Ringbuf} {pc : ReadPc} (h : ReaderOk n W R b pc) (hW : W ≤ W')
    (hrd : b'.rd = b.rd) : ReaderOk n W' R b' pc := by
  cases pc with
  | testRd k r => exact h.trans hrd.symm
  | testWr k w =>
    obtain ⟨V, h1, h2, h3⟩ := h
    exact ⟨V, h1, h2.trans hW, h3⟩
  | claim k => exact lt_of_lt_of_le h hW
  | claimAs k r => exact ⟨lt_of_lt_of_le h.1 hW, h.2.trans hrd.symm⟩
  | copyAt k r => exact h.trans hrd.symm
  | _ => trivial

/-- more slots claimed: what the producer knows still holds -/
theorem WriterOk.mono {W R R' : ℕ} {b b' : Ringbuf} {pc : WritePc} (h : WriterOk n W R b pc) (hR : R ≤ R')
    (hwr : b'.wr = b.wr) (hd : b'.data = b.data) : WriterOk n W R' b' pc := by
  have hroom : W + 1 < R + n → W + 1 < R' + n := fun h1 => by omega
  cases pc with
  | testWr c l w => exact h.trans hwr.symm
  | testRd c l r =>
    obtain ⟨V, h1, h2, h3⟩ := h
    exact ⟨V, h1.trans hR, h2, h3⟩
  | store c l => exact hroom h
  | storeAt c l w => exact ⟨hroom h.1, h.2.trans hwr.symm⟩
  | next c l => exact ⟨hroom h.1, by rw [hwr, hd]; exact h.2⟩
  | nextTo c l w => exact ⟨hroom h.1, h.2.1.trans hwr.symm, by rw [hwr, hd]; exact h.2.2⟩
  | _ => trivial

theorem readFrom_claimed (k : ℕ) : (readFrom k).claimed = 0 := by cases k <;> rfl

/-- the byte goes into a slot that holds nothing unread -/
theorem Inv.store (h : Inv n s) (h0 : 1 ≤ n) {c : UInt8} {l : Bytes} {w : ℕ} (hpc : s.writer = .storeAt c l w) :
    Inv n { s with buf := { s.buf with data := s.buf.data.set w c }, writer := .next c l } := by
  have hw := h.writer
  rw [hpc] at hw
  obtain ⟨hroom, rfl⟩ := hw
  have hlt : s.buf.wr < s.buf.data.length := by rw [h.len, h.wr]; exact Nat.mod_lt _ h0
  refine ⟨h.size, by rw [List.length_set]; exact h.len, h.order, h.room, h.rd, h.wr, ?_, h.got, ⟨hroom, ?_⟩,
    h.reader.mono le_rfl rfl⟩
  · intro j (hj : s.got.length ≤ j) (hjW : j < s.sent.length)
    have hR : s.claims ≤ s.got.length + 1 := by
      unfold Shared.claims ReadPc.claimed
      split <;> omega
    have hne : s.buf.wr ≠ j % n := by
      rw [h.wr]
      exact (mod_ne hjW (by omega)).symm
    rw [← h.stored j hj hjW]
    simp only [List.getD_eq_getElem?_getD, List.getElem?_set_ne hne]
  · simp only [List.getD_eq_getElem?_getD, List.getElem?_set_self hlt, Option.getD_some]

/-- the byte becomes one of the bytes accepted -/
theorem Inv.publish (h : Inv n s) (h0 : 1 ≤ n) (hn : n < 2 ^ 64) {c : UInt8} {l : Bytes} {w : ℕ}
    (hpc : s.writer = .nextTo c l w) :
    Inv n { s with buf := { s.buf with wr := s.buf.next w }, sent := s.sent ++ [c], writer := writeFrom l } := by
  have hw := h.writer
  rw [hpc] at hw
  obtain ⟨hroom, rfl, hc⟩ := hw
  have hlen : (s.sent ++ [c]).length = s.sent.length + 1 := by simp
  have hGW : s.got.length ≤ s.sent.length := le_trans (Nat.le_add_right _ _) h.order
  refine ⟨h.size, h.len, ?_, ?_, h.rd, ?_, ?_, ?_, writeFrom_ok _ _ _ _ l, h.reader.mono (by rw [hlen]; omega) rfl⟩
  · rw [hlen]; exact Nat.le_succ_of_le h.order
  · rw [hlen]; exact hroom
  · rw [hlen, h.wr]
    exact next_mod h0 hn h.size _
  · intro j (hj : s.got.length ≤ j) hjW
    rw [hlen] at hjW
    rcases Nat.lt_or_ge j s.sent.length with hlt | hge
    · have hold : (s.sent ++ [c]).getD j 0 = s.sent.getD j 0 := by
        simp only [List.getD_eq_getElem?_getD, List.getElem?_append_left hlt]
      exact (h.stored j hj hlt).trans hold.symm
    · have hj' : j = s.sent.length := by omega
      subst hj'
      have hnew : (s.sent ++ [c]).getD s.sent.length 0 = c := by simp [List.getD_eq_getElem?_getD]
      rw [hnew, ← h.wr]
      exact hc
  · rw [List.take_append_of_le_length hGW]
    exact h.got

/-- `rd` moves onto a slot that holds an unread byte -/
theorem Inv.claim (h : Inv n s) (h0 : 1 ≤ n) (hn : n < 2 ^ 64) {k r : ℕ} (hpc : s.reader = .claimAs k r) :
    Inv n { s with buf := { s.buf with rd := s.buf.next r }, reader := .copy k } := by
  have hr := h.reader
  rw [hpc] at hr
  obtain ⟨hlt, rfl⟩ := hr
  have hR : s.claims = s.got.length := by simp only [Shared.claims, hpc, ReadPc.claimed, Nat.add_zero]
  have hc : Shared.claims { s with buf := { s.buf with rd := s.buf.next s.buf.rd }, reader := .copy k } =
      s.claims + 1 := by rw [hR]; rfl
  have hroom := h.room
  have hwriter := h.writer.mono (Nat.le_succ s.claims) rfl rfl
  refine ⟨h.size, h.len, ?_, ?_, ?_, h.wr, h.stored, h.got, hc ▸ hwriter, trivial⟩ <;> rw [hc]
  · exact hlt
  · show s.sent.length < s.claims + 1 + n
    omega
  · show s.buf.next s.buf.rd = _
    rw [h.rd, next_claimed h0 hn h.size, show s.claims + 1 + n - 1 = s.claims + n by omega, Nat.add_mod_right]

/-- the byte copied is the next one accepted -/
theorem Inv.copy (h : Inv n s) {k r : ℕ} (hpc : s.reader = .copyAt k r) :
    Inv n { s with got := s.got ++ [s.buf.data.getD r 0], reader := readFrom k } := by
  have hr := h.reader
  rw [hpc] at hr
  have hr' : r = s.buf.rd := hr
  subst hr'
  have hR : s.claims = s.got.length + 1 := by simp only [Shared.claims, hpc, ReadPc.claimed]
  have hlen : (s.got ++ [s.buf.data.getD s.buf.rd 0]).length = s.got.length + 1 := by simp
  have hc : Shared.claims { s with got := s.got ++ [s.buf.data.getD s.buf.rd 0], reader := readFrom k } =
      s.claims := by simp only [Shared.claims, hlen, readFrom_claimed, Nat.add_zero]; rw [hpc]; rfl
  have hGW : s.got.length < s.sent.length := by have := h.order; omega
  have hbyte : s.buf.data.getD s.buf.rd 0 = s.sent.getD s.got.length 0 := by
    rw [h.rd, hR, show s.got.length + 1 + n - 1 = s.got.length + n by omega, Nat.add_mod_right]
    exact h.stored _ le_rfl hGW
  refine ⟨h.size, h.len, ?_, ?_, ?_, h.wr, ?_, ?_, ?_, readFrom_ok _ _ _ _ k⟩ <;> try rw [hc]
  · exact h.order
  · exact h.room
  · exact h.rd
  · intro j hj hjW
    rw [hlen] at hj
    exact h.stored j (by omega) hjW
  · rw [hlen, List.take_add_one, ← h.got, hbyte]
    simp [List.getD_eq_getElem?_getD, List.getElem?_eq_getElem hGW]
  · exact h.writer

theorem writerStep_inv (h0 : 1 ≤ n) (hn : n < 2 ^ 64) (h : Inv n s) (hs : writerStep s o = some s') : Inv n s' := by
  have hw := h.writer
  have hroom := h.room
  unfold writerStep at hs
  cases hpc : s.writer with
  | idle => simp [hpc] at hs
  | test c l =>
    cases o with
    | wr =>
      simp only [hpc, Option.some.injEq] at hs
      subst hs
      exact h.writerMove rfl
    | rd =>
      simp only [hpc, Option.some.injEq] at hs
      subst hs
      exact h.writerMove ⟨s.claims, le_rfl, hroom, h.rd⟩
  | testWr c l w =>
    simp only [hpc, Option.some.injEq] at hs
    subst hs
    rw [hpc] at hw
    split_ifs with hne
    · apply h.writerMove
      rw [show w = s.buf.wr from hw, h.wr, h.rd] at hne
      exact room_of_ne hroom hne
    · exact h.writerMove trivial
  | testRd c l r =>
    simp only [hpc, Option.some.injEq] at hs
    subst hs
    rw [hpc] at hw
    obtain ⟨R', hR, hroom', rfl⟩ := hw
    split_ifs with hne
    · apply h.writerMove
      -- the index loaded is an old one: what was free then is free now
      rw [h.wr] at hne
      have hold := room_of_ne hroom' hne
      show s.sent.length + 1 < s.claims + n
      omega
    · exact h.writerMove trivial
  | store c l =>
    simp only [hpc, Option.some.injEq] at hs
    subst hs
    rw [hpc] at hw
    exact h.writerMove ⟨hw, rfl⟩
  | storeAt c l w =>
    simp only [hpc, Option.some.injEq] at hs
    subst hs
    exact h.store h0 hpc
  | next c l =>
    simp only [hpc, Option.some.injEq] at hs
    subst hs
    rw [hpc] at hw
    exact h.writerMove ⟨hw.1, rfl, hw.2⟩
  | nextTo c l w =>
    simp only [hpc, Option.some.injEq] at hs
    subst hs
    exact h.publish h0 hn hpc

theorem readerStep_inv (h0 : 1 ≤ n) (hn : n < 2 ^ 64) (h : Inv n s) (hs : readerStep s o = some s') : Inv n s' := by
  have hr := h.reader
  have horder := h.order
  unfold readerStep at hs
  cases hpc : s.reader with
  | idle => simp [hpc] at hs
  | test k =>
    cases o with
    | rd =>
      simp only [hpc, Option.some.injEq] at hs
      subst hs
      exact h.readerMove (by rw [hpc]; rfl) rfl
    | wr =>
      simp only [hpc, Option.some.injEq] at hs
      subst hs
      exact h.readerMove (by rw [hpc]; rfl) ⟨s.sent.length, horder, le_rfl, h.wr⟩
  | testRd k r =>
    simp only [hpc, Option.some.injEq] at hs
    subst hs
    rw [hpc] at hr
    split_ifs with hne
    · apply h.readerMove (by rw [hpc]; rfl)
      rw [show r = s.buf.rd from hr, h.rd, next_claimed h0 hn h.size, h.wr] at hne
      exact lt_of_le_of_ne horder fun he => hne (by rw [he])
    · exact h.readerMove (by rw [hpc]; rfl) trivial
  | testWr k w =>
    simp only [hpc, Option.some.injEq] at hs
    subst hs
    rw [hpc] at hr
    obtain ⟨W', hW, hW', rfl⟩ := hr
    split_ifs with hne
    · apply h.readerMove (by rw [hpc]; rfl)
      -- the index loaded is an old one: what was unread then is unread now
      rw [h.rd, next_claimed h0 hn h.size] at hne
      have hold : s.claims ≠ W' := fun he => hne (by rw [he])
      show s.claims < s.sent.length
      omega
    · exact h.readerMove (by rw [hpc]; rfl) trivial
  | claim k =>
    simp only [hpc, Option.some.injEq] at hs
    subst hs
    rw [hpc] at hr
    exact h.readerMove (by rw [hpc]; rfl) ⟨hr, rfl⟩
  | claimAs k r =>
    simp only [hpc, Option.some.injEq] at hs
    subst hs
    exact h.claim h0 hn hpc
  | copy k =>
    simp only [hpc, Option.some.injEq] at hs
    subst hs
    exact h.readerMove (by rw [hpc]; rfl) rfl
  | copyAt k r =>
    simp only [hpc, Option.some.injEq] at hs
    subst hs
    exact h.copy hpc

end Step

theorem step_inv {n : ℕ} (h0 : 1 ≤ n) (hn : n < 2 ^ 64) (s : Shared) (a : Act) (s' : Shared) (h : Inv n s)
    (hs : step s a = some s') : Inv n s' := by
  cases a with
  | writeCall l =>
    simp only [step] at hs
    split_ifs at hs
    cases hs
    exact h.writerMove (writeFrom_ok _ _ _ _ l)
  | readCall k =>
    simp only [step] at hs
    split_ifs at hs with hidle
    cases hs
    exact h.readerMove (by rw [readFrom_claimed, hidle]; rfl) (readFrom_ok _ _ _ _ k)
  | writer o => exact writerStep_inv h0 hn h hs
  | reader o => exact readerStep_inv h0 hn h hs

/-! ## Every interleaving -/

theorem start_inv {n : ℕ} {data : Bytes} (h0 : 1 ≤ n) (hn : n < 2 ^ 64) (hd : data.length = n) :
    Inv n (start data n) := by
  have hrd : sizeT ((n : ℤ) - 1) = n - 1 := by simp only [sizeT]; omega
  refine ⟨rfl, hd, le_rfl, by show 0 < 0 + n; omega, ?_, (Nat.zero_mod n).symm, ?_, rfl, trivial, trivial⟩
  · show sizeT ((n : ℤ) - 1) = (0 + n - 1) % n
    rw [hrd, Nat.zero_add, Nat.mod_eq_of_lt (by omega)]
  · intro j _ hj
    exact absurd hj (Nat.not_lt_zero j)

theorem Inv.got_prefix {n : ℕ} {s : Shared} (h : Inv n s) : s.got <+: s.sent := by
  rw [h.got]
  exact List.take_prefix _ _

/-- the slot at hand of the producer is not the one the consumer is about to copy -/
theorem Inv.stores_free {n : ℕ} {s : Shared} (h : Inv n s) {a : Act} {i : ℕ} (hi : stores s a = some i) :
    ¬ Claims s i := by
  rintro ⟨hclaimed, hrd⟩
  unfold stores at hi
  split at hi
  · split at hi
    · rename_i c l w hpc
      have hw := h.writer
      rw [hpc] at hw
      cases hi
      have hR : 1 ≤ s.claims := by simp only [Shared.claims, hclaimed]; omega
      have horder := h.order
      have hne : (s.claims - 1) % n ≠ s.sent.length % n := mod_ne (by omega) (by have := hw.1; omega)
      apply hne
      rw [← h.wr, ← hw.2, ← hrd, h.rd, show s.claims + n - 1 = s.claims - 1 + n by omega, Nat.add_mod_right]
    · cases hi
  · cases hi

/-- **One producer and one consumer need no lock.** On every interleaving of their loads and stores, the bytes read are
a prefix of the bytes accepted, and no step stores into a slot that is claimed and not copied yet. -/
theorem shared_prefix {n : ℕ} {data : Bytes} {acts : List Act} {s : Shared} (h0 : 1 ≤ n) (hn : n < 2 ^ 64)
    (hd : data.length = n) (hr : run step (start data n) acts = some s) :
    s.got <+: s.sent ∧ ∀ a i, stores s a = some i → ¬ Claims s i := by
  have hi : Inv n s := inv_run (step_inv h0 hn) (start_inv h0 hn hd) hr
  exact ⟨hi.got_prefix, fun a i hs => hi.stores_free hs⟩

/-- the consumer claims a slot while the producer is between its loads of `wr` and `rd` -/
def sampleActs : List Act :=
  .writeCall [1, 2] :: List.replicate 6 (Act.writer .rd) ++ .readCall 1 :: List.replicate 3 (Act.reader .wr) ++
    [Act.writer .wr, .reader .wr, .writer .wr, .reader .wr, .writer .wr, .writer .wr]

theorem shared_prefix_sample : ∃ s, run step (start [0, 0] 2) sampleActs = some s ∧
    s.got <+: s.sent ∧ ∀ a i, stores s a = some i → ¬ Claims s i := by
  obtain ⟨s, hr⟩ : ∃ s, run step (start [0, 0] 2) sampleActs = some s := Option.isSome_iff_exists.1 (by decide)
  exact ⟨s, hr, shared_prefix (n := 2) (by decide) (by decide) rfl hr⟩

end EspHostdriver.RingbufShared
