/-
The address that `bos_recvfrom` and `bos_accept` copy to a caller that uses one buffer and one variable `addr_len`.

The variable is the number of bytes to copy when a call begins, and the size of an internet address, 12, when it returns.
Nobody compares it with 12 before the copy, and what is written back is no longer bounded by the buffer. Between two
calls of this caller everybody else may do anything.

- `source`: the stored address that a call copies from, when it gets to its copy. `recvfrom_addr` and `accept_addr` say
  that the call returns as many bytes from there as the variable says, also when these are more than an address has.
- `copy_step`: a copy stays in bounds exactly when the first one is of 12 bytes at most, or a later one finds a buffer of
  12 bytes.
- `copy_out`: every run.
- `copy_out_fails`: a buffer of 4 bytes and two datagrams; a buffer of 20 bytes and one.
-/
import EspHostdriver.Net.Effects

namespace EspHostdriver.CopyOut

open Machine

/-! ## Model -/

/-- the caller, and the sizes of the copies made for it so far; a call that faults does not return -/
structure Caller where
  host : Host
  /-- `*addr_len` -/
  len : ℕ
  copies : List ℕ
  returns : Bool

inductive Act where
  | recvfrom (fdId : ℤ) (dataLen : ℕ)
  | accept (fdId : ℤ)
  | other (op : Op)

/-- the stored address that the call copies from -/
def source (w : Host) : Act → Option SockAddrInet
  | .recvfrom fdId _ =>
    (w.fdSock fdId).bind fun p => if p.2.type = .dgram then p.2.dgrams.head?.map Datagram.addr else none
  | .accept fdId => (w.taken fdId).bind fun c => (w.socks c).map Socket.addr
  | .other _ => none

/-- the end of a call that copied from `src`, if from anywhere -/
def finish (t : Caller) (src : Option SockAddrInet) : Except Fault (Ret × Host) → Caller
  | .ok (r, w) => ⟨w, (r.addr.map Prod.snd).getD t.len, t.copies ++ (src.map fun _ => t.len).toList, true⟩
  | .error _ => { t with copies := t.copies ++ (src.map fun _ => t.len).toList, returns := false }

def copyStep (t : Caller) (a : Act) : Option Caller :=
  if !t.returns then none
  else match a with
    | .recvfrom fdId n => some (finish t (source t.host a) (bosRecvfrom t.host fdId n (some t.len)))
    | .accept fdId => some (finish t (source t.host a) (bosAccept t.host fdId (some t.len)))
    | .other op => (step t.host op).map fun w => { t with host := w }

/-- before the first call -/
def begin (w : Host) (len : ℕ) : Caller := ⟨w, len, [], true⟩

/-- no copy writes more than the buffer holds, or reads more than an address has -/
def InBounds (cap : ℕ) (t : Caller) : Prop := ∀ n ∈ t.copies, n ≤ cap ∧ n ≤ domainAddrLen .afInet

/-- the first call that copies began with 12 or less, and a later one has a buffer of 12 or more -/
def Sized (len cap : ℕ) (t : Caller) (a : Act) : Prop :=
  source t.host a ≠ none → if t.copies = [] then len ≤ sizeofSockAddrInet else sizeofSockAddrInet ≤ cap

instance decidableSized (len cap : ℕ) (t : Caller) (a : Act) : Decidable (Sized len cap t a) :=
  inferInstanceAs (Decidable (_ → _))

/-! ## The address of a call -/

variable {w w' : Host} {fdId : ℤ} {n len : ℕ} {r : Ret}

theorem recvfrom_addr (h : bosRecvfrom w fdId n (some len) = .ok (r, w')) :
    r.addr = (source w (.recvfrom fdId n)).map fun a => (copyAddr w a len, sizeofSockAddrInet) := by
  obtain ⟨data, hd, hgo⟩ := bind_ok.1 h
  obtain ⟨fd, nd, hf, hn, rfl⟩ := Host.fdData_ok hd
  split_ifs at hgo with hnone
  · cases hgo
    simp [source, fdSock_none_of_data hf hn hnone, Ret.of]
  · obtain ⟨⟨s, k⟩, hs, _⟩ := bind_ok.1 hgo
    have hfs := fdSock_of_ok hd hs
    cases ht : k.type with
    | stream =>
      rw [bosRecvfrom_stream hfs ht] at h
      split_ifs at h
      obtain ⟨rfl, _⟩ := ok_pair.1 h
      simp [source, hfs, ht]
    | dgram =>
      rw [bosRecvfrom_dgram hfs ht] at h
      cases hq : k.dgrams with
      | nil =>
        rw [hq] at h
        obtain ⟨rfl, _⟩ := ok_pair.1 h
        simp [source, hfs, ht, hq, Ret.of]
      | cons d ds =>
        rw [hq] at h
        obtain ⟨_, _, h⟩ := bind_ok.1 h
        obtain ⟨rfl, _⟩ := ok_pair.1 h
        simp only [source, hfs, Option.bind_some, ht, if_true, hq, List.head?_cons, Option.map_some]
        rfl

theorem accept_addr (h : bosAccept w fdId (some len) = .ok (r, w')) :
    r.addr = (source w (.accept fdId)).map fun a => (copyAddr w a len, sizeofSockAddrInet) := by
  obtain ⟨data, hd, h⟩ := bind_ok.1 h
  obtain ⟨⟨s, k⟩, hs, h⟩ := bind_ok.1 h
  have hfs := fdSock_of_ok hd hs
  simp only at h
  split_ifs at h with ht hdev
  · cases h
    simp [source, Host.taken, hfs, ht, Ret.of]
  · cases h
    simp [source, Host.taken, hfs, hdev, Ret.of]
  · cases hq : k.clients with
    | nil =>
      simp only [hq] at h
      cases h
      simp [source, Host.taken, hfs, hq, Ret.of]
    | cons c cs =>
      simp only [hq] at h
      obtain ⟨⟨c', ck⟩, hc, h⟩ := bind_ok.1 h
      obtain ⟨hx, hck⟩ := Host.sock_ok.1 hc
      obtain rfl := Option.some.inj hx
      obtain ⟨_, _, h⟩ := bind_ok.1 h
      obtain ⟨_, _, h⟩ := bind_ok.1 h
      cases h
      have htaken : w.taken fdId = some c := by simp [Host.taken, hfs, not_not.1 ht, hdev, hq]
      simp only [source, htaken, Option.bind_some, hck, Option.map_some]
      rfl

/-! ## Runs -/

/-- the variable is what it was at first, or the size of an address -/
def Kept (len : ℕ) (t : Caller) : Prop :=
  t.returns = true → if t.copies = [] then t.len = len else t.len = sizeofSockAddrInet

/-- one call of the caller, whichever it is -/
theorem finish_step {cap : ℕ} {t : Caller} {src : Option SockAddrInet} {x : Except Fault (Ret × Host)} (hlen : len ≤ cap)
    (ht : t.returns = true) (hk : Kept len t)
    (haddr : ∀ r w', x = .ok (r, w') → r.addr = src.map fun a => (copyAddr t.host a t.len, sizeofSockAddrInet)) :
    Kept len (finish t src x) ∧ (InBounds cap (finish t src x) ↔ InBounds cap t ∧
      (src ≠ none → if t.copies = [] then len ≤ sizeofSockAddrInet else sizeofSockAddrInet ≤ cap)) := by
  have hcopies : (finish t src x).copies = t.copies ++ (src.map fun _ => t.len).toList := by cases x <;> rfl
  have hk := hk ht
  constructor
  · intro hret
    cases x with
    | error e => cases hret
    | ok p =>
      obtain ⟨r, w⟩ := p
      have hr := haddr r w rfl
      cases src with
      | none =>
        have hsame : (finish t none (.ok (r, w))).copies = t.copies := by rw [hcopies]; exact List.append_nil _
        rw [hsame, finish, hr]
        exact hk
      | some a =>
        have hmore : (finish t (some a) (.ok (r, w))).copies ≠ [] := by rw [hcopies]; simp
        rw [if_neg hmore, finish, hr]
        rfl
  · cases src with
    | none => simp [InBounds, hcopies]
    | some a =>
      have hnew : InBounds cap (finish t (some a) x) ↔ InBounds cap t ∧ t.len ≤ cap ∧ t.len ≤ sizeofSockAddrInet := by
        simp only [InBounds, hcopies, Option.map_some, Option.toList_some, List.mem_append, List.mem_singleton, or_imp,
          forall_and, forall_eq]
        constructor
        · rintro ⟨h1, h2⟩
          exact ⟨⟨h1.1, h2.1⟩, h1.2, h2.2⟩
        · rintro ⟨h1, h2⟩
          exact ⟨⟨h1.1, h2.1⟩, h1.2, h2.2⟩
      rw [hnew]
      split_ifs at hk ⊢ with hfirst
      · simp [hk, hlen]
      · simp [hk]

/-- **a copy stays in bounds exactly when the condition holds before the call** -/
theorem copy_step {cap : ℕ} (hlen : len ≤ cap) (t : Caller) (a : Act) (t' : Caller) (hk : Kept len t)
    (hs : copyStep t a = some t') : Kept len t' ∧ (InBounds cap t' ↔ InBounds cap t ∧ Sized len cap t a) := by
  cases ht : t.returns with
  | false =>
    simp [copyStep, ht] at hs
  | true =>
    simp only [copyStep, ht, Bool.not_true, Bool.false_eq_true, if_false] at hs
    cases a with
    | recvfrom fdId n =>
      obtain rfl := Option.some.inj hs
      exact finish_step hlen ht hk fun r w' h => recvfrom_addr h
    | accept fdId =>
      obtain rfl := Option.some.inj hs
      exact finish_step hlen ht hk fun r w' h => accept_addr h
    | other op =>
      obtain ⟨w, _, rfl⟩ := Option.map_eq_some_iff.1 hs
      refine ⟨fun _ => hk ht, ?_⟩
      have hno : Sized len cap t (.other op) := fun h => absurd rfl h
      exact (and_iff_left hno).symm

/-- **the copies of a run stay in bounds if and only if each meets the condition** -/
theorem copy_out {cap : ℕ} {as : List Act} {t : Caller} (hlen : len ≤ cap) (hr : run copyStep (begin w len) as = some t) :
    InBounds cap t ↔ Guarded copyStep (Sized len cap) (begin w len) as := by
  have hk : Kept len (begin w len) := fun _ => rfl
  have hnone : InBounds cap (begin w len) := fun n hn => by cases hn
  rw [iff_run (I := Kept len) (copy_step hlen) hk hr]
  exact and_iff_right hnone

/-- two datagrams arrive, one after the other, and each is read -/
def twoReads : List Act :=
  [.other (.evRecv 0 [1] samplePeer), .recvfrom 1 16, .other (.evRecv 0 [2] samplePeer), .recvfrom 1 16]

theorem copy_out_sample : ∃ t, run copyStep (begin (sampleConn .dgram) 12) twoReads = some t ∧ t.copies = [12, 12] ∧
    InBounds 16 t := by
  have hr : (run copyStep (begin (sampleConn .dgram) 12) twoReads).map Caller.copies = some [12, 12] := by decide +kernel
  obtain ⟨t, ht, hc⟩ := Option.map_eq_some_iff.1 hr
  exact ⟨t, ht, hc, (copy_out (by decide) ht).2 (by decide +kernel)⟩

/-- the second of two reads copies 12 bytes into a buffer of 4, and a variable of 20 reads 20 bytes of an address -/
theorem copy_out_fails :
    (∃ t, run copyStep (begin (sampleConn .dgram) 4) twoReads = some t ∧ t.copies = [4, 12] ∧ ¬ InBounds 4 t) ∧
      (∃ t, run copyStep (begin (sampleConn .dgram) 20) (twoReads.take 2) = some t ∧ t.copies = [20] ∧ ¬ InBounds 20 t) ∧
      ¬ ∀ (w : Host) (cap len : ℕ) (as : List Act) (t : Caller), Reach w → len ≤ cap →
        run copyStep (begin w len) as = some t → InBounds cap t := by
  have h4 : (run copyStep (begin (sampleConn .dgram) 4) twoReads).map Caller.copies = some [4, 12] := by decide +kernel
  have h20 : (run copyStep (begin (sampleConn .dgram) 20) (twoReads.take 2)).map Caller.copies = some [20] := by
    decide +kernel
  obtain ⟨t4, ht4, hc4⟩ := Option.map_eq_some_iff.1 h4
  obtain ⟨t20, ht20, hc20⟩ := Option.map_eq_some_iff.1 h20
  have hbad4 : ¬ InBounds 4 t4 := fun h => absurd (h 12 (by simp [hc4])).1 (by decide)
  have hbad20 : ¬ InBounds 20 t20 := fun h => absurd (h 20 (by simp [hc20])).2 (by decide)
  refine ⟨⟨t4, ht4, hc4, hbad4⟩, ⟨t20, ht20, hc20, hbad20⟩, ?_⟩
  intro h
  exact hbad4 (h _ 4 4 _ t4 (sampleConn_reach .dgram) le_rfl ht4)

end EspHostdriver.CopyOut
