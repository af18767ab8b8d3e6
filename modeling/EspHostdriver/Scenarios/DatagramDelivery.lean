/-
Delivery on a datagram socket: datagrams that arrive on its link and reads on its descriptor, in any order.

What the socket should be is a mailbox: a read takes from the oldest datagram that is not fully read, going on where the
last read stopped, and names its sender. `mailStep` is that machine; it logs what each read returns, and so does the
machine of the host (`dgramStep`).

`recv` of the driver sets every field of a new datagram except the read index, and it copies the payload to where no room
for it was asked for, 32 bytes behind. `Clean` says that the block `malloc` hands out holds 0 in the word of the index,
and that the payload is empty or the block goes on so far.

- `dgram_refines`: while that is so, every step of the host is a step of the mailbox, with the same log.
- `datagram_delivery`: then every run completes, every read returns what the mailbox returns, and over the run the bytes
  returned and the bytes left are the payloads, in order.
- `datagram_delivery_fails`: with another value in that word, bytes are skipped; in a block that ends sooner, a payload
  of one byte is stored in memory of somebody else.
-/
import EspHostdriver.Net.System

namespace EspHostdriver.DatagramDelivery

open Machine Fifo

/-! ## Model -/

structure DgramRun where
  host : Host
  log : List Ret

inductive DgramAct where
  | recv (data : Bytes) (remote : SockAddrInet)
  | read (n : ℕ) (want : Option ℕ)

/-- an object in memory has at most `PTRDIFF_MAX` bytes -/
def dgramStep (l : Fin 5) (fdId : ℤ) (t : DgramRun) : DgramAct → Option DgramRun
  | .recv data remote =>
    if data.length < 2 ^ 63 then
      match espRecv t.host (l : ℕ) data remote with
      | .error _ => none
      | .ok w => some { t with host := w }
    else none
  | .read n want =>
    match bosRecvfrom t.host fdId n want with
    | .error _ => none
    | .ok (r, w) => some ⟨w, t.log ++ [r]⟩

/-- the payload is an object in memory, `malloc` has a block for its datagram, the index word of that is 0, and the
payload is empty or the block goes on for it -/
def Clean (w : Host) : DgramAct → Prop
  | .recv data _ => data.length < 2 ^ 63 ∧ w.fs.heap.ok w.fs.heap.next = true ∧ (w.junk w.fs.heap.next).idx = 0 ∧
      (data ≠ [] → payloadBehind ≤ (w.junk w.fs.heap.next).spare)
  | .read _ _ => True

instance decidableClean (w : Host) : ∀ a, Decidable (Clean w a)
  | .recv _ _ => inferInstanceAs (Decidable (_ ∧ _ ∧ _ ∧ (_ → _)))
  | .read _ _ => isTrue trivial

/-! ## The mailbox -/

structure Mail where
  box : Mailbox UInt8 SockAddrInet
  log : List Ret

/-- a read returns a piece of the oldest message; a caller that asks for it gets its sender -/
def mailStep (m : Mail) : DgramAct → Option Mail
  | .recv data remote => some { m with box := m.box ++ [(data, remote)] }
  | .read n want =>
    let r := m.box.readHead n
    some ⟨r.2.2, m.log ++ [⟨r.1.length, r.1, r.2.1.bind fun a => want.map fun k => (a.bytes.take k, 12)⟩]⟩

/-- the bytes the reads returned -/
def returned (log : List Ret) : Bytes := log.flatMap Ret.data

def payloads (as : List DgramAct) : Bytes := as.flatMap fun
  | .recv data _ => data
  | .read _ _ => []

/-- nothing is lost, repeated or invented by the mailbox -/
theorem mail_run_bytes {m m' : Mail} {as : List DgramAct} (h : run mailStep m as = some m') :
    returned m'.log ++ m'.box.bytes = returned m.log ++ m.box.bytes ++ payloads as := by
  induction as generalizing m with
  | nil => cases h; simp [payloads]
  | cons a as ih =>
    obtain ⟨m1, hm, hr⟩ := run_cons_some.1 h
    rw [ih hr]
    cases a with
    | recv data remote =>
      cases hm
      simp [Mailbox.bytes_append, payloads]
    | read n want =>
      obtain rfl := Option.some.inj hm
      have := Mailbox.readHead_bytes m.box n
      simp only [returned, payloads, List.flatMap_append, List.flatMap_cons, List.flatMap_nil, List.append_nil,
        List.nil_append, ← this, List.append_assoc]

/-! ## The socket as a mailbox -/

/-- the read index of a datagram is inside it -/
structure Good (d : Datagram) : Prop where
  idx : d.idx ≤ d.len
  len : d.len = d.data.length
  bound : d.len < 2 ^ 63

/-- what is left of each datagram, and its sender -/
def boxOf (ds : List Datagram) : Mailbox UInt8 SockAddrInet := ds.map fun d => (d.data.drop d.idx, d.addr)

/-- one read of a good datagram takes from its front -/
theorem Good.read {d : Datagram} (h : Good d) (n : ℕ) :
    readDgram d n = .ok ((d.data.drop d.idx).take n, d.idx + min n (d.len - d.idx)) := by
  have hi := h.idx; have hl := h.len; have hb := h.bound
  have hleft : sizeT ((d.len : ℤ) - d.idx) = d.len - d.idx := by simp only [sizeT]; omega
  have hnext : sizeT ((d.idx + min n (d.len - d.idx) : ℕ) : ℤ) = d.idx + min n (d.len - d.idx) :=
    sizeT_of_lt (by omega)
  have hin : d.idx + min n (d.len - d.idx) ≤ d.data.length := by omega
  have htake : (d.data.drop d.idx).take (min n (d.len - d.idx)) = (d.data.drop d.idx).take n := by
    rw [hl, ← List.length_drop, List.take_eq_take_min]
    simp
  simp only [readDgram, hleft, hin, if_true, htake]
  exact congrArg _ (Prod.ext rfl hnext)

/-- reading the oldest datagram of the socket is reading the mailbox -/
theorem Good.readHead {d : Datagram} (h : Good d) (ds : List Datagram) (n : ℕ) :
    boxOf (if d.idx + min n (d.len - d.idx) = d.len then ds
      else { d with idx := d.idx + min n (d.len - d.idx) } :: ds) = ((boxOf (d :: ds)).readHead n).2.2 := by
  have hi := h.idx; have hl := h.len
  have hdone : d.idx + min n (d.len - d.idx) = d.len ↔ (d.data.drop d.idx).drop n = [] := by
    rw [List.drop_eq_nil_iff, List.length_drop]; omega
  simp only [Mailbox.readHead, boxOf, List.map_cons]
  by_cases hd : (d.data.drop d.idx).drop n = []
  · rw [if_pos (hdone.2 hd), if_pos hd]
  · have hmin : min n (d.len - d.idx) = n := by
      rw [List.drop_eq_nil_iff, List.length_drop] at hd; omega
    rw [if_neg (mt hdone.1 hd), if_neg hd, List.map_cons, hmin, List.drop_drop]

/-- one read of a datagram socket is one of the mailbox -/
theorem read_mail {w w' : Host} {fdId : ℤ} {s : Addr} {k : Socket} {n : ℕ} {want : Option ℕ} {r : Ret} {m : Mail}
    (hfd : w.fdSock fdId = some (s, k)) (ht : k.type = .dgram) (hg : ∀ d ∈ k.dgrams, Good d)
    (hb : boxOf k.dgrams = m.box) (hr : bosRecvfrom w fdId n want = .ok (r, w')) : ∃ k' m', w'.esp = w.esp ∧
      w'.fdSock fdId = some (s, k') ∧ k'.type = .dgram ∧ (∀ d ∈ k'.dgrams, Good d) ∧
      mailStep m (.read n want) = some m' ∧ m'.log = m.log ++ [r.known] ∧ boxOf k'.dgrams = m'.box := by
  rw [bosRecvfrom_dgram hfd ht] at hr
  cases hd : k.dgrams with
  | nil =>
    rw [hd] at hr hb
    cases hr
    exact ⟨k, _, rfl, hfd, ht, hg, rfl, by simp [← hb, boxOf, Mailbox.readHead, Ret.of, Ret.known],
      by simp [← hb, hd, boxOf, Mailbox.readHead]⟩
  | cons d ds =>
    rw [hd] at hr hb hg
    have hgd : Good d := hg d List.mem_cons_self
    simp only [hgd.read] at hr
    obtain ⟨⟨b, idx⟩, hrd, hr⟩ := bind_ok.1 hr
    obtain ⟨rfl, rfl⟩ := ok_pair.1 hrd
    obtain ⟨rfl, rfl⟩ := ok_pair.1 hr
    refine ⟨_, _, rfl, fdSock_setSock _ hfd rfl rfl, ht, fun d' hd' => ?_, rfl, ?_, ?_⟩
    · -- what is left of the datagram keeps its length
      simp only at hd'
      split_ifs at hd'
      · exact hg d' (List.mem_cons_of_mem d hd')
      · rcases List.mem_cons.1 hd' with rfl | hd'
        · exact ⟨by have := hgd.idx; simp only; omega, hgd.len, hgd.bound⟩
        · exact hg d' (List.mem_cons_of_mem d hd')
    · have hlen : ((d.data.drop d.idx).take n).length < 2 ^ 63 := by
        have := hgd.len; have := hgd.bound
        rw [List.length_take, List.length_drop]; omega
      rw [Ret.known, toInt64_of_lt hlen, giveAddr_known, ← hb]
      rfl
    · rw [← hb]
      exact hgd.readHead ds n

structure Rel (fdId : ℤ) (l : Fin 5) (s : Addr) (t : DgramRun) (m : Mail) : Prop where
  log : t.log.map Ret.known = m.log
  link : t.host.esp.links l = some s
  sock : ∃ k, t.host.fdSock fdId = some (s, k) ∧ k.type = .dgram ∧ (∀ d ∈ k.dgrams, Good d) ∧ m.box = boxOf k.dgrams

variable {fdId : ℤ} {l : Fin 5} {s : Addr} {t t' : DgramRun} {m : Mail}

theorem Rel.recv (h : Rel fdId l s t m) {data : Bytes} {remote : SockAddrInet} (hc : Clean t.host (.recv data remote))
    (hs : dgramStep l fdId t (.recv data remote) = some t') :
    Rel fdId l s t' { m with box := m.box ++ [(data, remote)] } := by
  obtain ⟨k, hk, ht, hg, hb⟩ := h.sock
  obtain ⟨hlen, _, hidx, _⟩ := hc
  simp only [dgramStep, hlen, if_true] at hs
  split at hs
  · cases hs
  · rename_i w he
    cases hs
    obtain ⟨i, s', k', hi, hl, hk', hx⟩ := espRecv_ok he
    rw [linkIdx_fin] at hi
    cases hi
    rw [h.link, Option.some.injEq] at hl
    subst hl
    obtain ⟨_, _, _, _, _, hks⟩ := Host.fdSock_some.1 hk
    rw [hks, Option.some.injEq] at hk'
    subst hk'
    rcases hx with ⟨_, rfl⟩ | ⟨hx, _⟩
    · refine ⟨h.log, h.link, _, fdSock_setSock _ hk rfl rfl, ht, fun d hd => ?_, ?_⟩
      · rcases List.mem_append.1 hd with hd | hd
        · exact hg d hd
        · rw [List.mem_singleton.1 hd]
          exact ⟨by simp [hidx], rfl, hlen⟩
      · simp [boxOf, hb, hidx]
    · rw [ht] at hx; cases hx

theorem Rel.read (h : Rel fdId l s t m) {n : ℕ} {want : Option ℕ} (hs : dgramStep l fdId t (.read n want) = some t') :
    ∃ m', mailStep m (.read n want) = some m' ∧ Rel fdId l s t' m' := by
  obtain ⟨k, hk, ht, hg, hb⟩ := h.sock
  simp only [dgramStep] at hs
  split at hs
  · cases hs
  · rename_i r w he
    cases hs
    obtain ⟨k', m', hesp, hk', ht', hg', hm, hlog, hb'⟩ := read_mail hk ht hg hb.symm he
    refine ⟨m', hm, ?_, hesp ▸ h.link, k', hk', ht', hg', hb'.symm⟩
    rw [List.map_append, h.log, hlog]
    rfl

/-- **While the blocks are clean, the socket is a mailbox.** -/
theorem dgram_refines (t : DgramRun) (a : DgramAct) (t' : DgramRun) (m : Mail) (h : Rel fdId l s t m)
    (hc : Clean t.host a) (hs : dgramStep l fdId t a = some t') : ∃ m', mailStep m (id a) = some m' ∧ Rel fdId l s t' m' := by
  cases a with
  | recv data remote => exact ⟨_, rfl, h.recv hc hs⟩
  | read n want => exact h.read hs

/-- an arrival in a clean block and every read of good datagrams complete -/
theorem Rel.completes (h : Rel fdId l s t m) {a : DgramAct} (hc : Clean t.host a) :
    ∃ t', dgramStep l fdId t a = some t' := by
  obtain ⟨k, hk, ht, hg, _⟩ := h.sock
  cases a with
  | recv data remote =>
    obtain ⟨hlen, hok, _, hroom⟩ := hc
    have hfit : ¬ (data ≠ [] ∧ (t.host.junk t.host.fs.heap.next).spare < payloadBehind) := fun hx =>
      absurd (hroom hx.1) (not_le.2 hx.2)
    simp only [dgramStep, hlen, if_true, espRecv, linkIdx_fin, h.link, sock_of_live (sock_of_fdSock hk), ht, Heap.malloc,
      hok, bind, Except.bind, if_neg hfit]
    exact ⟨_, rfl⟩
  | read n want =>
    simp only [dgramStep, bosRecvfrom_dgram hk ht]
    cases hd : k.dgrams with
    | nil => exact ⟨_, rfl⟩
    | cons d ds =>
      simp only [(hg d (by simp [hd])).read, bind, Except.bind]
      exact ⟨_, rfl⟩

/-! ## Delivery -/

theorem returned_known (log : List Ret) : returned (log.map Ret.known) = returned log := by
  rw [returned, List.flatMap_map]
  rfl

/-- **Delivery on a datagram socket.** While the blocks are clean, every run completes and every read returns what the
mailbox returns: a piece of the oldest datagram that is not fully read, from where the last read stopped, and its sender.
Over the run the bytes returned and the bytes left are the payloads, in order. -/
theorem datagram_delivery {w : Host} {k : Socket} {as : List DgramAct} (hs : w.fdSock fdId = some (s, k))
    (ht : k.type = .dgram) (hl : w.esp.links l = some s) (hq : ∀ d ∈ k.dgrams, Good d)
    (hg : Guarded (dgramStep l fdId) (fun t a => Clean t.host a) ⟨w, []⟩ as) :
    ∃ t m, run (dgramStep l fdId) ⟨w, []⟩ as = some t ∧ run mailStep ⟨boxOf k.dgrams, []⟩ as = some m ∧
      t.log.map Ret.known = m.log ∧
      returned t.log ++ m.box.bytes = Mailbox.bytes (boxOf k.dgrams) ++ payloads as := by
  have h0 : Rel fdId l s ⟨w, []⟩ ⟨boxOf k.dgrams, []⟩ := ⟨rfl, hl, k, hs, ht, hq, rfl⟩
  have hstep : ∀ t a, (∃ m, Rel fdId l s t m) → Clean t.host a →
      ∃ t', dgramStep l fdId t a = some t' ∧ ∃ m, Rel fdId l s t' m := by
    rintro t a ⟨m, hR⟩ hc
    obtain ⟨t', ht'⟩ := hR.completes hc
    obtain ⟨m', _, hR'⟩ := dgram_refines t a t' m hR hc ht'
    exact ⟨t', ht', m', hR'⟩
  obtain ⟨t, hr, _⟩ := total_run hstep ⟨_, h0⟩ hg
  obtain ⟨m, hm, hR⟩ := sim_run dgram_refines h0 hg hr
  rw [List.map_id] at hm
  refine ⟨t, m, hr, hm, hR.log, ?_⟩
  rw [← returned_known, hR.log, mail_run_bytes hm]
  rfl

/-- two datagrams, read in three pieces; the first call has room for 20 bytes of an address -/
def sampleActs : List DgramAct :=
  [.recv [1, 2, 3] samplePeer, .read 2 (some 20), .recv [4] samplePeer, .read 9 (some 4), .read 9 none]

theorem datagram_delivery_sample : ∃ t m, run (dgramStep 0 1) ⟨sampleConn .dgram, []⟩ sampleActs = some t ∧
    run mailStep ⟨[], []⟩ sampleActs = some m ∧ t.log.map Ret.known = m.log ∧
    t.log.map Ret.known = [⟨2, [1, 2], some (samplePeer.bytes, 12)⟩, ⟨1, [3], some (samplePeer.bytes.take 4, 12)⟩,
      ⟨1, [4], none⟩] := by
  obtain ⟨t, m, ht, hm, hlog, _⟩ := datagram_delivery (sampleConn_sock .dgram) rfl (sampleConn_link _)
    (fun d hd => by cases hd) (show Guarded (dgramStep 0 1) _ _ sampleActs by decide +kernel)
  refine ⟨t, m, ht, hm, hlog, hlog.trans ?_⟩
  cases hm
  decide

theorem dirtyConn_isSome :
    (sampleRun { blankJunk with idx := 2 } [.socket .afInet .dgram, .connect 1 samplePeer 12]).isSome = true := by
  decide +kernel

/-- the same connection where fresh memory holds a 2 in the index word -/
def dirtyConn : Host := (sampleRun _ _).get dirtyConn_isSome

theorem tightConn_isSome :
    (sampleRun { blankJunk with spare := 15 } [.socket .afInet .dgram, .connect 1 samplePeer 12]).isSome = true := by
  decide +kernel

/-- and where a block goes on for 15 bytes, as one of 57 bytes does that is handed out with 72 -/
def tightConn : Host := (sampleRun _ _).get tightConn_isSome

/-- **Bytes are skipped, or lie outside.** With a 2 in the index word the first two bytes of the first datagram are never
returned. In a block that ends 15 bytes behind, a payload of one byte is not in it. -/
theorem datagram_delivery_fails :
    (¬ ∀ w fdId l s k as t, Reach w → w.fdSock fdId = some (s, k) → k.type = .dgram → w.esp.links l = some s →
      k.dgrams = [] → run (dgramStep l fdId) ⟨w, []⟩ as = some t →
      ∃ m, run mailStep ⟨[], []⟩ as = some m ∧ t.log.map Ret.known = m.log) ∧
    Reach tightConn ∧ (tightConn.fs.heap.ok tightConn.fs.heap.next = true) ∧
      espRecv tightConn 0 [1] samplePeer = .error .overrun := by
  refine ⟨fun h => ?_, sampleRun_reach _, by decide +kernel, ?_⟩
  · obtain ⟨t, ht, hlog⟩ := Option.map_eq_some_iff.1 (show
      (run (dgramStep 0 1) ⟨dirtyConn, []⟩ [.recv [1, 2, 3] samplePeer, .read 9 none]).map DgramRun.log =
        some [⟨1, [3], none⟩] by decide +kernel)
    obtain ⟨m, hm, he⟩ := h dirtyConn 1 0 7 (sampleSock .dgram) _ t (sampleRun_reach _) (by decide +kernel) rfl
      (by decide +kernel) rfl ht
    cases hm
    rw [hlog] at he
    revert he
    decide
  · have hlink : tightConn.esp.links 0 = some 7 := by decide +kernel
    have hk : tightConn.socks 7 = some (sampleSock .dgram) := by decide +kernel
    have hfull : ([1] : Bytes) ≠ [] ∧ (tightConn.junk tightConn.fs.heap.next).spare < payloadBehind := by decide +kernel
    have hok : tightConn.fs.heap.ok tightConn.fs.heap.next = true := by decide +kernel
    have hl : linkIdx 0 = .ok 0 := linkIdx_fin 0
    simp only [espRecv, hl, hlink, sock_of_live hk, sampleSock, Heap.malloc, hok, if_pos hfull, if_true, bind, Except.bind]

end EspHostdriver.DatagramDelivery
