/-
Every socket has its queue to itself, over every run of the host.

The receive buffer of a stream socket and the datagrams of a datagram socket change in two places: `recv` of the driver
adds what came in on the link of the socket, and `bos_recvfrom` on one of its descriptors takes from the front. All other
calls, on any socket, and all other events, on any link, leave them alone. `touch` is what a step is to a socket, and
`Watch` keeps what a socket was given and what reads on it returned.

- `untouched`: every step that does not touch a socket leaves its queue alone.
- `stream_private`: over every run, what was read from a stream socket and what it holds is everything that came in on
  its link, in order, exactly when every payload found room.
- `dgram_private`: over every run, the reads on a datagram socket return what a mailbox returns that is given the same
  datagrams.
-/
import EspHostdriver.Net.Ownership
import EspHostdriver.Scenarios.DatagramDelivery

namespace EspHostdriver.PrivateQueues

open Machine Fifo DatagramDelivery

/-! ## Model -/

/-- what a step is to the socket `s`: a payload on its link, a read on its descriptor, or nothing -/
def touch (w : Host) (s : Addr) : Op → Option DgramAct
  | .evRecv l data remote => if linkSock w l = some s then some (.recv data remote) else none
  | .recvfrom fdId n want => if (w.fdSock fdId).map Prod.fst = some s then some (.read n want) else none
  | _ => none

/-- what a read returns -/
def answer (w : Host) : Op → List Ret
  | .recvfrom fdId n want => ((bosRecvfrom w fdId n want).toOption.map Prod.fst).toList
  | _ => []

/-- the host, what the socket was given and asked for, and what the reads on it returned -/
structure Watch where
  host : Host
  acts : List DgramAct
  log : List Ret

/-- what the reads on the socket return in a step -/
def told (s : Addr) (w : Host) (op : Op) : List Ret := if touch w s op = none then [] else answer w op

def watchStep (s : Addr) (t : Watch) (op : Op) : Option Watch :=
  (step t.host op).map fun w => ⟨w, t.acts ++ (touch t.host s op).toList, t.log ++ told s t.host op⟩

/-- a payload for the socket finds room in its buffer -/
def Fits (s : Addr) (t : Watch) (op : Op) : Prop :=
  ∀ a ∈ touch t.host s op, ∀ k ∈ t.host.socks s,
    match a with
    | .recv data _ => data.length ≤ ringbufLeft k.stream
    | .read _ _ => True

/-- a datagram for the socket gets a clean block -/
def Cleared (s : Addr) (t : Watch) (op : Op) : Prop := ∀ a ∈ touch t.host s op, Clean t.host a

instance decidableFits (s : Addr) (t : Watch) (op : Op) : Decidable (Fits s t op) :=
  have : ∀ a : DgramAct, ∀ k : Socket, Decidable (match a with
      | .recv data _ => data.length ≤ ringbufLeft k.stream
      | .read _ _ => True) := fun a k => by cases a <;> infer_instance
  inferInstanceAs (Decidable (∀ a ∈ touch t.host s op, ∀ k ∈ t.host.socks s, match a with
    | .recv data _ => data.length ≤ ringbufLeft k.stream
    | .read _ _ => True))

instance decidableCleared (s : Addr) (t : Watch) (op : Op) : Decidable (Cleared s t op) :=
  inferInstanceAs (Decidable (∀ a ∈ touch t.host s op, Clean t.host a))

/-! ## Steps that do not touch a socket -/

variable {w w' : Host} {s : Addr} {k : Socket}

/-- the queue of a socket is as before -/
structure SameQueue (k k' : Socket) : Prop where
  type : k'.type = k.type
  stream : k'.stream = k.stream
  dgrams : k'.dgrams = k.dgrams

theorem SameQueue.refl (k : Socket) : SameQueue k k := ⟨rfl, rfl, rfl⟩

theorem SameQueue.trans {k k1 k2 : Socket} (h : SameQueue k k1) (h' : SameQueue k1 k2) : SameQueue k k2 :=
  ⟨h'.type.trans h.type, h'.stream.trans h.stream, h'.dgrams.trans h.dgrams⟩

/-- the socket is still there, with its queue -/
def Keeps (w w' : Host) (s : Addr) : Prop := ∀ k, w.socks s = some k → ∃ k', w'.socks s = some k' ∧ SameQueue k k'

theorem Keeps.trans {w1 : Host} (h : Keeps w w1 s) (h' : Keeps w1 w' s) : Keeps w w' s := by
  intro k hk
  obtain ⟨k1, hk1, hq1⟩ := h k hk
  obtain ⟨k2, hk2, hq2⟩ := h' k1 hk1
  exact ⟨k2, hk2, hq1.trans hq2⟩

theorem Keeps.frame (h : w'.socks = w.socks) : Keeps w w' s := fun k hk => ⟨k, h ▸ hk, SameQueue.refl k⟩

/-- a socket is written with the queue it had -/
theorem keeps_setSock {x : Addr} {kx : Socket} (kx' : Socket) (hx : w.socks x = some kx) (hq : SameQueue kx kx') :
    Keeps w (w.setSock x kx') s := by
  intro k hk
  by_cases hs : s = x
  · subst hs
    obtain rfl := Option.some.inj (hx.symm.trans hk)
    exact ⟨kx', w.setSock_self s kx', hq⟩
  · exact ⟨k, (Table.set_ne _ _ hs).trans hk, SameQueue.refl k⟩

/-- another socket is written -/
theorem keeps_other {x : Addr} (hs : s ≠ x) (kx : Socket) : Keeps w (w.setSock x kx) s :=
  fun k hk => ⟨k, (Table.set_ne _ _ hs).trans hk, SameQueue.refl k⟩

theorem keeps_alloc (hi : w.Inv) {type : SockType} {x : Addr} (ha : netdevSockAlloc w type = .ok (x, w')) :
    Keeps w w' s := by
  intro k hk
  obtain ⟨k', n, rfl, _, _, _, _, _, _, rfl⟩ := netdevSockAlloc_ok ha
  exact ⟨k, (Table.set_ne _ _ (hi.live_lt hk).ne).trans hk, SameQueue.refl k⟩

theorem effect_keeps (hi : w.Inv) {op : Op} (he : Effect w op w') (ht : touch w s op = none) : Keeps w w' s := by
  cases he with
  | same | config | listen | unlisten | unlink => exact Keeps.frame rfl
  | @socket domain type x w1 kx id _ ha hk hop =>
    have hnew := keeps_setSock (s := s) { kx with addr := { kx.addr with domain := domain } } hk ⟨rfl, rfl, rfl⟩
    exact ((keeps_alloc hi ha).trans hnew).trans (Keeps.frame hop.socks)
  | assign _ hs => exact keeps_setSock _ (sock_of_fdSock hs) ⟨rfl, rfl, rfl⟩
  | @connect fdId addr n x kx v l hs =>
    have hset := keeps_setSock (s := s) { kx with dev := some v.self, addr := addr } (sock_of_fdSock hs) ⟨rfl, rfl, rfl⟩
    exact hset.trans (Keeps.frame rfl)
  | @accept fdId want x kx cl cls ck k2 id _ _ _ _ _ hck hk2 hop =>
    have hclient := keeps_setSock (s := s) { ck with dev := kx.dev } hck ⟨rfl, rfl, rfl⟩
    have hserver := keeps_setSock (s := s) { k2 with clients := cls } hk2 ⟨rfl, rfl, rfl⟩
    exact (hclient.trans hserver).trans (Keeps.frame hop.socks)
  | @recvfrom fdId n want x kx _ _ hs =>
    refine keeps_other (fun he => ?_) _
    simp [touch, hs, he] at ht
  | @evRecv l i data remote x kx _ _ m hi' hl hk =>
    refine (Keeps.frame rfl).trans (keeps_other (fun he => ?_) _)
    have hlink : linkSock w l = some s := linkSock_some.2 ⟨i, hi', he ▸ hl⟩
    simp [touch, hlink] at ht
  | @evAccept l i remote t x w1 kx tk _ ha hk _ htk =>
    have hnew := keeps_setSock (s := s) { kx with addr := remote } hk ⟨rfl, rfl, rfl⟩
    have hqueue := keeps_setSock (s := s) { tk with clients := tk.clients ++ [x] } htk ⟨rfl, rfl, rfl⟩
    exact (((keeps_alloc hi ha).trans hnew).trans (Keeps.frame rfl)).trans hqueue
  | evClosed _ hd =>
    obtain ⟨_, _, _, hsocks, _⟩ := disconnect_data hd
    exact Keeps.frame hsocks

/-- **A step that does not touch a socket leaves its queue alone.** -/
theorem untouched (hi : w.Inv) {op : Op} (hs : step w op = some w') (ht : touch w s op = none) : Keeps w w' s := by
  obtain ⟨w1, he, hline⟩ := step_effect hi hs
  refine (effect_keeps hi he ht).trans (Keeps.frame ?_)
  rw [hline]

/-! ## Steps that touch it -/

theorem touch_recv {op : Op} {data : Bytes} {remote : SockAddrInet} (ht : touch w s op = some (.recv data remote)) :
    ∃ l, op = .evRecv l data remote ∧ linkSock w l = some s := by
  cases op <;> simp only [touch, reduceCtorEq] at ht
  · split_ifs at ht
    cases ht
  · rename_i l d a
    split_ifs at ht with hl
    cases ht
    exact ⟨l, rfl, hl⟩

theorem touch_read {op : Op} {n : ℕ} {want : Option ℕ} (ht : touch w s op = some (.read n want)) :
    ∃ fdId k, op = .recvfrom fdId n want ∧ w.fdSock fdId = some (s, k) := by
  cases op <;> simp only [touch, reduceCtorEq] at ht
  · rename_i fdId n' want'
    split_ifs at ht with hl
    cases ht
    obtain ⟨⟨x, k⟩, hfd, rfl⟩ := Option.map_eq_some_iff.1 hl
    exact ⟨fdId, k, rfl, hfd⟩
  · split_ifs at ht
    cases ht

/-- what a payload does to the socket on its link -/
theorem step_recv {op : Op} {data : Bytes} {remote : SockAddrInet} (hs : step w op = some w')
    (ht : touch w s op = some (.recv data remote)) (hk : w.socks s = some k) : ∃ k', w'.socks s = some k' ∧
      (k.type = .dgram ∧
          k' = { k with dgrams := k.dgrams ++ [⟨data.length, (w.junk w.fs.heap.next).idx, data, remote⟩] } ∨
        k.type = .stream ∧ ¬ (0 < (ringbufWrite k.stream data).1 ∧ k.stream.data = []) ∧
          k' = { k with stream := (ringbufWrite k.stream data).2 }) := by
  obtain ⟨l, rfl, hl⟩ := touch_recv ht
  obtain ⟨i, hi, hli⟩ := linkSock_some.1 hl
  obtain ⟨i', x, kx, hi', hlx, hkx, hx⟩ := espRecv_ok (toOption_some hs)
  rw [hi] at hi'
  cases hi'
  obtain rfl := Option.some.inj (hli.symm.trans hlx)
  obtain rfl := Option.some.inj (hk.symm.trans hkx)
  rcases hx with ⟨htype, rfl⟩ | ⟨htype, hstore, rfl⟩
  · exact ⟨_, Table.set_self _ _ _, Or.inl ⟨htype, rfl⟩⟩
  · exact ⟨_, Table.set_self _ _ _, Or.inr ⟨htype, hstore, rfl⟩⟩

/-- a read that completes, and what it returned -/
theorem step_read {op : Op} {n : ℕ} {want : Option ℕ} (hs : step w op = some w')
    (ht : touch w s op = some (.read n want)) (hk : w.socks s = some k) :
    ∃ fdId r, w.fdSock fdId = some (s, k) ∧ bosRecvfrom w fdId n want = .ok (r, w') ∧ answer w op = [r] := by
  obtain ⟨fdId, kx, rfl, hfd⟩ := touch_read ht
  obtain rfl := Option.some.inj (hk.symm.trans (sock_of_fdSock hfd))
  obtain ⟨r, hr⟩ := after_some hs
  exact ⟨fdId, r, hfd, hr, by rw [answer, hr]; rfl⟩

/-! ## Stream sockets -/

/-- a payload is stored as far as there is room -/
theorem write_taken {b : Ringbuf} (h : RingOk b) {l : Bytes} (hn : ¬ (0 < (ringbufWrite b l).1 ∧ b.data = [])) :
    (ringbufWrite b l).2.contents = b.contents ++ l.take (ringbufLeft b) := by
  rcases h with h | rfl
  · rw [(ringbufWrite_spec h.1 l).2.2.1, accepted, ringbufLeft_eq h.1]
  · cases l with
    | nil => simp [ringbufWrite]
    | cons c l => exact absurd ⟨Nat.succ_pos _, rfl⟩ hn

/-- what the buffer of a socket holds -/
def held (w : Host) (s : Addr) : Bytes := ((w.socks s).map fun k => k.stream.contents).getD []

theorem held_some (hk : w.socks s = some k) : held w s = k.stream.contents := by rw [held, hk]; rfl

/-- what came in, read or still held; with bytes that found no room, there is more of what came in -/
structure StreamInv (s : Addr) (start : Bytes) (t : Watch) : Prop where
  inv : t.host.Inv
  sock : ∃ k, t.host.socks s = some k ∧ k.type = .stream
  le : (returned t.log ++ held t.host s).length ≤ (start ++ payloads t.acts).length

def Conserved (s : Addr) (start : Bytes) (t : Watch) : Prop :=
  start ++ payloads t.acts = returned t.log ++ held t.host s

theorem payloads_append (as bs : List DgramAct) : payloads (as ++ bs) = payloads as ++ payloads bs := by
  rw [payloads, payloads, payloads, List.flatMap_append]

theorem returned_append (ls ms : List Ret) : returned (ls ++ ms) = returned ls ++ returned ms := by
  rw [returned, returned, returned, List.flatMap_append]

/-- the bytes that come in with a step are stored as far as there is room, and what is read was held -/
theorem stream_moves {start : Bytes} {t : Watch} {op : Op} (h : StreamInv s start t) (hs : step t.host op = some w') :
    (∃ k', w'.socks s = some k' ∧ k'.type = .stream) ∧
    ∃ came m, payloads (touch t.host s op).toList = came ∧ (Fits s t op ↔ came.length ≤ m) ∧
      returned (told s t.host op) ++ held w' s = held t.host s ++ came.take m := by
  obtain ⟨k, hk, htype⟩ := h.sock
  have hring := (h.inv.socks s k hk).ring htype
  cases ht : touch t.host s op with
  | none =>
    obtain ⟨k', hk', hq⟩ := untouched h.inv hs ht k hk
    refine ⟨⟨k', hk', hq.type.trans htype⟩, [], 0, rfl, iff_of_true ?_ le_rfl, ?_⟩
    · intro a ha
      rw [ht] at ha
      cases ha
    · rw [told, if_pos ht, held_some hk, held_some hk', hq.stream]
      exact (List.append_nil _).symm
  | some a =>
    have htold : told s t.host op = answer t.host op := if_neg (by rw [ht]; exact Option.some_ne_none a)
    cases a with
    | read n want =>
      obtain ⟨fdId, r, hfd, hr, ha⟩ := step_read hs ht hk
      rw [bosRecvfrom_stream hfd htype] at hr
      split_ifs at hr
      obtain ⟨rfl, rfl⟩ := ok_pair.1 hr
      have hk' := t.host.setSock_self s { k with stream := (ringbufRead k.stream n).2 }
      obtain ⟨hread, hrest⟩ := hring.read_contents n
      refine ⟨⟨_, hk', htype⟩, [], 0, rfl, iff_of_true ?_ le_rfl, ?_⟩
      · intro a ha
        rw [ht] at ha
        cases ha
        exact fun _ _ => trivial
      · rw [htold, ha, held_some hk, held_some hk', returned, List.flatMap_cons, List.flatMap_nil, List.append_nil,
          hread, hrest, List.take_append_drop, List.take_nil, List.append_nil]
    | recv data remote =>
      obtain ⟨k', hk', ⟨hd, _⟩ | ⟨_, hstore, rfl⟩⟩ := step_recv hs ht hk
      · rw [htype] at hd
        cases hd
      · refine ⟨⟨_, hk', htype⟩, data, ringbufLeft k.stream, List.append_nil _, ?_, ?_⟩
        · constructor
          · exact fun hf => hf _ ht k hk
          · intro hle a ha kx hkx
            rw [ht] at ha
            cases ha
            obtain rfl := Option.some.inj (hk.symm.trans hkx)
            exact hle
        · obtain ⟨l, rfl, _⟩ := touch_recv ht
          rw [htold, held_some hk, held_some hk', write_taken hring hstore]
          rfl

theorem stream_step {start : Bytes} (t : Watch) (op : Op) (t' : Watch) (h : StreamInv s start t)
    (hs : watchStep s t op = some t') :
    StreamInv s start t' ∧ (Conserved s start t' ↔ Conserved s start t ∧ Fits s t op) := by
  obtain ⟨w', hw, rfl⟩ := Option.map_eq_some_iff.1 hs
  obtain ⟨hsock, came, m, hcame, hfits, hheld⟩ := stream_moves h hw
  have hsent : start ++ payloads (t.acts ++ (touch t.host s op).toList) = start ++ payloads t.acts ++ came := by
    rw [payloads_append, hcame, List.append_assoc]
  have hgot : returned (t.log ++ told s t.host op) ++ held w' s =
      returned t.log ++ held t.host s ++ came.take m := by
    rw [returned_append, List.append_assoc, hheld, List.append_assoc]
  constructor
  · refine ⟨step_inv t.host op w' h.inv hw, hsock, ?_⟩
    show (returned (t.log ++ told s t.host op) ++ held w' s).length ≤
      (start ++ payloads (t.acts ++ (touch t.host s op).toList)).length
    rw [hsent, hgot, List.length_append, @List.length_append _ (start ++ payloads t.acts)]
    exact Nat.add_le_add h.le (List.length_take_le' m came)
  · show start ++ payloads (t.acts ++ (touch t.host s op).toList) =
      returned (t.log ++ told s t.host op) ++ held w' s ↔ _
    rw [hsent, hgot, hfits]
    exact append_take_iff h.le

/-- **Every stream socket is a pipe of its own.** In every run of the host, with calls on any descriptors and events of
any links in any order: what came in on the link of a socket is what was read from it and what it holds, in order and
with nothing missing, exactly when every payload found room in its buffer. -/
theorem stream_private (hw : Reach w) (hk : w.socks s = some k) (ht : k.type = .stream) {ops : List Op} {t : Watch}
    (hr : run (watchStep s) ⟨w, [], []⟩ ops = some t) :
    k.stream.contents ++ payloads t.acts = returned t.log ++ held t.host s ↔
      Guarded (watchStep s) (Fits s) ⟨w, [], []⟩ ops := by
  have hheld := held_some hk
  have h0 : StreamInv s k.stream.contents ⟨w, [], []⟩ := ⟨hw.inv, ⟨k, hk, ht⟩, by simp [hheld, returned]⟩
  have hstart : Conserved s k.stream.contents ⟨w, [], []⟩ := by simp [Conserved, hheld, returned, payloads]
  rw [← Conserved, iff_run stream_step h0 hr, and_iff_right hstart]

/-- payloads and reads on two sockets of one type, and the end of the second connection -/
def sampleOps (type : SockType) : List Op :=
  [.evRecv 0 [1, 2, 3] samplePeer, .socket .afInet type, .connect 2 samplePeer 12, .evRecv 1 [9] samplePeer,
    .recvfrom 1 2 none, .recvfrom 2 5 none, .evRecv 0 [4] samplePeer, .evClosed 1, .recvfrom 1 9 none]

theorem stream_private_sample : ∃ t, run (watchStep 7) ⟨sampleConn .stream, [], []⟩ (sampleOps .stream) = some t ∧
    t.log.map Ret.data = [[1, 2], [3, 4]] ∧
    (sampleSock .stream).stream.contents ++ payloads t.acts = returned t.log ++ held t.host 7 := by
  obtain ⟨t, ht, hlog⟩ := Option.map_eq_some_iff.1 (show (run (watchStep 7) ⟨sampleConn .stream, [], []⟩
    (sampleOps .stream)).map (fun t => t.log.map Ret.data) = some [[1, 2], [3, 4]] by decide +kernel)
  have hk := sock_of_fdSock (sampleConn_sock .stream)
  exact ⟨t, ht, hlog, (stream_private (sampleConn_reach _) hk rfl ht).2 (by decide +kernel)⟩

/-! ## Datagram sockets -/

/-- the mailbox that got the same datagrams has returned the same, and holds the datagrams of the socket -/
structure DgramInv (s : Addr) (start : Mail) (t : Watch) : Prop where
  inv : t.host.Inv
  mail : ∃ k m, t.host.socks s = some k ∧ k.type = .dgram ∧ (∀ d ∈ k.dgrams, Good d) ∧
    run mailStep start t.acts = some m ∧ t.log.map Ret.known = m.log ∧ boxOf k.dgrams = m.box

theorem dgram_step {start : Mail} (t : Watch) (op : Op) (t' : Watch) (h : DgramInv s start t) (hc : Cleared s t op)
    (hs : watchStep s t op = some t') : DgramInv s start t' := by
  obtain ⟨w', hw, rfl⟩ := Option.map_eq_some_iff.1 hs
  obtain ⟨k, m, hk, ht, hg, hm, hlog, hbox⟩ := h.mail
  refine ⟨step_inv t.host op w' h.inv hw, ?_⟩
  have hrun : ∀ a m', mailStep m a = some m' → run mailStep start (t.acts ++ [a]) = some m' := by
    intro a m' ha
    rw [run_append, hm]
    exact run_cons_some.2 ⟨m', ha, rfl⟩
  cases htouch : touch t.host s op with
  | none =>
    obtain ⟨k', hk', hq⟩ := untouched h.inv hw htouch k hk
    refine ⟨k', m, hk', hq.type.trans ht, hq.dgrams ▸ hg, ?_, ?_, hq.dgrams ▸ hbox⟩
    · simpa using hm
    · simpa [told, htouch] using hlog
  | some a =>
    have htold : told s t.host op = answer t.host op := if_neg (by rw [htouch]; exact Option.some_ne_none a)
    cases a with
    | read n want =>
      obtain ⟨fdId, r, hfd, hr, ha⟩ := step_read hw htouch hk
      obtain ⟨k', m', _, hk', ht', hg', hm', hlog', hbox'⟩ := read_mail hfd ht hg hbox hr
      refine ⟨k', m', sock_of_fdSock hk', ht', hg', hrun _ _ hm', ?_, hbox'⟩
      show (t.log ++ told s t.host op).map Ret.known = m'.log
      rw [htold, ha, List.map_append, hlog, hlog']
      rfl
    | recv data remote =>
      obtain ⟨hlen, _, hidx, _⟩ := hc _ htouch
      obtain ⟨k', hk', ⟨_, rfl⟩ | ⟨hstream, _⟩⟩ := step_recv hw htouch hk
      · refine ⟨_, ⟨m.box ++ [(data, remote)], m.log⟩, hk', ht, fun d hd => ?_, hrun _ _ rfl, ?_, ?_⟩
        · rcases List.mem_append.1 hd with hd | hd
          · exact hg d hd
          · rw [List.mem_singleton.1 hd]
            exact ⟨by simp [hidx], rfl, hlen⟩
        · obtain ⟨l, rfl, _⟩ := touch_recv htouch
          show (t.log ++ told s t.host _).map Ret.known = m.log
          rw [htold, List.map_append, hlog]
          exact List.append_nil _
        · rw [← hbox]
          simp [boxOf, hidx]
      · rw [ht] at hstream
        cases hstream

/-- **Every datagram socket is a mailbox of its own.** In every run of the host, with calls on any descriptors and
events of any links in any order, and while its datagrams get clean blocks: the reads on a socket return what a mailbox
returns that is given the datagrams of its link, and the socket holds what the mailbox holds. -/
theorem dgram_private (hw : Reach w) (hk : w.socks s = some k) (ht : k.type = .dgram) (hg : ∀ d ∈ k.dgrams, Good d)
    {ops : List Op} {t : Watch} (hc : Guarded (watchStep s) (Cleared s) ⟨w, [], []⟩ ops)
    (hr : run (watchStep s) ⟨w, [], []⟩ ops = some t) : ∃ k' m, t.host.socks s = some k' ∧
      run mailStep ⟨boxOf k.dgrams, []⟩ t.acts = some m ∧ t.log.map Ret.known = m.log ∧ boxOf k'.dgrams = m.box := by
  have h0 : DgramInv s ⟨boxOf k.dgrams, []⟩ ⟨w, [], []⟩ := ⟨hw.inv, k, _, hk, ht, hg, rfl, rfl, rfl⟩
  obtain ⟨k', m, hk', _, _, hm, hlog, hbox⟩ := (guarded_inv_run dgram_step h0 hc hr).mail
  exact ⟨k', m, hk', hm, hlog, hbox⟩

theorem dgram_private_sample : ∃ t m, run (watchStep 7) ⟨sampleConn .dgram, [], []⟩ (sampleOps .dgram) = some t ∧
    run mailStep ⟨boxOf (sampleSock .dgram).dgrams, []⟩ t.acts = some m ∧ t.log.map Ret.known = m.log ∧
    t.log.map Ret.data = [[1, 2], [3]] := by
  obtain ⟨t, ht, hlog⟩ := Option.map_eq_some_iff.1 (show (run (watchStep 7) ⟨sampleConn .dgram, [], []⟩
    (sampleOps .dgram)).map (fun t => t.log.map Ret.data) = some [[1, 2], [3]] by decide +kernel)
  have hk := sock_of_fdSock (sampleConn_sock .dgram)
  have hgood : ∀ d ∈ (sampleSock .dgram).dgrams, Good d := fun d hd => by cases hd
  obtain ⟨_, m, _, hm, he, _⟩ := dgram_private (sampleConn_reach _) hk rfl hgood (by decide +kernel) ht
  exact ⟨t, m, ht, hm, he, hlog⟩

end EspHostdriver.PrivateQueues
