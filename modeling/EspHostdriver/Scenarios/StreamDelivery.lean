/-
Delivery on a stream socket: payloads that arrive on its link, the end of the connection, and reads on its descriptor,
in any order.

`StreamRun` is the host together with what went in and what came out: `sent` is every byte delivered to the socket and
not read before the run, `got` every byte `bos_recv` returned, `eof` whether it returned a negative value.

`recv` of the driver does not look at the count `ringbuf_write` returns, so the bytes of a payload that do not fit are
gone; `closed` cuts the node from its socket at once, so the bytes still buffered are gone too. `fits` says that neither
happens.

- `stream_refines`: a run whose steps all fit is a run of a lossless pipe.
- `stream_delivery`: then what was read is a prefix of what was delivered, and everything once the end was reported.
- `stream_delivery_fails`: without `fits` both fail.
-/
import EspHostdriver.Net.System

namespace EspHostdriver.StreamDelivery

open Machine Fifo

/-! ## Model -/

structure StreamRun where
  host : Host
  sent : Bytes
  got : Bytes
  eof : Bool

inductive StreamAct where
  | recv (data : Bytes) (remote : SockAddrInet)
  | closed
  | read (n : ℕ)

def streamStep (l : Fin 5) (fdId : ℤ) (t : StreamRun) : StreamAct → Option StreamRun
  | .recv data remote =>
    match espRecv t.host (l : ℕ) data remote with
    | .error _ => none
    | .ok w => some { t with host := w, sent := t.sent ++ data }
  | .closed =>
    match espClosed t.host (l : ℕ) with
    | .error _ => none
    | .ok w => some { t with host := w }
  | .read n =>
    match bosRecv t.host fdId n with
    | .error _ => none
    | .ok (r, w) => some { t with host := w, got := t.got ++ r.data, eof := t.eof || r.val < 0 }

/-- the run starts with what the socket still holds -/
def StreamRun.start (w : Host) (k : Socket) : StreamRun := ⟨w, k.stream.contents, [], false⟩

/-- the buffer of the socket on a link -/
def linkRing (w : Host) (l : Fin 5) : Option Ringbuf := (w.esp.links l).bind fun s => (w.socks s).map Socket.stream

/-- a payload fits into the free space of the buffer; the connection ends when nothing is buffered -/
def fits (l : Fin 5) (t : StreamRun) : StreamAct → Prop
  | .recv data _ => ∀ b ∈ linkRing t.host l, data.length ≤ ringbufLeft b
  | .closed => ∀ b ∈ linkRing t.host l, ringbufContains b = 0
  | .read _ => True

instance decidableFits (l : Fin 5) (t : StreamRun) : ∀ a, Decidable (fits l t a)
  | .recv data _ => inferInstanceAs (Decidable (∀ b ∈ linkRing t.host l, data.length ≤ ringbufLeft b))
  | .closed => inferInstanceAs (Decidable (∀ b ∈ linkRing t.host l, ringbufContains b = 0))
  | .read _ => isTrue trivial

/-! ## The socket as a pipe -/

def pipeAct : StreamAct → Pipe.Act UInt8
  | .recv data _ => .put data
  | .closed => .skip
  | .read n => .get n

/-- the node is cut from the socket only when the connection is over and nothing is held -/
structure Rel (fdId : ℤ) (l : Fin 5) (s : Addr) (t : StreamRun) (p : Pipe UInt8) : Prop where
  sent : t.sent = p.sent
  got : t.got = p.got
  node : ∃ fd nd, fsFdAcquire t.host.fs fdId = some fd ∧ t.host.fs.nodes fd.node = some nd ∧
    (nd.data = some s ∨ nd.data = none ∧ t.host.esp.links l = none ∧ p.held = [])
  sock : ∃ k, t.host.socks s = some k ∧ k.type = .stream ∧ RingOk k.stream ∧ k.stream.contents = p.held
  link : t.host.esp.links l = some s ∨ t.host.esp.links l = none
  eof : t.eof = true → t.host.esp.links l = none ∧ p.held = []

variable {fdId : ℤ} {l : Fin 5} {s : Addr} {t t' : StreamRun} {p : Pipe UInt8}

theorem linkRing_eq {w : Host} (hl : w.esp.links l = some s) {k : Socket} (hk : w.socks s = some k) :
    linkRing w l = some k.stream := by
  simp [linkRing, hl, hk]

/-- a payload that fits is put into the pipe -/
theorem Rel.recv (h : Rel fdId l s t p) {data : Bytes} {remote : SockAddrInet} (hf : fits l t (.recv data remote))
    (hs : streamStep l fdId t (.recv data remote) = some t') : Rel fdId l s t' (p.put data) := by
  simp only [streamStep] at hs
  split at hs
  · cases hs
  · rename_i w he
    cases hs
    obtain ⟨i, s', k', hi, hl, hk', hx⟩ := espRecv_ok he
    rw [linkIdx_fin] at hi
    cases hi
    obtain ⟨k, hk, ht, hr, hc⟩ := h.sock
    have hss : s' = s := by
      rcases h.link with h1 | h1 <;> rw [h1] at hl <;> cases hl
      rfl
    subst hss
    rw [hk, Option.some.injEq] at hk'
    subst hk'
    rcases hx with ⟨hd, _⟩ | ⟨_, hn, rfl⟩
    · rw [ht] at hd; cases hd
    have hfit := hf k.stream (linkRing_eq hl hk)
    obtain ⟨fd, nd, h1, h2, h3⟩ := h.node
    refine ⟨by simp [Pipe.put, h.sent], h.got, ⟨fd, nd, h1, h2, ?_⟩, ⟨_, Table.set_self _ _ _, ht, hr.write hn, ?_⟩,
      h.link, fun he => ?_⟩
    · rcases h3 with h3 | ⟨_, h3, _⟩
      · exact Or.inl h3
      · rw [h3] at hl; cases hl
    · rw [hr.write_contents hn hfit, hc]; rfl
    · have := (h.eof he).1
      rw [this] at hl; cases hl

/-- the end of a connection with nothing buffered leaves the pipe as it is -/
theorem Rel.closed (h : Rel fdId l s t p) (hf : fits l t .closed) (hs : streamStep l fdId t .closed = some t') :
    Rel fdId l s t' p := by
  simp only [streamStep] at hs
  split at hs
  · cases hs
  · rename_i w he
    cases hs
    obtain ⟨i, hi, hd⟩ := espClosed_ok he
    rw [linkIdx_fin] at hi
    cases hi
    obtain ⟨k, hk, ht, hr, hc⟩ := h.sock
    obtain ⟨fd, nd, h1, h2, h3⟩ := h.node
    have hlink : (t.host.esp.setLink l none).links l = none := by simp [Esp.setLink_apply]
    -- nothing is held when the link was still up
    have hheld : t.host.esp.links l = some s → p.held = [] := by
      intro hl
      rw [← hc]; exact hr.contents_nil (hf k.stream (linkRing_eq hl hk))
    rcases netdevSockDisconnect_ok hd with rfl | ⟨c, cn, hcn, hcd, rfl⟩
    · refine ⟨h.sent, h.got, ⟨fd, nd, h1, h2, ?_⟩, ⟨k, hk, ht, hr, hc⟩, Or.inr hlink, fun he => ⟨hlink, (h.eof he).2⟩⟩
      exact h3.imp id fun h4 => ⟨h4.1, hlink, h4.2.2⟩
    · refine ⟨h.sent, h.got, ⟨fd, if fd.node = c then { cn with data := none } else nd, h1, ?_, ?_⟩,
        ⟨k, hk, ht, hr, hc⟩, Or.inr hlink, fun he => ⟨hlink, (h.eof he).2⟩⟩
      · simp only [Table.set_apply]
        split_ifs
        · rfl
        · exact h2
      · split_ifs with hcf
        · refine Or.inr ⟨rfl, hlink, ?_⟩
          have hcn' : t.host.fs.nodes c = some cn := hcn
          rw [hcf, hcn', Option.some.injEq] at h2
          subst h2
          rcases h3 with h3 | h3
          · rcases h.link with h4 | h4
            · exact hheld h4
            · have hcd' : cn.data = t.host.esp.links l := hcd
              rw [h3, h4] at hcd'; cases hcd'
          · exact h3.2.2
        · exact h3.imp id fun h4 => ⟨h4.1, hlink, h4.2.2⟩

/-- a read takes from the pipe -/
theorem Rel.read (h : Rel fdId l s t p) {n : ℕ} (hs : streamStep l fdId t (.read n) = some t') :
    Rel fdId l s t' (p.get n) := by
  obtain ⟨k, hk, ht, hr, hc⟩ := h.sock
  obtain ⟨fd, nd, h1, h2, h3⟩ := h.node
  rcases h3 with h3 | ⟨h3, h4, h5⟩
  · have hsock : t.host.fdSock fdId = some (s, k) := Host.fdSock_some.2 ⟨fd, nd, h1, h2, h3, hk⟩
    obtain ⟨hb, hrest⟩ := hr.read_contents n
    simp only [streamStep, bosRecv, bosRecvfrom_stream hsock ht] at hs
    split_ifs at hs
    cases hs
    refine ⟨h.sent, ?_, ⟨fd, nd, h1, h2, Or.inl h3⟩, ⟨_, Table.set_self _ _ _, ht, hr.read n, ?_⟩, h.link, fun he => ?_⟩
    · rw [hb, hc, h.got]; rfl
    · rw [hrest, hc]; rfl
    · have hlen : ¬ toInt64 (ringbufRead k.stream n).1.length < 0 := by
        have := hr.length_le
        rw [toInt64_of_lt (by rw [hb, List.length_take]; omega)]
        omega
      simp only [hlen, decide_false, Bool.or_false] at he
      obtain ⟨hl, hp⟩ := h.eof he
      exact ⟨hl, by simp [Pipe.get, hp]⟩
  · simp only [streamStep, bosRecv, bosRecvfrom_closed h1 h2 h3] at hs
    cases hs
    have hget : p.get n = p := by
      cases p
      simp only at h5
      simp [Pipe.get, h5]
    have hgot : t.got ++ [] = p.got := by rw [List.append_nil, h.got]
    rw [hget]
    exact ⟨h.sent, hgot, ⟨fd, nd, h1, h2, Or.inr ⟨h3, h4, h5⟩⟩, ⟨k, hk, ht, hr, hc⟩, h.link,
      fun _ => ⟨h4, h5⟩⟩

/-- **A run whose steps all fit is a run of a pipe.** -/
theorem stream_refines (t : StreamRun) (a : StreamAct) (t' : StreamRun) (p : Pipe UInt8) (h : Rel fdId l s t p)
    (hf : fits l t a) (hs : streamStep l fdId t a = some t') :
    ∃ p', p.step (pipeAct a) = some p' ∧ Rel fdId l s t' p' := by
  cases a with
  | recv data remote => exact ⟨_, rfl, h.recv hf hs⟩
  | closed => exact ⟨_, rfl, h.closed hf hs⟩
  | read n => exact ⟨_, rfl, h.read hs⟩

theorem start_rel {w : Host} {k : Socket} (hw : Reach w) (hs : w.fdSock fdId = some (s, k)) (ht : k.type = .stream)
    (hl : w.esp.links l = some s) :
    Rel fdId l s (StreamRun.start w k) ⟨k.stream.contents, [], k.stream.contents⟩ := by
  obtain ⟨fd, nd, h1, h2, h3, hk⟩ := Host.fdSock_some.1 hs
  exact ⟨rfl, rfl, ⟨fd, nd, h1, h2, Or.inl h3⟩, ⟨k, hk, ht, (hw.inv.socks s k hk).ring ht, rfl⟩, Or.inl hl,
    fun he => Bool.noConfusion he⟩

/-! ## Delivery -/

/-- **Delivery on a stream socket.** While every payload fits and the connection ends with nothing buffered, what was
read is at every moment a prefix of what was delivered, and the end is reported only when everything was read. -/
theorem stream_delivery {w : Host} {k : Socket} {as : List StreamAct} (hw : Reach w)
    (hs : w.fdSock fdId = some (s, k)) (ht : k.type = .stream) (hl : w.esp.links l = some s)
    (hg : Guarded (streamStep l fdId) (fits l) (StreamRun.start w k) as)
    (hr : run (streamStep l fdId) (StreamRun.start w k) as = some t) :
    t.got <+: t.sent ∧ (t.eof = true → t.got = t.sent) := by
  obtain ⟨p, hp, hR⟩ := sim_run stream_refines (start_rel hw hs ht hl) hg hr
  have hless : p.Lossless := Pipe.run_lossless (p := ⟨k.stream.contents, [], k.stream.contents⟩) rfl hp
  rw [hR.got, hR.sent]
  exact ⟨hless.got_prefix, fun he => hless.drained (hR.eof he).2⟩

theorem stream_delivery_sample : ∃ t,
    run (streamStep 0 1) (StreamRun.start (sampleConn .stream) (sampleSock .stream))
      [.recv [1, 2, 3] samplePeer, .read 2, .recv [4] samplePeer, .read 9, .closed, .read 9] = some t ∧
    t.got <+: t.sent ∧ (t.eof = true → t.got = t.sent) := by
  obtain ⟨t, ht⟩ : ∃ t, run (streamStep 0 1) (StreamRun.start (sampleConn .stream) (sampleSock .stream))
      [.recv [1, 2, 3] samplePeer, .read 2, .recv [4] samplePeer, .read 9, .closed, .read 9] = some t :=
    Option.isSome_iff_exists.1 (by decide +kernel)
  exact ⟨t, ht, stream_delivery (sampleConn_reach _) (sampleConn_sock _) rfl (sampleConn_link _) (by decide +kernel) ht⟩

/-- `P` holds at every moment of every run on every stream socket that occupies a link -/
def Always (P : StreamRun → Prop) : Prop :=
  ∀ w fdId l s k as t, Reach w → w.fdSock fdId = some (s, k) → k.type = .stream → w.esp.links l = some s →
    run (streamStep l fdId) (StreamRun.start w k) as = some t → P t

/-- a run on the sample connection that ends with these bytes -/
theorem sample_ends {P : StreamRun → Prop} (hP : Always P) (as : List StreamAct) (sent got : Bytes) (eof : Bool)
    (h : (run (streamStep 0 1) (StreamRun.start (sampleConn .stream) (sampleSock .stream)) as).map
      (fun t => (t.sent, t.got, t.eof)) = some (sent, got, eof)) :
    ∃ t, P t ∧ t.sent = sent ∧ t.got = got ∧ t.eof = eof := by
  obtain ⟨t, ht, he⟩ := Option.map_eq_some_iff.1 h
  simp only [Prod.mk.injEq] at he
  exact ⟨t, hP _ _ _ _ _ _ _ (sampleConn_reach _) (sampleConn_sock _) rfl (sampleConn_link _) ht, he⟩

/-- **Bytes are lost.** The 32nd byte of a payload does not fit and the next payload follows in its place; bytes still
buffered when the connection ends are never returned. -/
theorem stream_delivery_fails :
    ¬ Always (fun t => t.got <+: t.sent) ∧ ¬ Always (fun t => t.eof = true → t.got = t.sent) := by
  refine ⟨fun h => ?_, fun h => ?_⟩
  · obtain ⟨t, hp, hs, hg, _⟩ := sample_ends h
      [.recv (List.replicate 32 65) samplePeer, .read 31, .recv [66] samplePeer, .read 1]
      (List.replicate 32 65 ++ [66]) (List.replicate 31 65 ++ [66]) false (by decide +kernel)
    rw [hs, hg] at hp
    revert hp
    decide
  · obtain ⟨t, hp, hs, hg, he⟩ := sample_ends h [.recv [66] samplePeer, .closed, .read 1] [66] [] true
      (by decide +kernel)
    have := hp he
    rw [hs, hg] at this
    cases this

end EspHostdriver.StreamDelivery
