/-
What the descriptors of a connection say once the peer has closed it.

The `closed` handler takes the socket out of `links` and out of the node that has it. A connection that waits to be
accepted has no node yet, so nothing remembers the close: `bos_accept` hands out a descriptor for it all the same, and a
read on that one returns 0 for ever.

- `peer_close`: while no accept takes a client whose connection was closed, every descriptor of a closed connection refuses
  to send, and to receive too; the first accept that takes one gives a descriptor that never reports it.
- `peer_close_fails`: a client that connects, closes and is accepted.
-/
import EspHostdriver.Net.Ownership

namespace EspHostdriver.PeerClose

open Machine

/-! ## Model -/

structure Watched where
  host : Host
  /-- the descriptors handed out so far, each with its socket -/
  names : List (ℤ × Addr)
  /-- the sockets whose `closed` handler has run -/
  gone : List Addr

/-- the descriptors that a step hands out -/
def handedOut (w w' : Host) : List (ℤ × Addr) :=
  (w'.fs.fdLst.drop w.fs.fdLst.length).filterMap fun fd => (w'.nodeData fd.node).map fun s => (fd.id, s)

/-- the socket whose connection the peer closes -/
def hungUp (w : Host) : Op → List Addr
  | .evClosed l =>
    match linkIdx l with
    | .ok i => (w.esp.links i).toList
    | .error _ => []
  | _ => []

def watchStep (t : Watched) (op : Op) : Option Watched :=
  (step t.host op).map fun w => ⟨w, t.names ++ handedOut t.host w, t.gone ++ hungUp t.host op⟩

/-- what a reader of the socket has not got yet -/
def buffered (k : Socket) : Bytes :=
  match k.type with
  | .stream => k.stream.contents
  | .dgram => k.dgrams.flatMap fun d => d.data.drop d.idx

/-- the descriptors of a closed connection fail: every send, and every receive when nothing is buffered -/
def Visible (t : Watched) : Prop :=
  ∀ s ∈ t.gone, ∀ id, (id, s) ∈ t.names →
    (∀ mem n, ∃ r w', bosSend t.host id mem n = .ok (r, w') ∧ r < 0) ∧
    ((∀ k, t.host.socks s = some k → buffered k = []) → ∀ n, ∃ r w', bosRecv t.host id n = .ok (r, w') ∧ r.val < 0)

/-- the client that a step takes off its server's list -/
def takes (w : Host) : Op → Option Addr
  | .accept fdId _ => w.taken fdId
  | _ => none

/-- no accept takes a client whose connection was closed -/
def Open (t : Watched) (op : Op) : Prop := ∀ s ∈ takes t.host op, s ∉ t.gone

instance decidableOpen (t : Watched) (op : Op) : Decidable (Open t op) :=
  inferInstanceAs (Decidable (∀ s ∈ takes t.host op, s ∉ t.gone))

/-! ## Sockets over a step -/

variable {w w' : Host}

theorem kept_setSock {s x : Addr} {k kx : Socket} (k' : Socket) (hk : w.socks s = some k) (ht : k'.type = k.type)
    (hx : w.socks x = some kx) : ∃ kx', (w.setSock s k').socks x = some kx' ∧ kx'.type = kx.type := by
  by_cases he : x = s
  · subst he
    obtain rfl := Option.some.inj (hk.symm.trans hx)
    exact ⟨k', w.setSock_self x k', ht⟩
  · exact ⟨kx, (Table.set_ne _ _ he).trans hx, rfl⟩

theorem kept_alloc (hi : w.Inv) {type : SockType} {s x : Addr} {kx : Socket}
    (ha : netdevSockAlloc w type = .ok (s, w')) (hx : w.socks x = some kx) : w'.socks x = some kx := by
  obtain ⟨k, n, rfl, _, _, _, _, _, _, rfl⟩ := netdevSockAlloc_ok ha
  exact (Table.set_ne _ _ (hi.live_lt hx).ne).trans hx

/-- a socket stays one of its type -/
theorem kept_effect (hi : w.Inv) {op : Op} (he : Effect w op w') {x : Addr} {kx : Socket} (hx : w.socks x = some kx) :
    ∃ kx', w'.socks x = some kx' ∧ kx'.type = kx.type := by
  cases he with
  | same | config | listen | unlisten | unlink => exact ⟨kx, hx, rfl⟩
  | socket ha hk hop =>
    rw [hop.socks]
    exact kept_setSock _ hk rfl (kept_alloc hi ha hx)
  | assign _ hs => exact kept_setSock _ (sock_of_fdSock hs) rfl hx
  | connect hs => exact kept_setSock _ (sock_of_fdSock hs) rfl hx
  | @accept fdId want s k cl cls ck k2 id _ hs _ _ _ hck hk2 hop =>
    rw [hop.socks]
    obtain ⟨k1, h1, ht1⟩ := kept_setSock { ck with dev := k.dev } hck rfl hx
    obtain ⟨k3, h3, ht3⟩ := kept_setSock { k2 with clients := cls } hk2 rfl h1
    exact ⟨k3, h3, ht3.trans ht1⟩
  | recvfrom hs => exact kept_setSock _ (sock_of_fdSock hs) rfl hx
  | evRecv _ _ hk => exact kept_setSock _ hk rfl hx
  | @evAccept l i remote t s w1 k tk _ ha hk _ htk =>
    obtain ⟨k1, h1, ht1⟩ := kept_setSock { k with addr := remote } hk rfl (kept_alloc hi ha hx)
    obtain ⟨k2, h2, ht2⟩ := kept_setSock { tk with clients := tk.clients ++ [s] } htk rfl h1
    exact ⟨k2, h2, ht2.trans ht1⟩
  | evClosed _ hd =>
    obtain ⟨_, _, _, hsocks, _⟩ := disconnect_data hd
    exact ⟨kx, by rw [hsocks]; exact hx, rfl⟩

theorem waits_alloc {type : SockType} {s x : Addr} (ha : netdevSockAlloc w type = .ok (s, w')) (hi : w.Inv)
    (hx : Waits w' x) : Waits w x := by
  obtain ⟨k, n, rfl, _, _, _, hc, _, _, rfl⟩ := netdevSockAlloc_ok ha
  refine (waits_setSock (w := w.withHeap _) ?_ x).1 hx
  simp [Host.clientsOf, Host.withHeap, (hi.fs.fresh _ le_rfl).2, hc]

/-- what waits has waited before, or is a fresh stream socket -/
theorem waits_effect (hi : w.Inv) {op : Op} (he : Effect w op w') {x : Addr} (hx : Waits w' x) :
    Waits w x ∨ w.socks x = none ∧ ∃ k, w'.socks x = some k ∧ k.type = .stream := by
  have keep : ∀ {v : Host} {s : Addr} {k k' : Socket}, Waits (v.setSock s k') x → v.socks s = some k →
      k'.clients = k.clients → Waits v x := fun h hk hc => (waits_setSock (hc.trans (clientsOf_some hk).symm) x).1 h
  have frame : ∀ {v v' : Host}, Waits v' x → v'.socks = v.socks → Waits v x := by
    intro v v' h hs
    simpa only [Waits, Host.clientsOf, hs] using h
  cases he with
  | same | config | listen | unlisten | unlink => exact Or.inl hx
  | @socket domain type s w1 k id _ ha hk hop =>
    have h1 : Waits (w1.setSock s { k with addr := { k.addr with domain := domain } }) x := frame hx hop.socks
    exact Or.inl (waits_alloc ha hi (keep h1 hk rfl))
  | assign _ hs => exact Or.inl (keep hx (sock_of_fdSock hs) rfl)
  | @connect fdId addr n s k v l hs =>
    have h1 : Waits (w.setSock s { k with dev := some v.self, addr := addr }) x := frame hx rfl
    exact Or.inl (keep h1 (sock_of_fdSock hs) rfl)
  | @accept fdId want s k cl cls ck k2 id _ hs _ _ hcl hck hk2 hop =>
    obtain ⟨t, ht⟩ := frame hx hop.socks
    left
    rw [clientsOf_setSock] at ht
    split_ifs at ht with hts
    · -- what is left of the server's list
      refine ⟨s, ?_⟩
      rw [clientsOf_some (sock_of_fdSock hs), hcl]
      exact List.mem_cons_of_mem _ ht
    · have h1 : Waits (w.setSock cl { ck with dev := k.dev }) x := ⟨t, ht⟩
      exact keep h1 hck rfl
  | recvfrom hs => exact Or.inl (keep hx (sock_of_fdSock hs) rfl)
  | evRecv _ _ hk => exact Or.inl (frame (keep hx hk rfl) rfl)
  | @evAccept l i remote t s w1 k tk hsrv ha hk _ htk =>
    obtain ⟨u, hu⟩ := hx
    rw [clientsOf_setSock] at hu
    have hold : ∀ u, x ∈ (w1.setSock s { k with addr := remote }).clientsOf u → Waits w x := by
      intro u hu
      have h1 : Waits (w1.setSock s { k with addr := remote }) x := ⟨u, hu⟩
      exact waits_alloc ha hi (keep h1 hk rfl)
    split_ifs at hu with hut
    · rcases List.mem_append.1 hu with hu | hu
      · exact Or.inl (hold t (by rwa [clientsOf_some htk]))
      · -- the socket that was just made
        obtain rfl := List.mem_singleton.1 hu
        right
        obtain ⟨k0, n, rfl, _, htype, _, _, _, _, rfl⟩ := netdevSockAlloc_ok ha
        obtain rfl := Option.some.inj ((Table.set_self _ _ _).symm.trans hk)
        obtain ⟨k2, hk2, ht2⟩ := kept_setSock { tk with clients := tk.clients ++ [w.fs.heap.next] } htk rfl
          (Host.setSock_self _ w.fs.heap.next { k0 with addr := remote })
        exact ⟨(hi.fs.fresh _ le_rfl).2, k2, hk2, ht2.trans htype⟩
    · exact Or.inl (hold u hu)
  | evClosed _ hd =>
    obtain ⟨_, _, _, hsocks, _⟩ := disconnect_data hd
    exact Or.inl (frame hx hsocks)

/-! ## The invariant -/

structure Sound (t : Watched) : Prop where
  inv : t.host.Inv
  owned : Owned t.host
  named : ∀ id s, (id, s) ∈ t.names → ∃ fd, fsFdAcquire t.host.fs id = some fd ∧
    (t.host.nodeData fd.node = some s ∨ t.host.nodeData fd.node = none)
  free : ∀ s ∈ t.gone, ∀ c, ¬ Holds t.host c s
  live : ∀ s ∈ t.gone, Live t.host.socks s
  streams : ∀ s k, Waits t.host s → t.host.socks s = some k → k.type = .stream

/-- a descriptor that is handed out is found, and its node has the socket -/
theorem handedOut_acquire {op : Op} (h : NodeChange w op w') {id : ℤ} {s : Addr} (hm : (id, s) ∈ handedOut w w') :
    ∃ fd, fsFdAcquire w'.fs id = some fd ∧ w'.nodeData fd.node = some s := by
  obtain ⟨fd, hfd, hs⟩ := List.mem_filterMap.1 hm
  obtain ⟨x, hx, he⟩ := Option.map_eq_some_iff.1 hs
  obtain ⟨rfl, rfl⟩ := Prod.mk.inj he
  refine ⟨fd, ?_, hx⟩
  cases h with
  | same _ _ hf =>
    rw [hf, List.drop_length] at hfd
    cases hfd
  | closed _ _ hd hf =>
    rw [(disconnect_data hd).1, hf, List.drop_length] at hfd
    cases hfd
  | opened hi hop _ hf =>
    obtain ⟨fd', hlst, hid, _, hacq⟩ := hop.acquire_new hi
    rw [hlst, hf, List.drop_left, List.mem_singleton] at hfd
    subst hfd
    rw [hid]
    exact hacq

/-- the socket that is hung up is out of its node -/
theorem hungUp_free {op : Op} (ho : Owned w) (hs : step w op = some w') {s : Addr} (hm : s ∈ hungUp w op) (c : Addr) :
    ¬ Holds w' c s := by
  cases op with
  | evClosed l =>
    obtain ⟨i, hi, hd⟩ := espClosed_ok (toOption_some hs)
    simp only [hungUp, hi, Option.mem_toList] at hm
    rw [hm] at hd
    have ho' : Owned { w with esp := w.esp.setLink i none } := ho.frame rfl rfl rfl
    exact disconnect_free ho' hd c
  | _ => cases hm

theorem hungUp_live {op : Op} (hi : w.Inv) {s : Addr} (hm : s ∈ hungUp w op) : Live w.socks s := by
  cases op with
  | evClosed l =>
    simp only [hungUp] at hm
    split at hm
    · rw [Option.mem_toList] at hm
      exact hi.esp.links _ s hm
    · cases hm
  | _ => cases hm

theorem step_sound (t : Watched) (op : Op) (t' : Watched) (h : Sound t) (hg : Open t op)
    (hs : watchStep t op = some t') : Sound t' := by
  obtain ⟨w', hstep, rfl⟩ := Option.map_eq_some_iff.1 hs
  have hnode := step_nodeChange h.inv hstep
  obtain ⟨w1, he, hl⟩ := step_effect h.inv hstep
  have hsocks : w'.socks = w1.socks := by rw [hl]
  have kept : ∀ {x kx}, t.host.socks x = some kx → ∃ kx', w'.socks x = some kx' ∧ kx'.type = kx.type := fun hx =>
    hsocks ▸ kept_effect h.inv he hx
  have live : ∀ {x}, Live t.host.socks x → Live w'.socks x := fun ⟨_, hx⟩ => (kept hx).imp fun _ hk => hk.1
  refine ⟨step_inv _ _ _ h.inv hstep, step_owned h.inv h.owned hstep, fun id s hm => ?_, fun s hm c hc => ?_,
    fun s hm => ?_, fun s k hw hk => ?_⟩
  · rcases List.mem_append.1 hm with hm | hm
    · obtain ⟨fd, hf, hd⟩ := h.named id s hm
      obtain ⟨hf', hd'⟩ := hnode.acquire h.owned hf
      refine ⟨fd, hf', ?_⟩
      rcases hd' with he' | he'
      · exact hd.imp he'.trans he'.trans
      · exact Or.inr he'
    · obtain ⟨fd, hf, hd⟩ := handedOut_acquire hnode hm
      exact ⟨fd, hf, Or.inl hd⟩
  · rcases List.mem_append.1 hm with hgone | hm
    · rcases hnode.holds hc with hc | hnone | ⟨fdId, want, rfl, htaken⟩
      · exact h.free s hgone c hc
      · obtain ⟨k, hk⟩ := h.live s hgone
        rw [hnone] at hk
        cases hk
      · exact hg s htaken hgone
    · exact hungUp_free h.owned hstep hm c hc
  · rcases List.mem_append.1 hm with hm | hm
    · exact live (h.live s hm)
    · exact live (hungUp_live h.inv hm)
  · have hw1 : Waits w1 s := by simpa only [Waits, Host.clientsOf, hsocks] using hw
    rcases waits_effect h.inv he hw1 with hold | ⟨_, k', hk', ht⟩
    · obtain ⟨kx, hkx⟩ := h.inv.waits_live hold
      obtain ⟨kx', hkx', ht⟩ := kept hkx
      obtain rfl := Option.some.inj (hk.symm.trans hkx')
      exact ht.trans (h.streams s kx hold hkx)
    · rw [← hsocks] at hk'
      obtain rfl := Option.some.inj (hk.symm.trans hk')
      exact ht

theorem sound_booted (h : Booted w) (hi : w.Inv) : Sound ⟨w, [], []⟩ where
  inv := hi
  owned := h.owned
  named id s hm := by cases hm
  free s hm := by cases hm
  live s hm := by cases hm
  streams s k hw hk := by
    rw [h.socks] at hk
    cases hk

/-- a descriptor of a closed connection leads to a node without a socket -/
theorem Sound.visible {t : Watched} (h : Sound t) : Visible t := by
  intro s hs id hm
  obtain ⟨fd, hf, hd⟩ := h.named id s hm
  have hmem := h.owned.fds fd (List.mem_of_find?_eq_some hf)
  obtain ⟨nd, hn, _⟩ := h.inv.fs.fd fd (List.mem_of_find?_eq_some hf)
  have hnone : nd.data = none := by
    rcases hd with hd | hd
    · exact absurd ⟨hmem, hd⟩ (h.free s hs fd.node)
    · simpa [Host.nodeData, hn] using hd
  refine ⟨fun mem n => ⟨-1, t.host, ?_, by decide⟩, fun _ n => ⟨_, t.host, bosRecvfrom_closed hf hn hnone n none, ?_⟩⟩
  · exact bind_ok.2 ⟨none, by rw [hf, Host.fdData_some hn, hnone], rfl⟩
  · decide

/-! ## A client that is gone -/

theorem opened_handedOut {w2 : Host} {name : Bytes} {s : Addr} {id : ℤ} (ho : Opened w2 w' name s id)
    (hf : w2.fs.fdLst = w.fs.fdLst) : (id, s) ∈ handedOut w w' := by
  obtain ⟨fd, hlst, hid, hnode⟩ := ho.fd
  refine List.mem_filterMap.2 ⟨fd, ?_, ?_⟩
  · rw [hlst, hf, List.drop_left]
    exact List.mem_singleton_self fd
  · rw [hnode, ho.nodeData_next, hid]
    rfl

/-- a read empties a stream, and the next one returns 0 -/
theorem recv_drained (hi : w.Inv) {id : ℤ} {s : Addr} {k : Socket} (hs : w.fdSock id = some (s, k))
    (ht : k.type = .stream) : ∃ r w', bosRecvfrom w id 31 none = .ok (r, w') ∧
      (∃ k', w'.socks s = some k' ∧ buffered k' = []) ∧ ∃ w'', bosRecv w' id 1 = .ok (⟨0, [], none⟩, w'') := by
  obtain ⟨fd, nd, hf, hn, hd, hk⟩ := Host.fdSock_some.1 hs
  have hring := (hi.socks s k hk).ring ht
  obtain ⟨r, w', hr⟩ := (bosRecvfrom_iff hi hs 31 none).2 fun hx => by rw [ht] at hx; cases hx
  have hr' := hr
  rw [bosRecvfrom_stream hs ht] at hr'
  split_ifs at hr'
  obtain ⟨_, rfl⟩ := ok_pair.1 hr'
  have hnil : (ringbufRead k.stream 31).2.contents = [] := by
    rw [(hring.read_contents 31).2]
    exact List.drop_eq_nil_of_le hring.length_le
  have hset := w.setSock_self s { k with stream := (ringbufRead k.stream 31).2 }
  have hfs : (w.setSock s { k with stream := (ringbufRead k.stream 31).2 }).fdSock id =
      some (s, { k with stream := (ringbufRead k.stream 31).2 }) := Host.fdSock_some.2 ⟨fd, nd, hf, hn, hd, hset⟩
  have hempty : (ringbufRead (ringbufRead k.stream 31).2 1).1 = [] := by
    rw [((hring.read 31).read_contents 1).1, hnil, List.take_nil]
  have hzero := bosRecvfrom_stream hfs ht 1 none
  simp only [hempty, ne_eq, not_true_eq_false, false_and, if_false, List.length_nil] at hzero
  exact ⟨r, _, hr, ⟨_, hset, by simp only [buffered, ht, hnil]⟩, _, hzero⟩

/-- the descriptor of a client whose connection was closed never reports it -/
theorem step_sharp (t : Watched) (op : Op) (t' : Watched) (h : Sound t) (hs : watchStep t op = some t')
    (hn : ¬ Open t op) : ∃ bs u, run watchStep t' bs = some u ∧ ¬ Visible u := by
  obtain ⟨w', hstep, rfl⟩ := Option.map_eq_some_iff.1 hs
  simp only [Open, not_forall, not_not] at hn
  obtain ⟨cl, htakes, hgone⟩ := hn
  cases op with
  | accept fdId want =>
    obtain ⟨⟨s, k⟩, hfs, htaken⟩ := Option.bind_eq_some_iff.1 (Option.mem_def.1 htakes)
    simp only at htaken
    split_ifs at htaken with hcond
    obtain ⟨r, ha⟩ := after_some hstep
    obtain ⟨s', k', hfs', ⟨hnil, _⟩ | ⟨cl', cls, ck, k2, _, _, hcl, hck, hk2, ho⟩⟩ := bosAccept_opened h.inv ha
    · obtain ⟨rfl, rfl⟩ := Prod.mk.inj (Option.some.inj (hfs.symm.trans hfs'))
      rw [hnil hcond.1 hcond.2] at htaken
      cases htaken
    · obtain ⟨rfl, rfl⟩ := Prod.mk.inj (Option.some.inj (hfs.symm.trans hfs'))
      rw [hcl] at htaken
      cases htaken
      have hi' : w'.Inv := step_inv _ _ _ h.inv hstep
      -- the client is a stream socket, before and after
      have hwait : Waits t.host cl := ⟨s, by simp [clientsOf_some (sock_of_fdSock hfs), hcl]⟩
      obtain ⟨kx, hkx, htype⟩ := kept_effect h.inv (accept_effect h.inv ha) hck
      have hstream := htype.trans (h.streams cl ck hwait hck)
      have hname : (r.val, cl) ∈ handedOut t.host w' := opened_handedOut ho rfl
      obtain ⟨fd, hf, hd⟩ := handedOut_acquire (step_nodeChange h.inv hstep) hname
      obtain ⟨nd, hn, _⟩ := hi'.fs.fd fd (List.mem_of_find?_eq_some hf)
      have hdata : nd.data = some cl := by simpa [Host.nodeData, hn] using hd
      have hfd : w'.fdSock r.val = some (cl, kx) := Host.fdSock_some.2 ⟨fd, nd, hf, hn, hdata, hkx⟩
      obtain ⟨r1, w1, hrecv, ⟨k1, hk1, hempty⟩, w2, hzero⟩ := recv_drained hi' hfd hstream
      have hread : step w' (.recvfrom r.val 31 none) = some w1 := congrArg after hrecv
      refine ⟨[.recvfrom r.val 31 none], _,
        run_cons_some.2 ⟨_, Option.map_eq_some_iff.2 ⟨w1, hread, rfl⟩, rfl⟩, fun hv => ?_⟩
      have hfail := (hv cl (List.mem_append_left _ (List.mem_append_left _ hgone)) r.val
        (List.mem_append_left _ (List.mem_append_right _ hname))).2
      obtain ⟨r2, w3, hr2, hneg⟩ := hfail (fun k hk => by
        obtain rfl := Option.some.inj (hk1.symm.trans hk)
        exact hempty) 1
      rw [hzero] at hr2
      cases hr2
      exact absurd hneg (by decide)
  | _ => cases htakes

/-- **A close is visible on every descriptor as long as no accept takes a client that is gone**, and from the first one
that does, on its descriptor no longer. -/
theorem peer_close {ok : ℕ → Bool} {junk : Addr → Junk} {ans : ℕ → Res} {tty : Bool} {w0 : Host} {ops : List Op}
    {t : Watched} (hb : boot ok junk ans tty = some w0) (hg : Guarded watchStep Open ⟨w0, [], []⟩ ops)
    (hr : run watchStep ⟨w0, [], []⟩ ops = some t) : Exact watchStep Open Visible t :=
  exact_run step_sound (fun _ hi => hi.visible) step_sharp (sound_booted (boot_booted hb) (boot_inv hb)) hg hr

/-- a server with a client that waits -/
def waitingOps : List Op := serverOps ++ [.evAccept 0 samplePeer]

def noneGone (w : Host) : Watched := ⟨w, [], []⟩

theorem peer_close_sample : ∃ w t,
    sampleFrom noneGone watchStep (waitingOps ++ [.accept 1 none, .evClosed 0]) = some (w, t) ∧
    t.names = [(1, 7), (2, 11)] ∧ t.gone = [11] ∧ Exact watchStep Open Visible t := by
  have hr : (sampleFrom noneGone watchStep (waitingOps ++ [.accept 1 none, .evClosed 0])).map (fun p =>
      (p.2.names, p.2.gone,
      decide (Guarded watchStep Open ⟨p.1, [], []⟩ (waitingOps ++ [.accept 1 none, .evClosed 0])))) =
        some ([(1, 7), (2, 11)], [11], true) := by decide +kernel
  obtain ⟨⟨w, t⟩, ht, he⟩ := Option.map_eq_some_iff.1 hr
  obtain ⟨hn, he⟩ := Prod.mk.inj he
  obtain ⟨hgone, hg⟩ := Prod.mk.inj he
  obtain ⟨hb, hrun⟩ := sampleFrom_some ht
  exact ⟨w, t, ht, hn, hgone, peer_close hb (of_decide_eq_true hg) hrun⟩

/-- the client connects, closes and is accepted: with nothing buffered its descriptor 2 reads 0 bytes -/
theorem peer_close_fails : ∃ w t,
    sampleFrom noneGone watchStep (waitingOps ++ [.evClosed 0, .accept 1 none]) = some (w, t) ∧
    (∃ w', bosRecv t.host 2 1 = .ok (⟨0, [], none⟩, w')) ∧ ¬ Visible t := by
  have hr : (sampleFrom noneGone watchStep (waitingOps ++ [.evClosed 0, .accept 1 none])).map (fun p =>
      (p.2.names, p.2.gone,
      (p.2.host.socks 11).map buffered, (bosRecv p.2.host 2 1).toOption.map Prod.fst)) =
        some ([(1, 7), (2, 11)], [11], some [], some ⟨0, [], none⟩) := by decide +kernel
  obtain ⟨⟨w, t⟩, ht, he⟩ := Option.map_eq_some_iff.1 hr
  obtain ⟨hn, he⟩ := Prod.mk.inj he
  obtain ⟨hgone, he⟩ := Prod.mk.inj he
  obtain ⟨hbuf, he⟩ := Prod.mk.inj he
  obtain ⟨⟨r, w'⟩, hrecv, rfl⟩ := Option.map_eq_some_iff.1 he
  have hrecv := toOption_some hrecv
  refine ⟨w, t, ht, ⟨w', hrecv⟩, fun hv => ?_⟩
  simp only at hn hgone hbuf
  obtain ⟨r2, w2, hr2, hneg⟩ := (hv 11 (by simp [hgone]) 2 (by simp [hn])).2
    (fun k hk => by simpa [hk] using hbuf) 1
  rw [hrecv] at hr2
  cases hr2
  exact absurd hneg (by decide)

end EspHostdriver.PeerClose
