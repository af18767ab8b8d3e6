/-
A listening socket as a queue: the connections that the `accept` handler reports, and what `bos_accept` makes of them.

The log holds every connection that was reported, with the socket the handler put into `links` for it, and every
descriptor that was handed out, with the address copied to the caller, the socket behind the descriptor and its device.
Reports and calls come in any order.

- `arrive_spec`, `accept_spec`: what one report and one call change.
- `step_sound`: both keep the order, the addresses and the descriptors right.
- `accept_fifo`: while the counter of the descriptors fits an `int`, every run completes, the clients handed out are the
  connections reported, in their order and each once, and a call without a pending connection returns -1 and changes
  nothing.
-/
import EspHostdriver.Core.Fifo
import EspHostdriver.Net.Calls
import EspHostdriver.Net.Ownership

namespace EspHostdriver.AcceptFifo

open Machine
open Fifo (Pipe)

/-! ## Model -/

/-- a connection that was reported -/
structure Conn where
  sock : Option Addr
  remote : SockAddrInet
deriving DecidableEq

/-- a client that was handed out: its descriptor, `*addr_len` before, the address and `*addr_len` after, and the socket
behind the descriptor with its device -/
structure Handed where
  id : ℤ
  want : Option ℕ
  given : Option (Bytes × ℕ)
  behind : Option (Addr × Option Addr)
deriving DecidableEq

structure Log where
  host : Host
  reported : List Conn
  handed : List Handed

inductive Act where
  | arrive (link : Fin 5) (remote : SockAddrInet)
  | accept (want : Option ℕ)

/-- the socket a descriptor leads to, and its device -/
def behind (w : Host) (id : ℤ) : Option (Addr × Option Addr) := (w.fdSock id).map fun p => (p.1, p.2.dev)

def logStep (fdId : ℤ) (t : Log) : Act → Option Log
  | .arrive l remote =>
    (espAccept t.host (l : ℕ) remote).toOption.map fun w => ⟨w, t.reported ++ [⟨w.esp.links l, remote⟩], t.handed⟩
  | .accept want =>
    match bosAccept t.host fdId want with
    | .error _ => none
    | .ok (r, w) =>
      if r.val = -1 then some ⟨w, t.reported, t.handed⟩
      -- the counter that the descriptor got its number from is an `int`
      else if w.fs.fdCnt < 2 ^ 31 then some ⟨w, t.reported, t.handed ++ [⟨r.val, want, r.addr, behind w r.val⟩]⟩
      else none

/-- the descriptor leads to a stream socket with a device, and this is the one that listens -/
structure Serves (w : Host) (fdId : ℤ) (s d : Addr) : Prop where
  fd : ∃ k, w.fdSock fdId = some (s, k) ∧ k.type = .stream ∧ k.dev = some d
  server : w.esp.tcpServer = some s

/-- the log starts with the connections that wait already -/
def opened (w : Host) (s : Addr) : Log :=
  ⟨w, (w.clientsOf s).filterMap fun c => (w.socks c).map fun k => ⟨some c, k.addr⟩, []⟩

/-- `*addr_len` is at most the size of an internet address -/
def Act.Fits : Act → Prop
  | .arrive _ _ => True
  | .accept want => ∀ n ∈ want, n ≤ sizeofSockAddrInet

/-- the client is the connection: its socket and the server's device are behind the descriptor, and its address was
copied as far as asked for -/
structure Matches (d : Addr) (h : Handed) (c : Conn) : Prop where
  sock : ∃ a, c.sock = some a ∧ h.behind = some (a, some d)
  given : h.given = h.want.map fun n => (c.remote.bytes.take n, sizeofSockAddrInet)

/-- the connection waits as the socket `a` -/
structure Waiting (w : Host) (c : Conn) (a : Addr) : Prop where
  sock : c.sock = some a
  remote : ∃ k, w.socks a = some k ∧ k.addr = c.remote

/-- a queue that loses nothing: the reports went in, the clients handed out came out, one by one, and the rest waits -/
structure Fifo (w0 : Host) (s d : Addr) (t : Log) : Prop where
  order : ∃ q : Pipe Conn, q.Lossless ∧ q.sent = t.reported ∧ List.Forall₂ (Matches d) t.handed q.got ∧
    List.Forall₂ (Waiting t.host) q.held (t.host.clientsOf s)
  /-- every number returned before the log began is at most the counter -/
  fresh : ∀ h ∈ t.handed, w0.fs.fdCnt < h.id
  distinct : (t.handed.map Handed.id).Pairwise (· < ·)

/-- exactly the calls without a pending connection return -1, and they change nothing -/
def Idle (fdId : ℤ) (s : Addr) (w : Host) : Prop :=
  (w.clientsOf s = [] → ∀ want, bosAccept w fdId want = .ok (.of (-1), w)) ∧
    ∀ want r w', bosAccept w fdId want = .ok (r, w') → r.val = -1 → w.clientsOf s = []

/-- the run completes as a queue -/
def Queues (w : Host) (fdId : ℤ) (s d : Addr) (as : List Act) : Prop :=
  ∃ t, run (logStep fdId) (opened w s) as = some t ∧ Fifo w s d t ∧ Idle fdId s t.host

/-- there is a number left for the descriptor of a pending connection -/
def Numbered (s : Addr) (t : Log) : Act → Prop
  | .arrive _ _ => True
  | .accept _ => t.host.clientsOf s ≠ [] → t.host.fs.fdCnt + 1 < 2 ^ 31

instance decidableNumbered (s : Addr) (t : Log) : ∀ a, Decidable (Numbered s t a)
  | .arrive _ _ => isTrue trivial
  | .accept _ => inferInstanceAs (Decidable (_ → _))

variable {w w' : Host} {fdId : ℤ} {s d : Addr}

/-- a successful `bos_listen` makes such a server -/
theorem listen_serves {backlog : ℤ} (hl : bosListen w fdId backlog = .ok (0, w')) :
    ∃ s d, Serves w' fdId s d := by
  obtain ⟨s, k, hs, ⟨h0, _⟩ | ⟨_, ht, hdev, _, ws, rfl⟩⟩ := bosListen_ok hl
  · exact absurd h0 (by decide)
  · obtain ⟨d, hd⟩ := Option.ne_none_iff_exists'.1 hdev
    exact ⟨s, d, ⟨k, hs, ht, hd⟩, rfl⟩

/-! ## One report -/

/-- the server itself does not wait -/
theorem Serves.not_waits (hs : Serves w fdId s d) (ho : Owned w) : s ∉ w.clientsOf s := by
  obtain ⟨k, hk, _, _⟩ := hs.fd
  obtain ⟨c, hc⟩ := ho.held hk
  intro hm
  exact ho.apart c s ⟨s, hm⟩ hc

/-- a report makes a fresh stream socket, puts it into its slot and at the end of the queue -/
theorem arrive_spec (hi : w.Inv) (hm : ∀ i, w.fs.heap.ok i = true) (hs : Serves w fdId s d) (l : Fin 5)
    (remote : SockAddrInet) :
    ∃ w', espAccept w (l : ℕ) remote = .ok w' ∧ Serves w' fdId s d ∧
      w'.clientsOf s = w.clientsOf s ++ [w.fs.heap.next] ∧ w'.esp.links l = some w.fs.heap.next ∧
      (∃ k, w'.socks w.fs.heap.next = some k ∧ k.type = .stream ∧ k.addr = remote) ∧
      (∀ c, c ≠ s → c ≠ w.fs.heap.next → w'.socks c = w.socks c) ∧
      w'.fs.heap.ok = w.fs.heap.ok ∧ w'.fs.fdCnt = w.fs.fdCnt := by
  obtain ⟨k, hfd, ht, hd⟩ := hs.fd
  have hk := sock_of_fdSock hfd
  have hne : s ≠ w.fs.heap.next := (hi.live_lt hk).ne
  obtain ⟨w', hcall⟩ : ∃ w', espAccept w (l : ℕ) remote = .ok w' := by
    simp only [espAccept, hs.server, netdevSockAlloc, Heap.malloc, hm, if_true, bind, Except.bind, linkIdx_fin]
    rw [sock_of_live (Table.set_self _ _ _)]
    simp only
    rw [sock_of_live (k := k) (by simp only [Host.setSock, Host.withHeap, Table.set_ne _ _ hne, hk])]
    exact ⟨_, rfl⟩
  refine ⟨w', hcall, ?_⟩
  obtain ⟨hnone, _⟩ | ⟨t, a, w1, ks, i, tk, hsrv, ha, hks, hl, htk, rfl⟩ := espAccept_ok hcall
  · rw [hs.server] at hnone
    cases hnone
  · obtain rfl := Option.some.inj (hs.server.symm.trans hsrv)
    obtain rfl := Except.ok.inj ((linkIdx_fin l).symm.trans hl)
    obtain ⟨ks', n, rfl, _, hst, _, _, _, _, rfl⟩ := netdevSockAlloc_ok ha
    obtain rfl := Option.some.inj ((Table.set_self _ _ _).symm.trans hks)
    have hold : tk = k := by
      simp only [Host.setSock, Host.withHeap, Table.set_ne _ _ hne, hk, Option.some.injEq] at htk
      exact htk.symm
    subst hold
    refine ⟨⟨⟨_, fdSock_setSock _ hfd rfl rfl, ht, hd⟩, hs.server⟩, ?_, ?_, ⟨{ ks' with addr := remote }, ?_, hst, rfl⟩,
      ?_, rfl, rfl⟩
    · rw [clientsOf_setSock, if_pos rfl, clientsOf_some hk]
    · simp [Host.setSock, Esp.setLink_apply]
    · simp only [Host.setSock, Table.set_ne _ _ hne.symm, Table.set_self]
    · intro c hcs hca
      simp only [Host.setSock, Host.withHeap, Table.set_ne _ _ hcs, Table.set_ne _ _ hca]

/-! ## One call -/

/-- without a pending connection -/
theorem accept_empty (hs : Serves w fdId s d) (hq : w.clientsOf s = []) (want : Option ℕ) :
    bosAccept w fdId want = .ok (.of (-1), w) := by
  obtain ⟨k, hfd, ht, hd⟩ := hs.fd
  have hk := sock_of_fdSock hfd
  rw [clientsOf_some hk] at hq
  have hdev : k.dev ≠ none := by simp [hd]
  simp only [bosAccept, fdData_of_fdSock hfd, sock_of_live hk, bind, Except.bind, ht, hdev, hq, ne_eq, not_true_eq_false,
    if_false]

/-- the state in which the client `c` is off the queue and has the device -/
def takenOff (w : Host) (s c : Addr) (k ck : Socket) (cs : List Addr) : Host :=
  (w.setSock c { ck with dev := k.dev }).setSock s { k with clients := cs }

/-- with one: the first client gets its node and descriptor -/
theorem accept_first {k ck : Socket} {c : Addr} {cs : List Addr} (hfd : w.fdSock fdId = some (s, k))
    (ht : k.type = .stream) (hd : k.dev = some d) (hq : k.clients = c :: cs) (hck : w.socks c = some ck) (hne : s ≠ c)
    (want : Option ℕ) :
    bosAccept w fdId want = (openFd (takenOff w s c k ck cs) (nodeName w (fdId + 1).toNat) c).bind fun p =>
      .ok (⟨p.1, [], giveAddr w ck.addr sizeofSockAddrInet want⟩, p.2) := by
  have hk := sock_of_fdSock hfd
  have hdev : k.dev ≠ none := by simp [hd]
  have hk2 : (w.setSock c { ck with dev := k.dev }).socks s = some k := (Table.set_ne _ _ hne).trans hk
  simp only [bosAccept, fdData_of_fdSock hfd, sock_of_live hk, bind, Except.bind, ht, hdev, hq, ne_eq, not_true_eq_false,
    if_false, sock_of_live hck]
  simp only [sock_of_live hk2]
  rfl

/-- opening a descriptor leaves it open which allocations succeed -/
theorem openFd_mem (hi : w.Inv) {name : Bytes} {c : Addr} {r : ℤ} (h : openFd w name c = .ok (r, w')) :
    w'.fs.heap.ok = w.fs.heap.ok := by
  obtain ⟨n, fs1, fd, fs2, h1, h2, _, rfl⟩ := openFd_ok h
  obtain ⟨root, _, hroot, _⟩ := hi.fs.root
  rw [hroot] at h1
  have hok1 : fs1.heap.ok = w.fs.heap.ok := by
    rcases fsNodeMake_ok h1 with ⟨hnone, _⟩ | ⟨_, _, _, _, _, rfl⟩
    · cases hnone
    · rfl
  have hok2 : fs2.heap.ok = fs1.heap.ok := by
    rcases fsFdAlloc_ok h2 with ⟨hnone, _⟩ | ⟨_, _, _, _, _, _, _, _, rfl⟩
    · cases hnone
    · rfl
  exact hok2.trans hok1

/-- a call that meets a pending connection takes the first one off the queue -/
theorem accept_spec (hi : w.Inv) (ho : Owned w) (hs : Serves w fdId s d) {c : Addr} {cs : List Addr}
    (hq : w.clientsOf s = c :: cs) {want : Option ℕ} {r : Ret} (ha : bosAccept w fdId want = .ok (r, w')) :
    ∃ ck, w.socks c = some ck ∧ r.val = w.fs.fdCnt + 1 ∧
      r.addr = giveAddr w ck.addr sizeofSockAddrInet want ∧ Serves w' fdId s d ∧
      w'.clientsOf s = cs ∧ w'.fdSock r.val = some (c, { ck with dev := some d }) ∧
      (∀ x, x ≠ s → x ≠ c → w'.socks x = w.socks x) ∧
      w'.fs.heap.ok = w.fs.heap.ok ∧ w'.fs.fdCnt = w.fs.fdCnt + 1 := by
  obtain ⟨k, hfd, ht, hd⟩ := hs.fd
  have hk := sock_of_fdSock hfd
  have hmem : c ∈ w.clientsOf s := hq ▸ List.mem_cons_self
  have hne : s ≠ c := fun he => hs.not_waits ho (he ▸ hmem)
  obtain ⟨ck, hck⟩ := hi.waits_live ⟨s, hmem⟩
  rw [clientsOf_some hk] at hq
  have hk2 : (w.setSock c { ck with dev := k.dev }).socks s = some k := (Table.set_ne _ _ hne).trans hk
  have hi2 : (takenOff w s c k ck cs).Inv := hi.takeClient hk hq hck hk2
  rw [accept_first hfd ht hd hq hck hne] at ha
  obtain ⟨⟨id, w1⟩, hopen, ha⟩ := bind_ok.1 ha
  have hmem' := openFd_mem hi2 hopen
  have hop := openFd_opened hi2 hopen
  obtain ⟨rfl, rfl⟩ := ok_pair.1 ha
  have hsock : ∀ x, x ≠ s → x ≠ c → w1.socks x = w.socks x := by
    intro x hxs hxc
    rw [hop.socks]
    exact (Table.set_ne _ _ hxs).trans (Table.set_ne _ _ hxc)
  have hfd1 : (takenOff w s c k ck cs).fdSock fdId = some (s, { k with clients := cs }) := fdSock_setSock _ hfd rfl rfl
  have hc2 : (takenOff w s c k ck cs).socks c = some { ck with dev := some d } := by
    rw [← hd]
    exact (Table.set_ne _ _ hne.symm).trans (Table.set_self _ _ _)
  refine ⟨ck, hck, hop.id_eq, rfl, ⟨⟨_, hop.fdSock_old hi2 hfd1, ht, hd⟩, ?_⟩, ?_, hop.fdSock_new hi2 hc2, hsock,
    hmem', hop.cnt⟩
  · rw [hop.rest]
    exact hs.server
  · rw [Host.clientsOf, hop.socks, takenOff, Host.setSock_self]
    rfl

/-! ## Every step -/

structure Sound (w0 : Host) (fdId : ℤ) (s d : Addr) (t : Log) : Prop where
  inv : t.host.Inv
  owned : Owned t.host
  mem : ∀ i, t.host.fs.heap.ok i = true
  serves : Serves t.host fdId s d
  fifo : Fifo w0 s d t
  counted : ∀ h ∈ t.handed, h.id ≤ t.host.fs.fdCnt
  counter : 0 ≤ t.host.fs.fdCnt ∧ w0.fs.fdCnt ≤ t.host.fs.fdCnt

/-- a connection that waits goes on waiting when its socket stays as it is -/
theorem Waiting.mono {c : Conn} {a : Addr} (h : Waiting w c a) (he : w'.socks a = w.socks a) : Waiting w' c a :=
  ⟨h.sock, he.symm ▸ h.remote⟩

/-- none of the connections that wait is the server -/
theorem Sound.not_server {w0 : Host} {t : Log} (h : Sound w0 fdId s d t) {a : Addr} (ha : a ∈ t.host.clientsOf s) :
    a ≠ s := by
  rintro rfl
  exact h.serves.not_waits h.owned ha

theorem forall₂_mem {α β : Type} {R S : α → β → Prop} {l : List α} {m : List β} (h : List.Forall₂ R l m)
    (himp : ∀ a b, b ∈ m → R a b → S a b) : List.Forall₂ S l m := by
  induction h with
  | nil => exact .nil
  | cons hab _ ih =>
    exact .cons (himp _ _ List.mem_cons_self hab) (ih fun a b hb => himp a b (List.mem_cons_of_mem _ hb))

variable {w0 : Host} {t t' : Log}

/-- a report goes into the queue -/
theorem Sound.arrive (h : Sound w0 fdId s d t) (l : Fin 5) (remote : SockAddrInet) :
    ∃ t', logStep fdId t (.arrive l remote) = some t' ∧ Sound w0 fdId s d t' := by
  obtain ⟨w', hcall, hserves, hq, hlink, ⟨k, hk, _, haddr⟩, hsame, hok, hcnt⟩ :=
    arrive_spec h.inv h.mem h.serves l remote
  have hstep : step t.host (.evAccept (l : ℕ) remote) = some w' := by
    rw [step, hcall]
    rfl
  obtain ⟨q, hlossless, hsent, hgot, hheld⟩ := h.fifo.order
  refine ⟨⟨w', t.reported ++ [⟨w'.esp.links l, remote⟩], t.handed⟩, ?_, ?_⟩
  · rw [logStep, hcall]
    rfl
  · refine ⟨step_inv _ _ _ h.inv hstep, step_owned h.inv h.owned hstep, hok ▸ h.mem, hserves, ⟨?_, h.fifo.fresh,
      h.fifo.distinct⟩, hcnt ▸ h.counted, hcnt ▸ h.counter⟩
    refine ⟨q.put [⟨w'.esp.links l, remote⟩], hlossless.put _, by rw [← hsent]; rfl, hgot, ?_⟩
    rw [hq]
    refine List.rel_append ?_ (.cons ⟨hlink, k, hk, haddr⟩ .nil)
    -- the others are older than the fresh socket
    refine forall₂_mem hheld fun c a ha hw => hw.mono (hsame a (h.not_server ha) ?_)
    obtain ⟨ka, hka⟩ := h.inv.waits_live ⟨s, ha⟩
    exact (h.inv.live_lt hka).ne

/-- the next number is above all that were handed out -/
theorem Sound.numbers (h : Sound w0 fdId s d t) {x : Handed} (hx : x.id = t.host.fs.fdCnt + 1) :
    (∀ y ∈ t.handed ++ [x], w0.fs.fdCnt < y.id) ∧ ((t.handed ++ [x]).map Handed.id).Pairwise (· < ·) ∧
      ∀ y ∈ t.handed ++ [x], y.id ≤ x.id := by
  have hlow : ∀ y ∈ t.handed, y.id < x.id := fun y hy =>
    calc y.id ≤ t.host.fs.fdCnt := h.counted y hy
      _ < t.host.fs.fdCnt + 1 := lt_add_one _
      _ = x.id := hx.symm
  refine ⟨fun y hy => ?_, ?_, fun y hy => ?_⟩
  · rcases List.mem_append.1 hy with hy | hy
    · exact h.fifo.fresh y hy
    · rw [List.mem_singleton.1 hy, hx]
      exact Int.lt_add_one_of_le h.counter.2
  · rw [List.map_append, List.map_singleton]
    refine List.pairwise_append.2 ⟨h.fifo.distinct, List.pairwise_singleton _ _, fun i hi j hj => ?_⟩
    obtain ⟨y, hy, rfl⟩ := List.mem_map.1 hi
    rw [List.mem_singleton.1 hj]
    exact hlow y hy
  · rcases List.mem_append.1 hy with hy | hy
    · exact (hlow y hy).le
    · rw [List.mem_singleton.1 hy]

/-- what comes out of the queue is the connection that was reported first -/
theorem Sound.takes (h : Sound w0 fdId s d t) {c : Addr} {cs : List Addr} {ck : Socket} {x : Handed}
    (hq : t.host.clientsOf s = c :: cs) (hck : t.host.socks c = some ck) (hbehind : x.behind = some (c, some d))
    (hgiven : x.given = x.want.map fun n => (ck.addr.bytes.take n, sizeofSockAddrInet)) (hq' : w'.clientsOf s = cs)
    (hsame : ∀ a, a ≠ s → a ≠ c → w'.socks a = t.host.socks a) :
    ∃ q : Pipe Conn, q.Lossless ∧ q.sent = t.reported ∧ List.Forall₂ (Matches d) (t.handed ++ [x]) q.got ∧
      List.Forall₂ (Waiting w') q.held (w'.clientsOf s) := by
  obtain ⟨q, hlossless, hsent, hgot, hheld⟩ := h.fifo.order
  rw [hq] at hheld
  obtain ⟨conn, held, hfirst, hrest, hqh⟩ := List.forall₂_cons_right_iff.1 hheld
  have hout : (q.get 1).got = q.got ++ [conn] := by rw [Pipe.get, hqh]; rfl
  have hleft : (q.get 1).held = held := by rw [Pipe.get, hqh]; rfl
  have hnodup := h.owned.queue s
  rw [hq, List.nodup_cons] at hnodup
  refine ⟨q.get 1, hlossless.get 1, hsent, ?_, ?_⟩
  · obtain ⟨kc, hkc, hremote⟩ := hfirst.remote
    obtain rfl := Option.some.inj (hkc.symm.trans hck)
    rw [hremote] at hgiven
    rw [hout]
    exact List.rel_append hgot (.cons ⟨⟨c, hfirst.sock, hbehind⟩, hgiven⟩ .nil)
  · rw [hleft, hq']
    refine forall₂_mem hrest fun y a ha hw => hw.mono (hsame a (h.not_server ?_) ?_)
    · rw [hq]
      exact List.mem_cons_of_mem c ha
    · rintro rfl
      exact hnodup.1 ha

/-- a call takes the first connection out of it -/
theorem Sound.accept (h : Sound w0 fdId s d t) {want : Option ℕ} (hf : (Act.accept want).Fits)
    (hn : Numbered s t (.accept want)) : ∃ t', logStep fdId t (.accept want) = some t' ∧ Sound w0 fdId s d t' := by
  cases hq : t.host.clientsOf s with
  | nil =>
    refine ⟨t, ?_, h⟩
    rw [logStep, accept_empty h.serves hq]
    rfl
  | cons c cs =>
    have hroom : t.host.fs.fdCnt + 1 < 2 ^ 31 := hn (by rw [hq]; exact List.cons_ne_nil _ _)
    obtain ⟨k, hk, _, _⟩ := h.serves.fd
    obtain ⟨r, w', ha⟩ := (bosAccept_iff h.inv hk want).2 fun _ _ _ => ⟨h.mem _, h.mem _⟩
    obtain ⟨ck, hck, hval, haddr, hserves, hq', hfd, hsame, hok, hcnt⟩ := accept_spec h.inv h.owned h.serves hq ha
    have hstep : step t.host (.accept fdId want) = some w' := by
      rw [step, ha]
      rfl
    have hpos := h.counter
    have hne : ¬ r.val = -1 := by omega
    have hnew : w'.fs.fdCnt = r.val := by omega
    have hcounter : 0 ≤ w'.fs.fdCnt ∧ w0.fs.fdCnt ≤ w'.fs.fdCnt := by omega
    have hbehind : behind w' r.val = some (c, some d) := by
      rw [behind, hfd]
      rfl
    rw [giveAddr_of_le _ _ _ hf] at haddr
    obtain ⟨hfresh, hdistinct, hcounted⟩ := h.numbers (x := ⟨r.val, want, r.addr, behind w' r.val⟩) hval
    refine ⟨⟨w', t.reported, t.handed ++ [⟨r.val, want, r.addr, behind w' r.val⟩]⟩, ?_, ?_⟩
    · simp only [logStep, ha]
      rw [if_neg hne, if_pos (by omega)]
    · exact ⟨step_inv _ _ _ h.inv hstep, step_owned h.inv h.owned hstep, hok ▸ h.mem, hserves,
        ⟨h.takes hq hck hbehind haddr hq' hsame, hfresh, hdistinct⟩, by rw [hnew]; exact hcounted, hcounter⟩

/-- a step that may be made is made, and what it leads to is sound again -/
theorem step_sound (t : Log) (a : Act) (h : Sound w0 fdId s d t) (ha : a.Fits ∧ Numbered s t a) :
    ∃ t', logStep fdId t a = some t' ∧ Sound w0 fdId s d t' := by
  cases a with
  | arrive l remote => exact h.arrive l remote
  | accept want => exact h.accept ha.1 ha.2

/-! ## Runs -/

theorem Sound.idle (h : Sound w0 fdId s d t) : Idle fdId s t.host := by
  refine ⟨fun hq want => accept_empty h.serves hq want, ?_⟩
  intro want r w' ha hval
  by_contra hq
  obtain ⟨c, cs, hcs⟩ := List.exists_cons_of_ne_nil hq
  obtain ⟨_, _, hid, _⟩ := accept_spec h.inv h.owned h.serves hcs ha
  have := h.counter
  omega

/-- the connections that wait when the log begins -/
theorem opened_waiting {cs : List Addr} (hlive : ∀ c ∈ cs, Live w.socks c) :
    List.Forall₂ (Waiting w) (cs.filterMap fun c => (w.socks c).map fun k => (⟨some c, k.addr⟩ : Conn)) cs := by
  induction cs with
  | nil => exact .nil
  | cons c cs ih =>
    obtain ⟨k, hk⟩ := hlive c List.mem_cons_self
    have hrest := ih fun c' hc => hlive c' (List.mem_cons_of_mem _ hc)
    simp only [List.filterMap_cons, hk, Option.map_some]
    exact .cons ⟨rfl, k, hk, rfl⟩ hrest

theorem sound_opened (hw : Reach w) (hm : ∀ i, w.fs.heap.ok i = true) (hs : Serves w fdId s d) :
    Sound w fdId s d (opened w s) where
  inv := hw.inv
  owned := hw.owned
  mem := hm
  serves := hs
  fifo := by
    refine ⟨⟨⟨(opened w s).reported, [], (opened w s).reported⟩, rfl, rfl, .nil, ?_⟩, by simp [opened], .nil⟩
    exact opened_waiting fun c hc => hw.inv.waits_live ⟨s, hc⟩
  counted x hx := by cases hx
  counter := ⟨hw.fdCnt_nonneg, le_rfl⟩

/-- **as long as the counter fits an `int`, a listening socket is a queue**: every run completes, the calls hand out the
reported connections in their order and each once, and only those without a pending connection return -1 -/
theorem accept_fifo (hw : Reach w) (hm : ∀ i, w.fs.heap.ok i = true) (hs : Serves w fdId s d) {as : List Act}
    (hf : ∀ a ∈ as, a.Fits) (hg : Guarded (logStep fdId) (Numbered s) (opened w s) as) : Queues w fdId s d as := by
  obtain ⟨t, hrun, hsound⟩ := total_run step_sound (sound_opened hw hm hs) (hg.and hf)
  exact ⟨t, hrun, hsound.fifo, hsound.idle⟩

theorem server_isSome : (sampleRun blankJunk serverOps).isSome = true := by decide +kernel

/-- a server on descriptor 1 -/
def server : Host := (sampleRun blankJunk serverOps).get server_isSome

theorem server_reach : Reach server := sampleRun_reach _

theorem server_mem (i : ℕ) : server.fs.heap.ok i = true := by rfl

theorem server_serves : Serves server 1 7 6 := by
  have hfd : server.fdSock 1 = some (7, sampleSock .stream) := by decide +kernel
  exact ⟨⟨_, hfd, rfl, rfl⟩, by decide +kernel⟩

/-- two connections, and three calls -/
def sampleActs (l1 l2 : Fin 5) : List Act :=
  [.arrive l1 samplePeer, .arrive l2 ⟨.afInet, ⟨0x0a000002, 81, 0⟩⟩, .accept (some 8), .accept none, .accept (some 12)]

theorem accept_fifo_sample : Queues server 1 7 6 (sampleActs 3 0) := by
  have hg : decide (Guarded (logStep 1) (Numbered 7) (opened server 7) (sampleActs 3 0)) = true := by decide +kernel
  refine accept_fifo server_reach server_mem server_serves ?_ (of_decide_eq_true hg)
  intro a ha
  simp only [sampleActs, List.mem_cons, List.not_mem_nil, or_false] at ha
  rcases ha with rfl | rfl | rfl | rfl | rfl
  · trivial
  · trivial
  · intro n hn
    obtain rfl := Option.some.inj hn
    decide
  · intro n hn
    cases hn
  · intro n hn
    obtain rfl := Option.some.inj hn
    decide

end EspHostdriver.AcceptFifo
