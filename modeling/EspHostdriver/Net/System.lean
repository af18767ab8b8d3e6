/-
The host program as a machine: every socket call and every event of the module is one step, taken as atomic.

A state is reachable when the program came up (`boot`) and took any list of steps; a call that faults ends the run. The
answers of the module, the failures of `malloc` and the content of fresh memory are arbitrary.

`Host.Inv` is what holds in every reachable state: every descriptor leads to a live node with a reference on it, the
node to a live socket or to nothing, every socket to a registered device or to nothing, and `links`, `tcp_server` and
the lists of clients to live sockets only.

- `boot_inv`, `step_inv`, `Reach.inv`: the invariant holds at the start, under every step, in every reachable state.
-/
import EspHostdriver.Net.Netdev
import EspHostdriver.Core.Machine

namespace EspHostdriver

/-! ## Model -/

inductive Op where
  | configure (strs : Addr → Bytes) (cfg : InetDevCfg) (cfgSize : ℕ)
  | socket (domain : NetFamily) (type : SockType)
  | connect (fdId : ℤ) (addr : SockAddrInet) (addrLen : ℕ)
  | bind (fdId : ℤ) (addr : SockAddrInet) (addrLen : ℕ)
  | listen (fdId backlog : ℤ)
  | accept (fdId : ℤ) (want : Option ℕ)
  | sendto (fdId : ℤ) (mem : Bytes) (dataLen : ℕ) (addr : Option SockAddrInet) (addrLen : ℕ)
  | recvfrom (fdId : ℤ) (dataLen : ℕ) (want : Option ℕ)
  | close (fdId : ℤ)
  | evRecv (link : ℤ) (data : Bytes) (remote : SockAddrInet)
  | evAccept (link : ℤ) (remote : SockAddrInet)
  | evClosed (link : ℤ)

/-- the state a call leaves behind; a fault leaves none -/
def after {α : Type} : Except Fault (α × Host) → Option Host
  | .ok (_, w) => some w
  | .error _ => none

def step (w : Host) : Op → Option Host
  | .configure strs cfg n => after (bosNetConfigure w strs cfg n)
  | .socket domain type => after (bosSocket w domain type)
  | .connect fd addr n => after (bosConnect w fd addr n)
  | .bind fd addr n => after (bosBind w fd addr n)
  | .listen fd backlog => after (bosListen w fd backlog)
  | .accept fd want => after (bosAccept w fd want)
  | .sendto fd mem dataLen addr n => after (bosSendto w fd mem dataLen addr n)
  | .recvfrom fd dataLen want => after (bosRecvfrom w fd dataLen want)
  | .close fd => after (bosClose w fd)
  | .evRecv l data remote => (espRecv w l data remote).toOption
  | .evAccept l remote => (espAccept w l remote).toOption
  | .evClosed l => (espClosed w l).toOption

def Reach (w : Host) : Prop :=
  ∃ ok junk ans tty w0 ops, boot ok junk ans tty = some w0 ∧ Machine.run step w0 ops = some w

/-! ## The invariant -/

def Live {α : Type} (t : Table α) (a : Addr) : Prop := ∃ x, t a = some x

/-- a stream buffer has its 32 slots, or it has no storage and was never written -/
def RingOk (b : Ringbuf) : Prop := (b.Ok ∧ b.size = 32) ∨ b = ringbufInit [] 32

structure SockOk (socks : Table Socket) (devLst : List Netdev) (k : Socket) : Prop where
  dev : ∀ d, k.dev = some d → ∃ v ∈ devLst, v.self = d
  clients : ∀ c ∈ k.clients, Live socks c
  ring : k.type = .stream → RingOk k.stream

/-- descriptors lead to referenced nodes, these to live sockets; the root and its children are there -/
structure FsOk (fs : Fs) (netRoot : Option Addr) (netfsId : ℤ) (socks : Table Socket) : Prop where
  fd : ∀ fd ∈ fs.fdLst, ∃ nd, fs.nodes fd.node = some nd ∧ 0 < nd.refCnt ∧ ∀ s, nd.data = some s → Live socks s
  fdId : ∀ fd ∈ fs.fdLst, fd.id ≤ fs.fdCnt
  root : ∃ r rn, netRoot = some r ∧ fs.nodes r = some rn ∧ ∀ c ∈ rn.childs, Live fs.nodes c
  netfs : ∃ f ∈ fs.fsLst, f.id = netfsId
  fresh : ∀ a, fs.heap.next ≤ a → fs.nodes a = none ∧ socks a = none

structure EspOk (esp : Esp) (socks : Table Socket) : Prop where
  links : ∀ l s, esp.links l = some s → Live socks s
  server : ∀ s, esp.tcpServer = some s → Live socks s

/-- the operations of the driver are set -/
def Netdev.Full (v : Netdev) : Prop := v.ops = ⟨true, true, true, true, true⟩

structure Host.Inv (w : Host) : Prop where
  fs : FsOk w.fs w.netRoot w.netfsId w.socks
  socks : ∀ s k, w.socks s = some k → SockOk w.socks w.devLst k
  esp : EspOk w.esp w.socks
  full : ∀ v ∈ w.devLst, v.Full

/-! ## Changes that keep it -/

theorem SockOk.mono {socks socks' : Table Socket} {devLst devLst' : List Netdev} {k : Socket}
    (h : SockOk socks devLst k) (hs : ∀ a, Live socks a → Live socks' a)
    (hd : ∀ v ∈ devLst, ∃ v' ∈ devLst', v'.self = v.self) : SockOk socks' devLst' k where
  dev d he := by
    obtain ⟨v, hv, rfl⟩ := h.dev d he
    exact hd v hv
  clients c hc := hs c (h.clients c hc)
  ring := h.ring

theorem FsOk.mono {fs : Fs} {root : Option Addr} {id : ℤ} {socks socks' : Table Socket} (h : FsOk fs root id socks)
    (hs : ∀ a, Live socks a → Live socks' a) (hf : ∀ a, fs.heap.next ≤ a → socks' a = none) :
    FsOk fs root id socks' where
  fd fd hm := by
    obtain ⟨nd, h1, h2, h3⟩ := h.fd fd hm
    exact ⟨nd, h1, h2, fun s hd => hs s (h3 s hd)⟩
  fdId := h.fdId
  root := h.root
  netfs := h.netfs
  fresh a ha := ⟨(h.fresh a ha).1, hf a ha⟩

theorem EspOk.mono {esp : Esp} {socks socks' : Table Socket} (h : EspOk esp socks)
    (hs : ∀ a, Live socks a → Live socks' a) : EspOk esp socks' :=
  ⟨fun l s he => hs s (h.links l s he), fun s he => hs s (h.server s he)⟩

theorem FsOk.withHeap {fs : Fs} {root : Option Addr} {id : ℤ} {socks : Table Socket} (h : FsOk fs root id socks)
    (hp : Heap) (hn : fs.heap.next ≤ hp.next) : FsOk { fs with heap := hp } root id socks where
  fd := h.fd
  fdId := h.fdId
  root := h.root
  netfs := h.netfs
  fresh a ha := h.fresh a (le_trans hn ha)

/-- writing a node that stays a good node for its descriptors -/
theorem FsOk.setNode {fs : Fs} {root : Option Addr} {id : ℤ} {socks : Table Socket} (h : FsOk fs root id socks)
    {n : Addr} {nd : FsNode} (nd' : FsNode) (hn : fs.nodes n = some nd) (hr : nd.refCnt ≤ nd'.refCnt)
    (hd : ∀ s, nd'.data = some s → nd.data = some s) (hc : ∀ c ∈ nd'.childs, c ∈ nd.childs ∨ Live fs.nodes c) :
    FsOk { fs with nodes := fs.nodes.set n nd' } root id socks where
  fd fd hm := by
    obtain ⟨x, h1, h2, h3⟩ := h.fd fd hm
    by_cases he : fd.node = n
    · rw [he, hn] at h1
      cases h1
      exact ⟨nd', by simp [he], by omega, fun s hs => h3 s (hd s hs)⟩
    · exact ⟨x, by simp [Table.set_ne _ _ he, h1], h2, h3⟩
  fdId := h.fdId
  root := by
    obtain ⟨r, rn, h1, h2, h3⟩ := h.root
    by_cases he : r = n
    · subst he
      rw [hn] at h2
      cases h2
      refine ⟨r, nd', h1, by simp, fun c hm => Table.live_set _ ?_⟩
      rcases hc c hm with hx | hx
      · exact h3 c hx
      · exact hx
    · exact ⟨r, rn, h1, by simp [Table.set_ne _ _ he, h2], fun c hm => Table.live_set _ (h3 c hm)⟩
  netfs := h.netfs
  fresh a ha := by
    have hne : a ≠ n := by
      rintro rfl
      rw [(h.fresh a ha).1] at hn; cases hn
    simp only [Table.set_ne _ _ hne]
    exact h.fresh a ha

/-- one more node at an address that was handed out -/
theorem FsOk.addNode {fs : Fs} {root : Option Addr} {id : ℤ} {socks : Table Socket} (h : FsOk fs root id socks)
    {a : Addr} (nd : FsNode) (hlt : a < fs.heap.next) (hn : fs.nodes a = none) :
    FsOk { fs with nodes := fs.nodes.set a nd } root id socks where
  fd fd hm := by
    obtain ⟨x, h1, h2, h3⟩ := h.fd fd hm
    have hne : fd.node ≠ a := fun he => by rw [he, hn] at h1; cases h1
    exact ⟨x, by simp [Table.set_ne _ _ hne, h1], h2, h3⟩
  fdId := h.fdId
  root := by
    obtain ⟨r, rn, h1, h2, h3⟩ := h.root
    have hne : r ≠ a := fun he => by rw [he, hn] at h2; cases h2
    exact ⟨r, rn, h1, by simp [Table.set_ne _ _ hne, h2], fun c hm => Table.live_set _ (h3 c hm)⟩
  netfs := h.netfs
  fresh b hb := by
    have hne : b ≠ a := (lt_of_lt_of_le hlt hb).ne'
    simp only [Table.set_ne _ _ hne]
    exact h.fresh b hb

/-- one more descriptor, for a node whose socket is live -/
theorem FsOk.addFd {fs : Fs} {root : Option Addr} {id : ℤ} {socks : Table Socket} (h : FsOk fs root id socks)
    {n : Addr} {nd : FsNode} {fd : FsFiled} (hn : fs.nodes n = some nd) (hd : ∀ s, nd.data = some s → Live socks s)
    (hfd : fd.node = n) (hid : fd.id = fs.fdCnt + 1) :
    FsOk { fs with
      heap := { fs.heap with next := fs.heap.next + 1 }, fdCnt := fs.fdCnt + 1, fdLst := fs.fdLst ++ [fd],
      nodes := fs.nodes.set n { nd with refCnt := nd.refCnt + 1 } } root id socks := by
  have hset := (h.setNode { nd with refCnt := nd.refCnt + 1 } hn (Nat.le_succ _) (fun s hs => hs)
    (fun c hc => Or.inl hc)).withHeap { fs.heap with next := fs.heap.next + 1 } (Nat.le_succ _)
  refine ⟨fun f hf => ?_, fun f hf => ?_, hset.root, hset.netfs, hset.fresh⟩
  · rcases List.mem_append.1 hf with hf | hf
    · exact hset.fd f hf
    · rw [List.mem_singleton.1 hf, hfd]
      exact ⟨_, Table.set_self _ _ _, Nat.succ_pos _, hd⟩
  · rcases List.mem_append.1 hf with hf | hf
    · exact le_trans (h.fdId f hf) (by simp)
    · rw [List.mem_singleton.1 hf, hid]

/-- a new last child of the root -/
theorem FsOk.nodeMake {fs fs' : Fs} {root : Option Addr} {id fsId : ℤ} {socks : Table Socket}
    (h : FsOk fs root id socks) {name : Bytes} {nameLen : ℕ} {type : FileType} {data : Option Addr} {n : Addr}
    (hm : fsNodeMake fs root name nameLen type data fsId = .ok (some n, fs')) :
    FsOk fs' root id socks ∧ ∃ nd, fs'.nodes n = some nd ∧ nd.data = data := by
  obtain ⟨r, rn, rfl, hr, hc⟩ := h.root
  rcases fsNodeMake_ok hm with ⟨h1, _⟩ | ⟨pn, f, hp, _, h1, rfl⟩
  · cases h1
  · cases h1
    rw [hr] at hp
    cases hp
    have hne : r ≠ fs.heap.next := by
      intro he
      have := (h.fresh r (le_of_eq he.symm)).1
      rw [hr] at this; cases this
    refine ⟨?_, ?_⟩
    · have h1 := h.withHeap { fs.heap with next := fs.heap.next + 1 } (Nat.le_succ _)
      have h2 := h1.addNode ⟨fsId, f.self, data, 0, type, [], some r, (cstr name).take nameLen⟩ (Nat.lt_succ_self _)
        (h.fresh _ le_rfl).1
      refine h2.setNode { rn with childs := rn.childs ++ [fs.heap.next] }
        (show (fs.nodes.set _ _) r = some rn by rw [Table.set_ne _ _ hne, hr]) le_rfl (fun s hs => hs) fun c hx => ?_
      rcases List.mem_append.1 hx with hx | hx
      · exact Or.inl hx
      · rw [List.mem_singleton.1 hx]
        exact Or.inr ⟨_, Table.set_self _ _ _⟩
    · refine ⟨⟨fsId, f.self, data, 0, type, [], some r, (cstr name).take nameLen⟩, ?_, rfl⟩
      simp only [Table.set_ne _ _ hne.symm, Table.set_self]

namespace Host.Inv

variable {w w' : Host}

theorem withHeap (h : w.Inv) (hp : Heap) (hn : w.fs.heap.next ≤ hp.next) : (w.withHeap hp).Inv :=
  ⟨h.fs.withHeap hp hn, h.socks, h.esp, h.full⟩

/-- a socket at an address that was handed out is written or made -/
theorem setSock (h : w.Inv) {s : Addr} {k : Socket} (hs : s < w.fs.heap.next)
    (hk : SockOk w.socks w.devLst k) : (w.setSock s k).Inv := by
  have hl : ∀ a, Live w.socks a → Live (w.socks.set s k) a := fun a ha => Table.live_set k ha
  refine ⟨h.fs.mono hl fun a ha => ?_, fun t x hx => ?_, h.esp.mono hl, h.full⟩
  · have hne : a ≠ s := (lt_of_lt_of_le hs ha).ne'
    simp only [Host.setSock, Table.set_ne _ _ hne]
    exact (h.fs.fresh a ha).2
  · have hself : ∀ v ∈ w.devLst, ∃ v' ∈ w.devLst, v'.self = v.self := fun v hv => ⟨v, hv, rfl⟩
    by_cases ht : t = s
    · simp only [Host.setSock, ht, Table.set_self, Option.some.injEq] at hx
      subst hx
      exact hk.mono hl hself
    · simp only [Host.setSock, Table.set_ne _ _ ht] at hx
      exact (h.socks t x hx).mono hl hself

theorem live_lt (h : w.Inv) {s : Addr} {k : Socket} (hs : w.socks s = some k) : s < w.fs.heap.next := by
  by_contra hge
  have := (h.fs.fresh s (not_lt.1 hge)).2
  rw [hs] at this; cases this

theorem setItf (h : w.Inv) (itf : Serial) : Host.Inv { w with itf := itf } := ⟨h.fs, h.socks, h.esp, h.full⟩

theorem setLink (h : w.Inv) (l : Fin 5) (sock : Option Addr) (hs : ∀ s, sock = some s → Live w.socks s) :
    Host.Inv { w with esp := w.esp.setLink l sock } := by
  refine ⟨h.fs, h.socks, ⟨fun i s he => ?_, h.esp.server⟩, h.full⟩
  rw [Esp.setLink_apply] at he
  split_ifs at he
  · exact hs s he
  · exact h.esp.links i s he

theorem setServer (h : w.Inv) (sock : Option Addr) (hs : ∀ s, sock = some s → Live w.socks s) :
    Host.Inv { w with esp := { w.esp with tcpServer := sock } } :=
  ⟨h.fs, h.socks, ⟨h.esp.links, hs⟩, h.full⟩

theorem setFs (h : w.Inv) {fs : Fs} (hf : FsOk fs w.netRoot w.netfsId w.socks) : Host.Inv { w with fs := fs } :=
  ⟨hf, h.socks, h.esp, h.full⟩

theorem setDevs (h : w.Inv) (vs : List Netdev) (hs : ∀ v ∈ w.devLst, ∃ v' ∈ vs, v'.self = v.self)
    (hf : ∀ v ∈ vs, v.Full) : Host.Inv { w with devLst := vs } :=
  ⟨h.fs, fun s k hk => (h.socks s k hk).mono (fun _ ha => ha) hs, h.esp, hf⟩

theorem dev_ok (h : w.Inv) {s d : Addr} {k : Socket} (hs : w.socks s = some k) (hd : k.dev = some d) :
    ∃ v, w.dev k.dev = .ok v ∧ v.Full := by
  obtain ⟨v, hv, rfl⟩ := (h.socks s k hs).dev d hd
  obtain ⟨v', hv'⟩ := Host.dev_of_mem hv
  exact ⟨v', by rw [hd]; exact hv', h.full v' (Host.dev_ok hv').1⟩

theorem alloc (h : w.Inv) {type : SockType} {s : Addr} (ha : netdevSockAlloc w type = .ok (s, w')) :
    w'.Inv ∧ w'.devLst = w.devLst ∧ w'.netRoot = w.netRoot ∧
      ∃ k, w'.socks s = some k ∧ k.dev = none ∧ k.clients = [] ∧ (k.type = .stream → RingOk k.stream) := by
  obtain ⟨k, n, rfl, hn, ht, hd, hc, _, hr, rfl⟩ := netdevSockAlloc_ok ha
  have hring : k.type = .stream → RingOk k.stream := by
    intro hs
    obtain ⟨d, he, hlen⟩ := hr (ht ▸ hs)
    rw [he]
    rcases hlen with hl | rfl
    · exact Or.inl ⟨ringbufInit_ok (by decide) (by decide) hl, rfl⟩
    · exact Or.inr rfl
  refine ⟨(h.withHeap _ (Nat.le_add_right _ n)).setSock (Nat.lt_add_of_pos_right hn) ⟨?_, ?_, hring⟩, rfl, rfl, k,
    Table.set_self _ _ _, hd, hc, hring⟩
  · rintro d hx; rw [hd] at hx; cases hx
  · rintro c hx; rw [hc] at hx; cases hx

theorem assign (h : w.Inv) {sock : Option Addr} {addr : SockAddrInet} {addrLen : ℕ} {r : ℤ}
    (ha : assignNetdev w sock addr addrLen = .ok (r, w')) : w'.Inv := by
  obtain ⟨s, k, _, hk, hx⟩ := assignNetdev_ok ha
  rcases hx with ⟨_, rfl⟩ | ⟨v, hv, _, rfl⟩
  · exact h
  · have hok := h.socks s k hk
    refine h.setSock (h.live_lt hk) ⟨?_, hok.clients, hok.ring⟩
    rintro d hx; cases hx; exact ⟨v, hv, rfl⟩

theorem openFd (h : w.Inv) {name : Bytes} {s : Addr} {r : ℤ} (hs : Live w.socks s)
    (ho : EspHostdriver.openFd w name s = .ok (r, w')) : w'.Inv := by
  obtain ⟨n, fs1, fd, fs2, h1, h2, _, rfl⟩ := openFd_ok ho
  obtain ⟨hf, nd, hn, hd⟩ := h.fs.nodeMake h1
  rcases fsFdAlloc_ok h2 with ⟨hx, _⟩ | ⟨m, nd', fd', hx, hn', hfd, hid, hnode, rfl⟩
  · cases hx
  · cases hx; cases hfd
    rw [hn] at hn'; cases hn'
    refine h.setFs (hf.addFd hn (fun t ht => ?_) hnode hid)
    rw [hd] at ht; cases ht; exact hs

theorem disconnect (h : w.Inv) {sock : Option Addr} (hd : netdevSockDisconnect w sock = .ok w') : w'.Inv := by
  rcases netdevSockDisconnect_ok hd with rfl | ⟨c, nd, hn, _, rfl⟩
  · exact h
  · exact h.setFs (h.fs.setNode _ hn le_rfl (fun s hs => by cases hs) fun c hc => Or.inl hc)

/-! ## Every step keeps it -/

theorem configure (h : w.Inv) {strs : Addr → Bytes} {cfg : InetDevCfg} {n : ℕ} {r : ℤ}
    (hc : bosNetConfigure w strs cfg n = .ok (r, w')) : w'.Inv := by
  unfold bosNetConfigure at hc
  split at hc
  · cases hc
  · rename_i v vs hv
    split_ifs at hc
    · cases hc; exact h
    · obtain ⟨⟨_, itf⟩, _, hc⟩ := bind_ok.1 hc
      cases hc
      refine setItf (h.setDevs ({ v with cfg := cfg } :: vs) (fun u hu => ?_) fun u hu => ?_) itf
      · rw [hv] at hu
        rcases List.mem_cons.1 hu with rfl | hu
        · exact ⟨_, List.mem_cons_self, rfl⟩
        · exact ⟨u, List.mem_cons_of_mem _ hu, rfl⟩
      · rcases List.mem_cons.1 hu with rfl | hu
        · exact h.full v (by simp [hv])
        · exact h.full u (by simp [hv, hu])

/-- a fresh socket with its domain, and the counter one further -/
theorem socketMade (h : w.Inv) {domain : NetFamily} {type : SockType} {s : Addr} {k : Socket} {n : ℕ}
    (ha : netdevSockAlloc w type = .ok (s, w')) (hk : w'.socks s = some k) :
    Host.Inv { w'.setSock s { k with addr := { k.addr with domain := domain } } with fdId := n } := by
  obtain ⟨hi, _, _, k', hk', hd, hc, hr⟩ := h.alloc ha
  rw [hk] at hk'
  cases hk'
  have hset : (w'.setSock s { k with addr := { k.addr with domain := domain } }).Inv := by
    refine hi.setSock (hi.live_lt hk) ⟨?_, ?_, hr⟩
    · rintro d hx; rw [hd] at hx; cases hx
    · rintro c hx; rw [hc] at hx; cases hx
  exact ⟨hset.fs, hset.socks, hset.esp, hset.full⟩

theorem socket (h : w.Inv) {domain : NetFamily} {type : SockType} {r : ℤ}
    (hs : bosSocket w domain type = .ok (r, w')) : w'.Inv := by
  obtain ⟨⟨s, w1⟩, ha, hs⟩ := bind_ok.1 hs
  obtain ⟨⟨s', k⟩, hk, hs⟩ := bind_ok.1 hs
  obtain ⟨h1, hk⟩ := Host.sock_ok.1 hk
  cases h1
  exact (h.socketMade ha hk).openFd ⟨_, Table.set_self _ _ _⟩ hs

theorem connectDev (h : w.Inv) {s : Addr} {k : Socket} {v : Netdev} {r : ℤ} (hk : w.socks s = some k)
    (hv : w.dev k.dev = .ok v) (hc : espConnect w s = .ok (r, w')) : w'.Inv := by
  rcases espConnect_cases hk hv with ⟨_, he⟩ | ⟨l, ws, _, he⟩
  · rw [he] at hc; cases hc; exact h
  · rw [he] at hc
    split_ifs at hc <;> cases hc
    · exact (h.setLink l (some s) fun t ht => by cases ht; exact ⟨k, hk⟩).setItf _
    · exact h.setItf _

theorem connect (h : w.Inv) {fdId : ℤ} {addr : SockAddrInet} {addrLen : ℕ} {r : ℤ}
    (hc : bosConnect w fdId addr addrLen = .ok (r, w')) : w'.Inv := by
  rcases bosConnect_ok hc with rfl | ⟨s, k, r1, w1, _, _, ha, rfl | ⟨_, k1, v, hk1, hv, he⟩⟩
  · exact h
  · exact h.assign ha
  · exact (h.assign ha).connectDev hk1 hv he

theorem bind (h : w.Inv) {fdId : ℤ} {addr : SockAddrInet} {addrLen : ℕ} {r : ℤ}
    (hb : bosBind w fdId addr addrLen = .ok (r, w')) : w'.Inv := by
  obtain ⟨_, _, hb⟩ := bind_ok.1 hb
  exact h.assign hb

theorem listen (h : w.Inv) {fdId backlog : ℤ} {r : ℤ} (hl : bosListen w fdId backlog = .ok (r, w')) : w'.Inv := by
  obtain ⟨s, k, hs, ⟨_, rfl | ⟨ws, rfl⟩⟩ | ⟨_, _, _, _, ws, rfl⟩⟩ := bosListen_ok hl
  · exact h
  · exact h.setItf _
  · exact (h.setServer (some s) fun t ht => by cases ht; exact ⟨k, sock_of_fdSock hs⟩).setItf _

/-- a client that is taken off its server's list with the server's device -/
theorem takeClient (h : w.Inv) {s cl : Addr} {cls : List Addr} {k ck k2 : Socket} (hk : w.socks s = some k)
    (hcl : k.clients = cl :: cls) (hck : w.socks cl = some ck)
    (hk2 : (w.setSock cl { ck with dev := k.dev }).socks s = some k2) :
    ((w.setSock cl { ck with dev := k.dev }).setSock s { k2 with clients := cls }).Inv := by
  have hsk := h.socks s k hk
  have hckok := h.socks cl ck hck
  have hi1 : (w.setSock cl { ck with dev := k.dev }).Inv :=
    h.setSock (h.live_lt hck) ⟨hsk.dev, hckok.clients, hckok.ring⟩
  have hk2ok := hi1.socks s k2 hk2
  refine hi1.setSock (hi1.live_lt hk2) ⟨hk2ok.dev, fun c hm => ?_, hk2ok.ring⟩
  exact Table.live_set _ (hsk.clients c (by simp [hcl, hm]))

theorem accept (h : w.Inv) {fdId : ℤ} {want : Option ℕ} {r : Ret} (ha : bosAccept w fdId want = .ok (r, w')) :
    w'.Inv := by
  obtain ⟨s, k, hs, ⟨_, rfl⟩ | ⟨cl, cls, ck, k2, _, _, hcl, hck, hk2, ho⟩⟩ := bosAccept_ok ha
  · exact h
  · have hi := h.takeClient (sock_of_fdSock hs) hcl hck hk2
    exact hi.openFd (Table.live_set _ ⟨_, Table.set_self _ _ _⟩) ho

theorem sendtoDev (h : w.Inv) {s : Addr} {k : Socket} {addr : Option SockAddrInet} {addrLen : ℕ}
    {r : Option (Option Addr)} (hs : EspHostdriver.sendtoDev w s k addr addrLen = .ok (r, w')) : w'.Inv := by
  unfold EspHostdriver.sendtoDev at hs
  split at hs
  · cases hs; exact h
  · cases hs; exact h
  · cases hs; exact h
  · split_ifs at hs
    · cases hs; exact h
    · obtain ⟨⟨r1, w1⟩, ha, hs⟩ := bind_ok.1 hs
      have h1 := h.assign ha
      simp only at hs
      split_ifs at hs
      · cases hs; exact h1
      · obtain ⟨_, _, hs⟩ := bind_ok.1 hs
        cases hs; exact h1

theorem sendDev (h : w.Inv) {s : Addr} {mem : Bytes} {n : ℕ} {r : ℤ} (hs : espSend w s mem n = .ok (r, w')) :
    w'.Inv := by
  rcases espSend_ok hs with rfl | ⟨k, l, ws, _, _, _, rfl | rfl⟩
  · exact h
  · exact h.setItf _
  · exact h.setItf _

theorem sendto (h : w.Inv) {fdId : ℤ} {mem : Bytes} {n : ℕ} {addr : Option SockAddrInet} {addrLen : ℕ} {r : ℤ}
    (hs : bosSendto w fdId mem n addr addrLen = .ok (r, w')) : w'.Inv := by
  rcases bosSendto_ok hs with rfl | ⟨s, k, dev, w1, _, hdev, rfl | ⟨r1, he⟩⟩
  · exact h
  · exact h.sendtoDev hdev
  · exact (h.sendtoDev hdev).sendDev he

end Host.Inv

/-- a buffer without storage holds nothing -/
theorem ringbufRead_nullRing (n : ℕ) : ringbufRead (ringbufInit [] 32) n = ([], ringbufInit [] 32) := by
  cases n <;> rfl

theorem RingOk.read {b : Ringbuf} (h : RingOk b) (n : ℕ) : RingOk (ringbufRead b n).2 := by
  rcases h with h | rfl
  · have hs := ringbufRead_spec h.1 n
    exact Or.inl ⟨hs.2.1, hs.2.2.2.trans h.2⟩
  · rw [ringbufRead_nullRing]; exact Or.inr rfl

theorem nullRing_contents : (ringbufInit [] 32).contents = [] := ringbufInit_contents (by decide) (by decide)

theorem RingOk.read_contents {b : Ringbuf} (h : RingOk b) (n : ℕ) :
    (ringbufRead b n).1 = b.contents.take n ∧ (ringbufRead b n).2.contents = b.contents.drop n := by
  rcases h with h | rfl
  · exact ⟨(ringbufRead_spec h.1 n).1, (ringbufRead_spec h.1 n).2.2.1⟩
  · simp [ringbufRead_nullRing, nullRing_contents]

theorem RingOk.length_le {b : Ringbuf} (h : RingOk b) : b.contents.length ≤ 31 := by
  rcases h with h | rfl
  · have := h.1.count_lt
    rw [Ringbuf.contents_length]; omega
  · simp [nullRing_contents]

/-- nothing counted, nothing held -/
theorem RingOk.contents_nil {b : Ringbuf} (h : RingOk b) (h0 : ringbufContains b = 0) : b.contents = [] := by
  rcases h with h | rfl
  · rwa [ringbufContains_eq h.1, List.length_eq_zero_iff] at h0
  · exact nullRing_contents

/-- a write that does not need the missing storage -/
theorem RingOk.write {b : Ringbuf} (h : RingOk b) {l : Bytes} (hn : ¬ (0 < (ringbufWrite b l).1 ∧ b.data = [])) :
    RingOk (ringbufWrite b l).2 := by
  rcases h with h | rfl
  · have hs := ringbufWrite_spec h.1 l
    exact Or.inl ⟨hs.2.1, hs.2.2.2.trans h.2⟩
  · cases l with
    | nil => exact Or.inr rfl
    | cons c l => exact absurd ⟨Nat.succ_pos _, rfl⟩ hn

/-- bytes that fit are all stored -/
theorem RingOk.write_contents {b : Ringbuf} (h : RingOk b) {l : Bytes}
    (hn : ¬ (0 < (ringbufWrite b l).1 ∧ b.data = [])) (hfit : l.length ≤ ringbufLeft b) :
    (ringbufWrite b l).2.contents = b.contents ++ l := by
  rcases h with h | rfl
  · rw [ringbufLeft_eq h.1] at hfit
    have := h.1.count_lt
    have := Ringbuf.contents_length b
    rw [(ringbufWrite_spec h.1 l).2.2.1, Fifo.accepted_all (by omega)]
  · cases l with
    | nil => simp [ringbufWrite]
    | cons c l => exact absurd ⟨Nat.succ_pos _, rfl⟩ hn

namespace Host.Inv

variable {w w' : Host}

theorem recvfrom (h : w.Inv) {fdId : ℤ} {n : ℕ} {want : Option ℕ} {r : Ret}
    (hr : bosRecvfrom w fdId n want = .ok (r, w')) : w'.Inv := by
  obtain ⟨_, _, hr⟩ := bind_ok.1 hr
  split_ifs at hr
  · cases hr; exact h
  · obtain ⟨⟨s, k⟩, hs, hr⟩ := bind_ok.1 hr
    obtain ⟨_, hk⟩ := Host.sock_ok.1 hs
    have hok := h.socks s k hk
    simp only at hr
    split at hr
    · rename_i ht
      split at hr
      · cases hr; exact h
      · obtain ⟨⟨b, idx⟩, _, hr⟩ := bind_ok.1 hr
        obtain ⟨_, rfl⟩ := ok_pair.1 hr
        exact h.setSock (h.live_lt hk) ⟨hok.dev, hok.clients, fun hx => by rw [ht] at hx; cases hx⟩
    · rename_i ht
      split_ifs at hr
      obtain ⟨_, rfl⟩ := ok_pair.1 hr
      exact h.setSock (h.live_lt hk) ⟨hok.dev, hok.clients, fun _ => (hok.ring ht).read n⟩

/-- a node a descriptor leads to is never destroyed -/
theorem destroy_fd (h : w.Inv) {fd : FsFiled} (hf : fd ∈ w.fs.fdLst) : fsNodeDestroy w.fs fd.node = .ok (-1, w.fs) := by
  obtain ⟨nd, hn, hr, _⟩ := h.fs.fd fd hf
  exact fsNodeDestroy_refd hn hr

theorem close (h : w.Inv) {fdId : ℤ} {r : ℤ} (hc : bosClose w fdId = .ok (r, w')) : w'.Inv := by
  unfold bosClose at hc
  split at hc
  · cases hc; exact h
  · rename_i fd hfd
    obtain ⟨d, _, hc⟩ := bind_ok.1 hc
    split_ifs at hc
    · cases hc; exact h
    · obtain ⟨⟨s, k⟩, hs, hc⟩ := bind_ok.1 hc
      obtain ⟨_, hk⟩ := Host.sock_ok.1 hs
      simp only at hc
      split_ifs at hc with h1
      · cases hc; exact h
      · obtain ⟨v, hv, hc⟩ := bind_ok.1 hc
        obtain ⟨⟨r1, w1⟩, he, hc⟩ := bind_ok.1 hc
        have hw1 : w1.Inv ∧ w1.fs = w.fs := by
          split_ifs at he
          · rcases espClose_cases hk hv with ⟨ws, _, hx⟩ | ⟨_, _, hx⟩ | ⟨l, ws, _, _, hx⟩
            · rw [hx] at he
              split_ifs at he <;> cases he
              · exact ⟨(h.setServer none fun t ht => by cases ht).setItf _, rfl⟩
              · exact ⟨h.setItf _, rfl⟩
            · rw [hx] at he; cases he; exact ⟨h, rfl⟩
            · rw [hx] at he
              split_ifs at he <;> cases he
              · exact ⟨(h.setLink l none fun t ht => by cases ht).setItf _, rfl⟩
              · exact ⟨h.setItf _, rfl⟩
          · cases he; exact ⟨h, rfl⟩
        simp only at hc
        split_ifs at hc
        · obtain ⟨⟨r2, fs⟩, hx, hc⟩ := bind_ok.1 hc
          rw [hw1.1.destroy_fd (by rw [hw1.2]; exact List.mem_of_find?_eq_some hfd)] at hx
          cases hx; cases hc
          exact hw1.1
        · cases hc; exact hw1.1

theorem evRecv (h : w.Inv) {l : ℤ} {data : Bytes} {remote : SockAddrInet} (he : espRecv w l data remote = .ok w') :
    w'.Inv := by
  obtain ⟨i, s, k, _, _, hk, hx⟩ := espRecv_ok he
  have hok := h.socks s k hk
  rcases hx with ⟨ht, rfl⟩ | ⟨ht, hn, rfl⟩
  · refine (h.withHeap _ (Nat.le_succ _)).setSock (Nat.lt_succ_of_lt (h.live_lt hk)) ⟨hok.dev, hok.clients, fun hx => ?_⟩
    rw [ht] at hx; cases hx
  · exact h.setSock (h.live_lt hk) ⟨hok.dev, hok.clients, fun _ => (hok.ring ht).write hn⟩

theorem evAccept (h : w.Inv) {l : ℤ} {remote : SockAddrInet} (he : espAccept w l remote = .ok w') : w'.Inv := by
  rcases espAccept_ok he with ⟨_, rfl⟩ | ⟨t, s, w1, k, i, tk, _, ha, hk, _, htk, rfl⟩
  · exact h
  · obtain ⟨h1, _, _, k', hk', hd, hc, hr⟩ := h.alloc ha
    rw [hk] at hk'; cases hk'
    have hok := h1.socks s k hk
    have h2 : (w1.setSock s { k with addr := remote }).Inv :=
      h1.setSock (h1.live_lt hk) ⟨hok.dev, hok.clients, hok.ring⟩
    have h3 := h2.setLink i (some s) fun x hx => by cases hx; exact ⟨_, Table.set_self _ _ _⟩
    have htok := h3.socks t tk htk
    refine h3.setSock (h3.live_lt htk) ⟨htok.dev, fun c hm => ?_, htok.ring⟩
    rcases List.mem_append.1 hm with hm | hm
    · exact htok.clients c hm
    · rw [List.mem_singleton.1 hm]; exact ⟨_, Table.set_self _ _ _⟩

theorem evClosed (h : w.Inv) {l : ℤ} (he : espClosed w l = .ok w') : w'.Inv := by
  obtain ⟨i, _, hd⟩ := espClosed_ok he
  exact (h.setLink i none fun x hx => by cases hx).disconnect hd

end Host.Inv

theorem after_some {α : Type} {x : Except Fault (α × Host)} {w : Host} (h : after x = some w) :
    ∃ r, x = .ok (r, w) := by
  cases x with
  | error e => cases h
  | ok p => obtain ⟨r, w'⟩ := p; cases h; exact ⟨r, rfl⟩

/-- **The invariant is kept by every step.** -/
theorem step_inv (w : Host) (op : Op) (w' : Host) (h : w.Inv) (hs : step w op = some w') : w'.Inv := by
  cases op with
  | configure => obtain ⟨r, hr⟩ := after_some hs; exact h.configure hr
  | socket => obtain ⟨r, hr⟩ := after_some hs; exact h.socket hr
  | connect => obtain ⟨r, hr⟩ := after_some hs; exact h.connect hr
  | bind => obtain ⟨r, hr⟩ := after_some hs; exact h.bind hr
  | listen => obtain ⟨r, hr⟩ := after_some hs; exact h.listen hr
  | accept => obtain ⟨r, hr⟩ := after_some hs; exact h.accept hr
  | sendto => obtain ⟨r, hr⟩ := after_some hs; exact h.sendto hr
  | recvfrom => obtain ⟨r, hr⟩ := after_some hs; exact h.recvfrom hr
  | close => obtain ⟨r, hr⟩ := after_some hs; exact h.close hr
  | evRecv => exact h.evRecv (toOption_some hs)
  | evAccept => exact h.evAccept (toOption_some hs)
  | evClosed => exact h.evClosed (toOption_some hs)

/-! ## The start -/

theorem intOr_eq_zero {a b : ℤ} : intOr a b = 0 ↔ BitVec.ofInt 32 a = 0 ∧ BitVec.ofInt 32 b = 0 := by
  rw [intOr, ← BitVec.toInt_zero (w := 32), BitVec.toInt_inj]
  exact BitVec.or_eq_zero_iff

/-- the file system layer after `netdev_init`: the root with its link to itself -/
def bootFs (ok : ℕ → Bool) : Fs where
  heap := ⟨ok, 4⟩
  fsLst := [⟨1, 0, ⟨true, true⟩⟩]
  fdLst := []
  fdCnt := 0
  nodes a :=
    if a = 2 then some ⟨0, 1, none, 0, .dir, [3], none, str "socket"⟩
    else if a = 3 then some ⟨0, 1, some 2, 0, .lnk, [], some 2, str "."⟩ else none

theorem bootFs_ok (ok : ℕ → Bool) : FsOk (bootFs ok) (some 2) 0 fun _ => none where
  fd fd hf := by cases hf
  fdId fd hf := by cases hf
  root := ⟨2, _, rfl, rfl, fun c hc => by
    rw [List.mem_singleton.1 hc]; exact ⟨_, rfl⟩⟩
  netfs := ⟨_, List.mem_singleton.2 rfl, rfl⟩
  fresh a ha := by
    have h4 : 4 ≤ a := ha
    have h2 : ¬ a = 2 := by rintro rfl; omega
    have h3 : ¬ a = 3 := by rintro rfl; omega
    simp [bootFs, h2, h3]

theorem netdevInit_start {ok : ℕ → Bool} {junk : Addr → Junk} {ans : ℕ → Res} {r : ℤ} {w : Host}
    (h : netdevInit (start ok junk ans) = .ok (r, w)) (hr : r ≠ -1) :
    w = { start ok junk ans with fs := bootFs ok, netfsId := 0, netRoot := some 2 } := by
  cases h1 : ok 1 with
  | false => simp [netdevInit, start, fsRegister, Heap.malloc, h1] at h; omega
  | true =>
    cases h2 : ok 2 with
    | false =>
      simp [netdevInit, start, fsRegister, Heap.malloc, h1, h2, fsNodeCreate, fsNodeMake, sizeT, bind,
        Except.bind] at h
      omega
    | true =>
      cases h3 : ok 3 with
      | false =>
        -- without its link the root is destroyed, and a root has no parent to take it from
        simp [netdevInit, start, fsRegister, Heap.malloc, h1, h2, h3, fsNodeCreate, fsNodeMake, sizeT, bind,
          Except.bind, Table.set, fsNodeUndo, fsNodeDestroy, fsNodeDestroyAux, destroyChilds, Except.map] at h
      | true =>
        simp [netdevInit, start, fsRegister, Heap.malloc, h1, h2, h3, fsNodeCreate, fsNodeMake, sizeT, bind,
          Except.bind, Table.set] at h
        rw [← h.2]
        simp only [start, bootFs, Host.mk.injEq, Fs.mk.injEq, and_true, true_and]
        funext a
        simp only [Table.set]
        split_ifs <;> simp_all <;> decide

theorem EspOk.empty (socks : Table Socket) : EspOk ⟨fun _ => none, none⟩ socks :=
  ⟨fun _ _ he => (Option.some_ne_none _ he.symm).elim, fun _ he => (Option.some_ne_none _ he.symm).elim⟩

theorem Host.Inv.register {w w' : Host} {d : NetFamily} {r : Option Addr} (h : w.Inv)
    (hr : netdevRegister w ⟨true, true, true, true, true⟩ d = (r, w')) : w'.Inv := by
  unfold netdevRegister at hr
  split at hr <;> cases hr
  · rename_i hm
    obtain ⟨_, rfl⟩ := malloc_none hm
    exact h.withHeap _ (Nat.le_succ _)
  · rename_i hm
    obtain ⟨_, _, rfl⟩ := malloc_some hm
    refine (h.withHeap _ (Nat.le_succ _)).setDevs _ (fun v hv => ⟨v, List.mem_append_left _ hv, rfl⟩) fun v hv => ?_
    rcases List.mem_append.1 hv with hv | hv
    · exact h.full v hv
    · rw [List.mem_singleton.1 hv]; rfl

theorem esp01Init_inv {w w' : Host} {tty : Bool} {r : ℤ} (hi : w.Inv) (h : esp01Init w tty = (r, w')) (hr : r ≠ -1) :
    w'.Inv := by
  have hheap : ∀ {w : Host} {a : Addr} {hp : Heap}, w.Inv → w.fs.heap.malloc = (some a, hp) → (w.withHeap hp).Inv :=
    fun hw hm => by
      obtain ⟨_, _, rfl⟩ := malloc_some hm
      exact hw.withHeap _ (Nat.le_succ _)
  unfold esp01Init at h
  split at h
  · cases h; exact absurd rfl hr
  · rename_i hm1
    have h1 := hheap hi hm1
    simp only at h
    split_ifs at h
    · cases h; exact absurd rfl hr
    · split at h
      · cases h; exact absurd rfl hr
      · rename_i hm2
        have h2 := hheap h1 hm2
        have h2' : Host.Inv { (Host.withHeap _ _) with esp := ⟨fun _ => none, none⟩ } :=
          ⟨h2.fs, h2.socks, EspOk.empty _, h2.full⟩
        split at h
        · cases h; exact absurd rfl hr
        · rename_i hreg
          have h3 := h2'.register hreg
          split_ifs at h
          · cases h; exact absurd rfl hr
          · cases h; exact h3.setItf _

/-- a module that came up took memory and the line; its links are empty -/
theorem esp01Init_ok {w w' : Host} {tty : Bool} {r : ℤ} (h : esp01Init w tty = (r, w')) (hr : r ≠ -1) :
    ∃ hp vs itf, w.fs.heap.next ≤ hp.next ∧
      w' = { w.withHeap hp with devLst := vs, esp := ⟨fun _ => none, none⟩, itf := itf } := by
  unfold esp01Init at h
  split at h
  · cases h
    exact absurd rfl hr
  · rename_i hm1
    obtain ⟨_, _, rfl⟩ := malloc_some hm1
    simp only at h
    split_ifs at h
    · cases h
      exact absurd rfl hr
    · split at h
      · cases h
        exact absurd rfl hr
      · rename_i hm2
        obtain ⟨_, _, rfl⟩ := malloc_some hm2
        split at h
        · cases h
          exact absurd rfl hr
        · rename_i hreg
          unfold netdevRegister at hreg
          split at hreg <;> cases hreg
          rename_i hm3
          obtain ⟨_, _, rfl⟩ := malloc_some hm3
          split_ifs at h
          · cases h
            exact absurd rfl hr
          · cases h
            exact ⟨_, _, _, Nat.le_add_right _ 3, rfl⟩

theorem start_inv (ok : ℕ → Bool) (junk : Addr → Junk) (ans : ℕ → Res) :
    Host.Inv { start ok junk ans with fs := bootFs ok, netfsId := 0, netRoot := some 2 } where
  fs := bootFs_ok ok
  socks s k hs := by cases hs
  esp := EspOk.empty _
  full v hv := by cases hv

/-- the program came up when both halves did -/
theorem boot_ok {ok : ℕ → Bool} {junk : Addr → Junk} {ans : ℕ → Res} {tty : Bool} {w : Host}
    (h : boot ok junk ans tty = some w) :
    ∃ r, esp01Init { start ok junk ans with fs := bootFs ok, netfsId := 0, netRoot := some 2 } tty = (r, w) ∧ r ≠ -1 := by
  have hneg : ∀ r : ℤ, BitVec.ofInt 32 r = 0 → r ≠ -1 := by
    intro r hr he
    rw [he] at hr; exact absurd hr (by decide)
  unfold boot at h
  split at h
  · cases h
  · rename_i r0 w0 h0
    cases h1 : esp01Init w0 tty with
    | mk r1 w1 =>
      simp only [h1] at h
      split_ifs at h with hz
      obtain ⟨hz0, hz1⟩ := intOr_eq_zero.1 (not_not.1 hz)
      have hr0 : BitVec.ofInt 32 r0 = 0 := by
        rw [intOr, BitVec.ofInt_toInt] at hz0
        exact (BitVec.or_eq_zero_iff.1 hz0).2
      cases h
      exact ⟨r1, netdevInit_start h0 (hneg r0 hr0) ▸ h1, hneg r1 hz1⟩

theorem boot_inv {ok : ℕ → Bool} {junk : Addr → Junk} {ans : ℕ → Res} {tty : Bool} {w : Host}
    (h : boot ok junk ans tty = some w) : w.Inv := by
  obtain ⟨r, hr, hne⟩ := boot_ok h
  exact esp01Init_inv (start_inv ok junk ans) hr hne

/-- what the program came up with: the root and its link to itself, no descriptor, no socket, no link in use -/
structure Booted (w : Host) : Prop where
  nodes : w.fs.nodes = (bootFs w.fs.heap.ok).nodes
  fdLst : w.fs.fdLst = []
  fdCnt : w.fs.fdCnt = 0
  next : 4 ≤ w.fs.heap.next
  netRoot : w.netRoot = some 2
  fdId : w.fdId = 0
  socks : w.socks = fun _ => none
  esp : w.esp = ⟨fun _ => none, none⟩

theorem boot_booted {ok : ℕ → Bool} {junk : Addr → Junk} {ans : ℕ → Res} {tty : Bool} {w : Host}
    (h : boot ok junk ans tty = some w) : Booted w := by
  obtain ⟨r, hr, hne⟩ := boot_ok h
  obtain ⟨hp, vs, itf, hn, rfl⟩ := esp01Init_ok hr hne
  exact ⟨rfl, rfl, rfl, hn, rfl, rfl, rfl, rfl⟩

/-- **The invariant holds in every reachable state.** -/
theorem Reach.inv {w : Host} (h : Reach w) : w.Inv := by
  obtain ⟨ok, junk, ans, tty, w0, ops, hb, hr⟩ := h
  exact Machine.inv_run step_inv (boot_inv hb) hr

/-- what follows on a reachable state is reachable -/
theorem Reach.run {w w' : Host} {ops : List Op} (h : Reach w) (hr : Machine.run step w ops = some w') : Reach w' := by
  obtain ⟨ok, junk, ans, tty, w0, ops0, hb, h0⟩ := h
  exact ⟨ok, junk, ans, tty, w0, ops0 ++ ops, hb, by simp [Machine.run_append, h0, hr]⟩

/-! ## A host to try things on -/

def blankJunk : Junk := ⟨0, ⟨.afInet, ⟨0, 0, 0⟩⟩, ⟨0, 0, 0, []⟩, fun _ => 0, payloadBehind, fun _ => 0, ⟨[], by decide⟩⟩

/-- a program that came up, then ran `ops`: no allocation fails, every answer is OK, fresh memory holds `junk` -/
def sampleRun (junk : Junk) (ops : List Op) : Option Host :=
  (boot (fun _ => true) (fun _ => junk) (fun _ => .ok) true).bind fun w => Machine.run step w ops

theorem sampleRun_reach {junk : Junk} {ops : List Op} (h : (sampleRun junk ops).isSome = true) :
    Reach ((sampleRun junk ops).get h) := by
  obtain ⟨w0, hb, hr⟩ := Option.bind_eq_some_iff.1 (Option.some_get h).symm
  exact ⟨_, _, _, _, w0, ops, hb, hr⟩

def samplePeer : SockAddrInet := ⟨.afInet, ⟨0x0a000001, 80, 0⟩⟩

/-- descriptor 1 listens -/
def serverOps : List Op := [.socket .afInet .stream, .bind 1 samplePeer 12, .listen 1 0]

theorem sampleConn_isSome (type : SockType) :
    (sampleRun blankJunk [.socket .afInet type, .connect 1 samplePeer 12]).isSome = true := by
  cases type <;> decide +kernel

/-- descriptor 1 is a socket connected on link 0 -/
def sampleConn (type : SockType) : Host := (sampleRun blankJunk _).get (sampleConn_isSome type)

theorem sampleConn_reach (type : SockType) : Reach (sampleConn type) := sampleRun_reach _

def sampleSock (type : SockType) : Socket :=
  ⟨some 6, if type = .stream then ringbufInit (List.replicate 32 0) 32 else blankJunk.stream, [], [], type, samplePeer⟩

theorem sampleConn_sock (type : SockType) : (sampleConn type).fdSock 1 = some (7, sampleSock type) := by
  cases type <;> decide +kernel

theorem sampleConn_link (type : SockType) : (sampleConn type).esp.links 0 = some 7 := by
  cases type <;> decide +kernel

/-- the same program with something recorded along: the host it starts from, and what `ops` lead to -/
def sampleFrom {σ : Type} (init : Host → σ) (stp : σ → Op → Option σ) (ops : List Op) : Option (Host × σ) :=
  (boot (fun _ => true) (fun _ => blankJunk) (fun _ => .ok) true).bind fun w =>
    (Machine.run stp (init w) ops).map fun t => (w, t)

theorem sampleFrom_some {σ : Type} {init : Host → σ} {stp : σ → Op → Option σ} {ops : List Op} {w : Host} {t : σ}
    (h : sampleFrom init stp ops = some (w, t)) : boot (fun _ => true) (fun _ => blankJunk) (fun _ => .ok) true = some w ∧
      Machine.run stp (init w) ops = some t := by
  obtain ⟨w0, hb, hr⟩ := Option.bind_eq_some_iff.1 h
  obtain ⟨t0, ht, he⟩ := Option.map_eq_some_iff.1 hr
  cases he
  exact ⟨hb, ht⟩

end EspHostdriver
