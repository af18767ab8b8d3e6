/-
Lean model of the data the network layer works on (`netdev.h`), and of the socket helpers of `net/netdev.c` that the
device driver calls.

`Host` is the whole state of the host program: the file system layer, the sockets, the registered devices, the driver
state of the one ESP01 module that `main` sets up, and the line to it. Following a pointer is `Host.sock` or `Host.dev`;
a null pointer or a dead object is a fault.

Memory from `malloc` has arbitrary content, and the code leaves some fields as they come: `junk` is what the block at an
address holds when it is handed out. It also says how far the block goes beyond what was asked for, because the payload
of a datagram is not put where its block has room for it.

- `netdevSockAlloc_ok`: a successful allocation adds one fresh socket and changes nothing else.
- `netdevSockDisconnect_ok`: a disconnect at most clears the `data` of one node.
-/
import EspHostdriver.Esp01.Command

namespace EspHostdriver

/-! ## Data -/

/-- `sock_type_t` -/
inductive SockType where
  | stream
  | dgram
deriving DecidableEq, Repr

/-- so many bytes of a payload lie behind the block of its datagram: `data` is set to `&dgram->addr` plus 12 elements of
4 bytes, which is byte 88 of a block of 56 bytes and the payload -/
def payloadBehind : ℕ := 32

/-- `datagram_t`; `data` is the payload at the address that the pointer holds -/
structure Datagram where
  len : ℕ
  idx : ℕ
  data : Bytes
  addr : SockAddrInet
deriving DecidableEq, Repr

/-- `socket_t` -/
structure Socket where
  dev : Option Addr
  stream : Ringbuf
  dgrams : List Datagram
  clients : List Addr
  type : SockType
  addr : SockAddrInet
deriving DecidableEq, Repr

/-- `netdev_ops_t`: which operations are set; a set one is the function of the ESP01 driver -/
structure NetdevOps where
  configure : Bool
  connect : Bool
  listen : Bool
  close : Bool
  send : Bool
deriving DecidableEq, Repr

/-- `netdev_t`; `self` is its address -/
structure Netdev where
  self : Addr
  domain : NetFamily
  ops : NetdevOps
  cfg : InetDevCfg
deriving DecidableEq, Repr

/-- `esp_t` -/
structure Esp where
  links : Fin 5 → Option Addr
  tcpServer : Option Addr

/-- memory of the stack that is read as a string: a 0 comes before it is too long for the name of a node -/
structure StackText where
  mem : Bytes
  short : (cstr mem).length ≤ 31

/-- what fresh memory holds: a block, read as the field that the code does not set, and the array for a name. Behind the
block come `spare` bytes that `malloc` gives to nobody else while the block lives, and then any other memory -/
structure Junk where
  idx : ℕ
  addr : SockAddrInet
  stream : Ringbuf
  store : ℕ → UInt8
  spare : ℕ
  behind : ℕ → UInt8
  name : StackText

structure Host where
  fs : Fs
  netfsId : ℤ
  netRoot : Option Addr
  /-- the counter `fd_id` the node names are made of -/
  fdId : ℕ
  devLst : List Netdev
  socks : Table Socket
  esp : Esp
  itf : Serial
  junk : Addr → Junk

/-- `domain_cfg[domain].addr_len` -/
def domainAddrLen : NetFamily → ℕ
  | .afInet => sizeofSockAddrInet

/-- follow a pointer to a socket -/
def Host.sock (w : Host) : Option Addr → Except Fault (Addr × Socket)
  | none => .error .nullSock
  | some s =>
    match w.socks s with
    | none => .error .dangling
    | some k => .ok (s, k)

/-- follow a pointer to a device -/
def Host.dev (w : Host) : Option Addr → Except Fault Netdev
  | none => .error .nullDev
  | some d =>
    match w.devLst.find? fun v => v.self = d with
    | none => .error .dangling
    | some v => .ok v

def Host.node (w : Host) (n : Addr) : Except Fault FsNode :=
  match w.fs.nodes n with
  | none => .error .dangling
  | some nd => .ok nd

def Host.setSock (w : Host) (s : Addr) (k : Socket) : Host := { w with socks := w.socks.set s k }

def Host.withHeap (w : Host) (h : Heap) : Host := { w with fs := { w.fs with heap := h } }

/-! ## Socket helpers of `netdev.c` -/

/-- the 32 bytes of a stream buffer; a failed allocation leaves a null pointer -/
def rxData (w : Host) : Option Addr → Bytes
  | none => []
  | some a => (List.range 32).map (w.junk a).store

def netdevSockAlloc (w : Host) (type : SockType) : Except Fault (Addr × Host) :=
  match w.fs.heap.malloc with
  -- the result is used unchecked
  | (none, _) => .error .nullSock
  | (some s, h) =>
    let sock : Socket := ⟨none, (w.junk s).stream, [], [], type, (w.junk s).addr⟩
    match type with
    | .dgram => .ok (s, (w.withHeap h).setSock s sock)
    | .stream =>
      let (rx, h) := h.malloc
      .ok (s, (w.withHeap h).setSock s { sock with stream := ringbufInit (rxData w rx) 32 })

/-- `list_find(..., data, sock)` -/
def findData (w : Host) (sock : Option Addr) : List Addr → Except Fault (Option Addr)
  | [] => .ok none
  | c :: cs => do
    let nd ← w.node c
    if nd.data = sock then .ok (some c) else findData w sock cs

def netdevSockDisconnect (w : Host) (sock : Option Addr) : Except Fault Host :=
  match w.netRoot with
  | none => .error .nullNode
  | some root => do
    let rn ← w.node root
    let found ← findData w sock rn.childs
    match found with
    | none => .ok w
    | some c => do
      let nd ← w.node c
      .ok { w with fs := { w.fs with nodes := w.fs.nodes.set c { nd with data := none } } }

/-! ## What they may have changed -/

theorem Host.setSock_self (w : Host) (s : Addr) (k : Socket) : (w.setSock s k).socks s = some k := Table.set_self _ _ _

theorem Host.sock_ok {w : Host} {a : Option Addr} {s : Addr} {k : Socket} :
    w.sock a = .ok (s, k) ↔ a = some s ∧ w.socks s = some k := by
  cases a with
  | none => simp [Host.sock]
  | some t =>
    cases h : w.socks t with
    | none => simp only [Host.sock, h, reduceCtorEq, Option.some.injEq, false_iff]; rintro ⟨rfl, hk⟩; simp [h] at hk
    | some k' =>
      simp only [Host.sock, h, Except.ok.injEq, Prod.mk.injEq, Option.some.injEq]
      constructor
      · rintro ⟨rfl, rfl⟩; exact ⟨rfl, h⟩
      · rintro ⟨rfl, hk⟩; rw [h] at hk; exact ⟨rfl, Option.some.inj hk⟩

theorem Host.node_ok {w : Host} {n : Addr} {nd : FsNode} : w.node n = .ok nd ↔ w.fs.nodes n = some nd := by
  cases h : w.fs.nodes n <;> simp [Host.node, h]

theorem Host.dev_ok {w : Host} {a : Option Addr} {v : Netdev} (h : w.dev a = .ok v) :
    v ∈ w.devLst ∧ a = some v.self := by
  cases a with
  | none => simp [Host.dev] at h
  | some d =>
    cases hf : w.devLst.find? (fun v => v.self = d) with
    | none => simp [Host.dev, hf] at h
    | some v' =>
      simp only [Host.dev, hf, Except.ok.injEq] at h
      subst h
      have := List.find?_some hf
      exact ⟨List.mem_of_find?_eq_some hf, by simpa using (of_decide_eq_true this).symm⟩

/-- a device that is registered is found -/
theorem Host.dev_of_mem {w : Host} {v : Netdev} (hv : v ∈ w.devLst) : ∃ v', w.dev (some v.self) = .ok v' := by
  cases hf : w.devLst.find? (fun u => u.self = v.self) with
  | none => have := List.find?_eq_none.1 hf v hv; simp at this
  | some v' => exact ⟨v', by simp [Host.dev, hf]⟩

/-- a stream buffer as `ringbuf_init` leaves it, with or without storage -/
theorem netdevSockAlloc_ok {w w' : Host} {type : SockType} {s : Addr} (h : netdevSockAlloc w type = .ok (s, w')) :
    ∃ k n, s = w.fs.heap.next ∧ 0 < n ∧ k.type = type ∧ k.dev = none ∧ k.clients = [] ∧ k.dgrams = [] ∧
      (type = .stream → ∃ d, k.stream = ringbufInit d 32 ∧ (d.length = 32 ∨ d = [])) ∧
      w' = (w.withHeap { w.fs.heap with next := w.fs.heap.next + n }).setSock s k := by
  unfold netdevSockAlloc at h
  split at h
  · cases h
  · rename_i s' h' hm
    obtain ⟨rfl, _, rfl⟩ := malloc_some hm
    cases type with
    | dgram =>
      simp only [Except.ok.injEq, Prod.mk.injEq] at h
      obtain ⟨rfl, rfl⟩ := h
      exact ⟨_, 1, rfl, by omega, rfl, rfl, rfl, rfl, by simp, rfl⟩
    | stream =>
      simp only [Heap.malloc, Except.ok.injEq, Prod.mk.injEq] at h
      obtain ⟨rfl, rfl⟩ := h
      refine ⟨_, 2, rfl, by omega, rfl, rfl, rfl, rfl, fun _ => ⟨_, rfl, ?_⟩, rfl⟩
      split_ifs
      · exact Or.inl (by simp [rxData])
      · exact Or.inr rfl

theorem findData_some {w : Host} {sock : Option Addr} {cs : List Addr} {c : Addr}
    (h : findData w sock cs = .ok (some c)) : c ∈ cs ∧ ∃ nd, w.fs.nodes c = some nd ∧ nd.data = sock := by
  induction cs with
  | nil => cases h
  | cons a cs ih =>
    obtain ⟨nd, hn, h⟩ := bind_ok.1 h
    split_ifs at h with hd
    · cases h; exact ⟨List.mem_cons_self, nd, Host.node_ok.1 hn, hd⟩
    · obtain ⟨hm, hx⟩ := ih h; exact ⟨List.mem_cons_of_mem _ hm, hx⟩

theorem findData_none {w : Host} {sock : Option Addr} {cs : List Addr} (h : findData w sock cs = .ok none) :
    ∀ c ∈ cs, (w.fs.nodes c).bind FsNode.data ≠ sock := by
  induction cs with
  | nil => exact fun _ hc => (List.not_mem_nil hc).elim
  | cons a cs ih =>
    obtain ⟨nd, hn, h⟩ := bind_ok.1 h
    split_ifs at h with hd
    · cases h
    · intro c hc
      rcases List.mem_cons.1 hc with rfl | hc
      · rwa [Host.node_ok.1 hn]
      · exact ih h c hc

/-- a disconnect at most clears the `data` of one node that held the socket -/
theorem netdevSockDisconnect_ok {w w' : Host} {sock : Option Addr} (h : netdevSockDisconnect w sock = .ok w') :
    w' = w ∨ ∃ c nd, w.fs.nodes c = some nd ∧ nd.data = sock ∧
      w' = { w with fs := { w.fs with nodes := w.fs.nodes.set c { nd with data := none } } } := by
  unfold netdevSockDisconnect at h
  split at h
  · cases h
  · obtain ⟨rn, _, h⟩ := bind_ok.1 h
    obtain ⟨found, hf, h⟩ := bind_ok.1 h
    cases found with
    | none => cases h; exact Or.inl rfl
    | some c =>
      obtain ⟨nd, hn, h⟩ := bind_ok.1 h
      cases h
      obtain ⟨_, nd', hn', hd⟩ := findData_some hf
      rw [Host.node_ok] at hn
      rw [hn] at hn'; cases hn'
      exact Or.inr ⟨c, nd, hn, hd, rfl⟩

end EspHostdriver
