/-
Lean model of the socket calls (`net/netdev.c`) and of how the program sets itself up (`netdev_init`, `esp01_init`).

Each call is written in the order of the C code: which pointer is followed when, and which of them is checked before.
Following a null pointer ends the call with the fault of that pointer. The devices are the ESP01 driver's, so a call
through `dev->ops` is the driver's function of that name.

A call that hands out data returns a `Ret`: its value, the bytes copied to the caller, the address copied to the caller
with the length written back.

- `itoa_eq_text`: a number is written in its base as long as the digits have a place.
- `assignNetdev_ok`, `openFd_ok`: everything the two shared pieces may have changed.
- `bosConnect_ok`, `bosSendto_ok`, `bosListen_ok`, `bosAccept_ok`: the same for a call that returned.
-/
import EspHostdriver.Core.Numeral
import EspHostdriver.Esp01.Driver

namespace EspHostdriver

/-! ## Model: helpers -/

structure Ret where
  val : ℤ
  data : Bytes
  addr : Option (Bytes × ℕ)
deriving DecidableEq, Repr

/-- a return without data -/
def Ret.of (v : ℤ) : Ret := ⟨v, [], none⟩

/-- a return without the memory that a longer copy of an address goes on in -/
def Ret.known (r : Ret) : Ret := { r with addr := r.addr.map fun a => (a.1.take 12, a.2) }

/-- the digits of `v`, the last one first; `none` when `len` places are too few -/
def itoaDigits (base : ℕ) : ℕ → ℕ → Option Bytes
  | 0, _ => none
  | len + 1, v =>
    let d := v % base % 0xff
    let c := UInt8.ofNat (if d < 10 then 48 + d else 97 + d - 10)
    if v / base = 0 then some [c] else (itoaDigits base len (v / base)).map (c :: ·)

def itoa (v base len : ℕ) : Option Bytes := (itoaDigits base len v).map List.reverse

/-- the name of a new node; a number that does not fit leaves the array as it was -/
def nodeName (w : Host) (v : ℕ) : Bytes := (itoa v 10 8).getD (cstr (w.junk w.fs.heap.next).name.mem)

/-- `memcpy` of `n` bytes out of a socket address; a longer copy goes on in the memory behind it -/
def copyAddr (w : Host) (a : SockAddrInet) (n : ℕ) : Bytes :=
  a.bytes.take n ++ (List.range (n - a.bytes.length)).map (w.junk w.fs.heap.next).behind

/-- the copy of an address to a caller that asks for one: the bytes, and the length written back -/
def giveAddr (w : Host) (a : SockAddrInet) (len : ℕ) (want : Option ℕ) : Option (Bytes × ℕ) :=
  want.map fun n => (copyAddr w a n, len)

/-- `fd->node->data` -/
def Host.fdData (w : Host) : Option FsFiled → Except Fault (Option Addr)
  | none => .error .nullFd
  | some fd => do let nd ← w.node fd.node; .ok nd.data

def assignNetdev (w : Host) (sock : Option Addr) (addr : SockAddrInet) (addrLen : ℕ) : Except Fault (ℤ × Host) := do
  let (s, k) ← w.sock sock
  if addrLen ≠ domainAddrLen k.addr.domain then .ok (-1, w)
  else match w.devLst.find? fun v => v.domain = addr.domain ∧ inetMatchAddr v.cfg addr addrLen with
    | none => .ok (-1, w)
    | some v => .ok (0, w.setSock s { k with dev := some v.self, addr := addr })

/-- the end of `bos_socket` and `bos_accept`: a node for the socket and a descriptor for the node -/
def openFd (w : Host) (name : Bytes) (s : Addr) : Except Fault (ℤ × Host) := do
  let (node, fs) ← fsNodeCreate w.fs w.netRoot name (cstr name).length .reg (some s) w.netfsId
  let (fd, fs) ← fsFdAlloc fs node oRdwr 0
  match fd with
  | none => .error .nullFd
  | some fd => .ok (fd.id, { w with fs := fs })

/-! ## Model: socket calls -/

/-- `sizeof(inet_dev_cfg_t)` -/
def sizeofInetDevCfg : ℕ := 56

/-- `domain_cfg[domain].cfg_size` -/
def domainCfgSize : NetFamily → ℕ
  | .afInet => sizeofInetDevCfg

/-- `strs` is the memory that the strings lie in -/
def bosNetConfigure (w : Host) (strs : Addr → Bytes) (cfg : InetDevCfg) (cfgSize : ℕ) : Except Fault (ℤ × Host) :=
  match w.devLst with
  | [] => .error .nullDev
  | v :: vs =>
    if cfgSize ≠ domainCfgSize v.domain then .ok (-1, w)
    else espConfigure { w with devLst := { v with cfg := cfg } :: vs } strs cfg

def bosSocket (w : Host) (domain : NetFamily) (type : SockType) : Except Fault (ℤ × Host) := do
  let (s, w) ← netdevSockAlloc w type
  let (_, k) ← w.sock (some s)
  let w := { w.setSock s { k with addr := { k.addr with domain := domain } } with fdId := w.fdId + 1 }
  openFd w (nodeName w w.fdId) s

def bosConnect (w : Host) (fdId : ℤ) (addr : SockAddrInet) (addrLen : ℕ) : Except Fault (ℤ × Host) :=
  match fsFdAcquire w.fs fdId with
  | none => .ok (-1, w)
  | some fd => do
    let data ← w.fdData (some fd)
    let (s, k) ← w.sock data
    if k.dev ≠ none then .ok (-1, w)
    else do
      let (r, w) ← assignNetdev w (some s) addr addrLen
      if r ≠ 0 then .ok (-1, w)
      else do
        let (_, k) ← w.sock (some s)
        let v ← w.dev k.dev
        if v.ops.connect then espConnect w s else .ok (-1, w)

def bosBind (w : Host) (fdId : ℤ) (addr : SockAddrInet) (addrLen : ℕ) : Except Fault (ℤ × Host) := do
  let data ← w.fdData (fsFdAcquire w.fs fdId)
  assignNetdev w data addr addrLen

def bosListen (w : Host) (fdId backlog : ℤ) : Except Fault (ℤ × Host) := do
  let data ← w.fdData (fsFdAcquire w.fs fdId)
  let (s, k) ← w.sock data
  if k.type ≠ .stream then .ok (-1, w)
  else if k.dev = none then .ok (-1, w)
  else do
    let v ← w.dev k.dev
    if v.ops.listen then espListen w s backlog else .ok (-1, w)

/-- `want` is `*addr_len` when the caller passed both pointers -/
def bosAccept (w : Host) (fdId : ℤ) (want : Option ℕ) : Except Fault (Ret × Host) := do
  let data ← w.fdData (fsFdAcquire w.fs fdId)
  let (s, k) ← w.sock data
  if k.type ≠ .stream then .ok (.of (-1), w)
  else if k.dev = none then .ok (.of (-1), w)
  else match k.clients with
    | [] => .ok (.of (-1), w)
    | cl :: cls => do
      let (cl, ck) ← w.sock (some cl)
      let given := giveAddr w ck.addr (domainAddrLen ck.addr.domain) want
      let w := (w.setSock cl { ck with dev := k.dev })
      let (s, k) ← w.sock (some s)
      let w := w.setSock s { k with clients := cls }
      -- the parameter `fd_id` is counted up, not the static counter
      let (r, w) ← openFd w (nodeName w (fdId + 1).toNat) cl
      .ok (⟨r, [], given⟩, w)

/-- the device a datagram or stream is sent through; `none` is the way to `end` -/
def sendtoDev (w : Host) (s : Addr) (k : Socket) (addr : Option SockAddrInet) (addrLen : ℕ) :
    Except Fault (Option (Option Addr) × Host) :=
  match k.type, addr with
  | .stream, none => .ok (if k.dev = none then none else some k.dev, w)
  | .stream, some _ => .ok (none, w)
  | .dgram, none => .ok (if k.dev = none then none else some k.dev, w)
  | .dgram, some addr =>
    if addrLen ≠ domainAddrLen k.addr.domain then .ok (none, w)
    else do
      let (r, w) ← assignNetdev w (some s) addr addrLen
      if r ≠ 0 then .ok (none, w)
      else do
        let (_, k) ← w.sock (some s)
        .ok (some k.dev, w)

/-- `mem` is the memory from `data` on -/
def bosSendto (w : Host) (fdId : ℤ) (mem : Bytes) (dataLen : ℕ) (addr : Option SockAddrInet) (addrLen : ℕ) :
    Except Fault (ℤ × Host) := do
  let data ← w.fdData (fsFdAcquire w.fs fdId)
  if data = none then .ok (-1, w)
  else do
    let (s, k) ← w.sock data
    let (dev, w) ← sendtoDev w s k addr addrLen
    match dev with
    | none => .ok (-1, w)
    | some dev => do
      let v ← w.dev dev
      if v.ops.send then do
        let (r, w) ← espSend w s mem dataLen
        -- the result goes through an `int`
        .ok (toInt32 r, w)
      else .ok (-1, w)

def bosSend (w : Host) (fdId : ℤ) (mem : Bytes) (dataLen : ℕ) : Except Fault (ℤ × Host) :=
  bosSendto w fdId mem dataLen none 0

/-- the bytes one read takes from a datagram, and its index afterwards -/
def readDgram (d : Datagram) (dataLen : ℕ) : Except Fault (Bytes × ℕ) :=
  let n := min dataLen (sizeT (d.len - d.idx))
  if d.idx + n ≤ d.data.length then .ok ((d.data.drop d.idx).take n, sizeT (d.idx + n)) else .error .overread

/-- `want` is `*addr_len` when the caller passed both pointers -/
def bosRecvfrom (w : Host) (fdId : ℤ) (dataLen : ℕ) (want : Option ℕ) : Except Fault (Ret × Host) := do
  let data ← w.fdData (fsFdAcquire w.fs fdId)
  if data = none then .ok (.of (-1), w)
  else do
    let (s, k) ← w.sock data
    match k.type with
    | .dgram =>
      match k.dgrams with
      | [] => .ok (.of 0, w)
      | d :: ds => do
        let given := giveAddr w d.addr (domainAddrLen k.addr.domain) want
        let (b, idx) ← readDgram d dataLen
        .ok (⟨toInt64 b.length, b, given⟩,
          w.setSock s { k with dgrams := if idx = d.len then ds else { d with idx := idx } :: ds })
    | .stream =>
      let (b, ring) := ringbufRead k.stream dataLen
      if b ≠ [] ∧ k.stream.data = [] then .error .nullStore
      else .ok (⟨toInt64 b.length, b, none⟩, w.setSock s { k with stream := ring })

def bosRecv (w : Host) (fdId : ℤ) (dataLen : ℕ) : Except Fault (Ret × Host) := bosRecvfrom w fdId dataLen none

def bosClose (w : Host) (fdId : ℤ) : Except Fault (ℤ × Host) :=
  match fsFdAcquire w.fs fdId with
  | none => .ok (-1, w)
  | some fd => do
    let data ← w.fdData (some fd)
    if data = none then .ok (0, w)
    else do
      let (s, k) ← w.sock data
      if k.dev = none then .ok (0, w)
      else do
        let v ← w.dev k.dev
        let (r, w) ← (if v.ops.close then espClose w s else .ok (-1, w))
        if r = 0 then do
          -- the result is not looked at
          let (_, fs) ← fsNodeDestroy w.fs fd.node
          .ok (r, { w with fs := fs })
        else .ok (r, w)

/-- the socket a descriptor leads to, when there is one -/
def Host.fdSock (w : Host) (fdId : ℤ) : Option (Addr × Socket) := do
  let fd ← fsFdAcquire w.fs fdId
  let nd ← w.fs.nodes fd.node
  let s ← nd.data
  let k ← w.socks s
  some (s, k)

/-! ## Model: setting up -/

def netdevInit (w : Host) : Except Fault (ℤ × Host) :=
  let (id, fs) := fsRegister w.fs (some ⟨true, true⟩)
  let w := { w with fs := fs, netfsId := id }
  if id = -1 then .ok (-1, w)
  else do
    let (root, fs) ← fsNodeCreate w.fs none (str "socket") 6 .dir none id
    let w := { w with fs := fs, netRoot := root }
    .ok (if root = none then -1 else 0, w)

/-- `memset(&dev->cfg, 0x0, cfg_size)` -/
def zeroCfg : InetDevCfg := ⟨0, none, none, false, 0, 0, 0, .open, none⟩

def netdevRegister (w : Host) (ops : NetdevOps) (domain : NetFamily) : Option Addr × Host :=
  match w.fs.heap.malloc with
  | (none, h) => (none, w.withHeap h)
  | (some a, h) => (some a, { w.withHeap h with devLst := w.devLst ++ [⟨a, domain, ops, zeroCfg⟩] })

def netdevRelease (w : Host) (dev : Addr) : Host := { w with devLst := w.devLst.filter fun v => v.self ≠ dev }

/-- `tty` says whether the serial line could be opened and set up -/
def esp01Init (w : Host) (tty : Bool) : ℤ × Host :=
  match w.fs.heap.malloc with
  | (none, h) => (-1, w.withHeap h)
  | (some _, h) =>
    let w := w.withHeap h
    if !tty then (-1, w)
    else match w.fs.heap.malloc with
      | (none, h) => (-1, w.withHeap h)
      | (some _, h) =>
        let w := { w.withHeap h with esp := ⟨fun _ => none, none⟩ }
        match netdevRegister w ⟨true, true, true, true, true⟩ .afInet with
        | (none, w) => (-1, w)
        | (some dev, w) =>
          let (r0, itf) := serialCmd w.itf (str "AT+RST") (some (str "ready"))
          let (r1, itf) := serialCmd itf (str "AT+CIPMUX=1") none
          let w := { w with itf := itf }
          if intOr (intOr 0 r0) r1 ≠ 0 then (-1, netdevRelease w dev) else (0, w)

/-- the program before it runs: the zero state, and what the outside will do -/
def start (ok : ℕ → Bool) (junk : Addr → Junk) (ans : ℕ → Res) : Host :=
  ⟨⟨⟨ok, 1⟩, [], [], 0, fun _ => none⟩, -1, none, 0, [], fun _ => none, ⟨fun _ => none, none⟩, ⟨[], none, ans, 0⟩, junk⟩

/-- the state of a program that came up; `main` gives up otherwise -/
def boot (ok : ℕ → Bool) (junk : Addr → Junk) (ans : ℕ → Res) (tty : Bool) : Option Host :=
  match netdevInit (start ok junk ans) with
  | .error _ => none
  | .ok (r0, w) =>
    let (r1, w) := esp01Init w tty
    if intOr (intOr 0 r0) r1 ≠ 0 then none else some w

/-! ## Numbers as names -/

section Itoa

open Numeral

variable {b : ℕ}

/-- the digits that the divisions leave, the last one first -/
theorem itoaDigits_eq (h2 : 2 ≤ b) (hb : b ≤ 36) (n len : ℕ) :
    itoaDigits b len n = if (digits b n).length ≤ len then some ((digits b n).map digitChar) else none := by
  induction len generalizing n with
  | zero =>
    have := digits_pos h2 n
    rw [if_neg (by omega), itoaDigits]
  | succ len ih =>
    have hlt := Nat.mod_lt n (show b > 0 by omega)
    have hd : n % b % 0xff = n % b := Nat.mod_eq_of_lt (by omega)
    rw [itoaDigits, digits_step h2, hd]
    by_cases hq : n / b = 0
    · simp [hq, digitChar]
    · rw [if_neg hq, if_neg hq, ih]
      simp only [List.length_cons, Nat.add_le_add_iff_right, List.map_cons, digitChar]
      by_cases hfit : (digits b (n / b)).length ≤ len
      · rw [if_pos hfit, if_pos hfit]
        rfl
      · rw [if_neg hfit, if_neg hfit]
        rfl

theorem itoa_eq_text (h2 : 2 ≤ b) (hb : b ≤ 36) (n len : ℕ) :
    itoa n b len = if (digits b n).length ≤ len then some (text b n) else none := by
  rw [itoa, itoaDigits_eq h2 hb]
  split_ifs
  · rfl
  · rfl

/-- a name holds the numbers of up to 8 digits, in decimal -/
theorem itoa_eq_dec {v : ℕ} (h : v < 10 ^ 8) : itoa v 10 8 = some (dec v) := by
  have hfit : (digits 10 v).length ≤ 8 := (digits_length_le (by norm_num) (by norm_num) v).2 h
  rw [itoa_eq_text (by norm_num) (by norm_num), if_pos hfit, text_ten]

theorem itoa_eq_none {v : ℕ} (h : 10 ^ 8 ≤ v) : itoa v 10 8 = none := by
  have hlong : ¬ (digits 10 v).length ≤ 8 := by
    rw [digits_length_le (by norm_num) (by norm_num)]
    exact not_lt.2 h
  rw [itoa_eq_text (by norm_num) (by norm_num), if_neg hlong]

end Itoa

/-! ## What the shared pieces may have changed -/

theorem Host.fdData_ok {w : Host} {fd : Option FsFiled} {d : Option Addr} (h : w.fdData fd = .ok d) :
    ∃ f nd, fd = some f ∧ w.fs.nodes f.node = some nd ∧ nd.data = d := by
  cases fd with
  | none => cases h
  | some f =>
    obtain ⟨nd, hn, h⟩ := bind_ok.1 h
    cases h
    exact ⟨f, nd, rfl, Host.node_ok.1 hn, rfl⟩

theorem Host.fdData_some {w : Host} {fd : FsFiled} {nd : FsNode} (h : w.fs.nodes fd.node = some nd) :
    w.fdData (some fd) = .ok nd.data := bind_ok.2 ⟨nd, Host.node_ok.2 h, rfl⟩

theorem Host.fdSock_some {w : Host} {fdId : ℤ} {s : Addr} {k : Socket} :
    w.fdSock fdId = some (s, k) ↔ ∃ fd nd, fsFdAcquire w.fs fdId = some fd ∧ w.fs.nodes fd.node = some nd ∧
      nd.data = some s ∧ w.socks s = some k := by
  simp only [Host.fdSock, Option.bind_eq_bind, Option.bind_eq_some_iff, Option.some.injEq, Prod.mk.injEq]
  constructor
  · rintro ⟨fd, h1, nd, h2, s', h3, k', h4, rfl, rfl⟩
    exact ⟨fd, nd, h1, h2, h3, h4⟩
  · rintro ⟨fd, nd, h1, h2, h3, h4⟩
    exact ⟨fd, h1, nd, h2, s, h3, k, h4, rfl, rfl⟩

theorem fdData_of_fdSock {w : Host} {fdId : ℤ} {s : Addr} {k : Socket} (h : w.fdSock fdId = some (s, k)) :
    w.fdData (fsFdAcquire w.fs fdId) = .ok (some s) := by
  obtain ⟨fd, nd, hf, hn, hd, _⟩ := Host.fdSock_some.1 h
  rw [hf, Host.fdData_some hn, hd]

theorem sock_of_fdSock {w : Host} {fdId : ℤ} {s : Addr} {k : Socket} (h : w.fdSock fdId = some (s, k)) :
    w.socks s = some k := by
  obtain ⟨_, _, _, _, _, hk⟩ := Host.fdSock_some.1 h
  exact hk

/-- the socket a call works on is the one its descriptor leads to -/
theorem fdSock_of_ok {w : Host} {fdId : ℤ} {s : Addr} {k : Socket} {d : Option Addr}
    (hd : w.fdData (fsFdAcquire w.fs fdId) = .ok d) (hs : w.sock d = .ok (s, k)) : w.fdSock fdId = some (s, k) := by
  obtain ⟨fd, nd, hf, hn, rfl⟩ := Host.fdData_ok hd
  obtain ⟨hd, hk⟩ := Host.sock_ok.1 hs
  exact Host.fdSock_some.2 ⟨fd, nd, hf, hn, hd, hk⟩

/-- a socket that is written is found again -/
theorem fdSock_setSock {w w' : Host} {fdId : ℤ} {s : Addr} {k : Socket} (k' : Socket) (h : w.fdSock fdId = some (s, k))
    (hfd : w'.fs.fdLst = w.fs.fdLst) (hn : w'.fs.nodes = w.fs.nodes) : (w'.setSock s k').fdSock fdId = some (s, k') := by
  obtain ⟨fd, nd, h1, h2, h3, _⟩ := Host.fdSock_some.1 h
  refine Host.fdSock_some.2 ⟨fd, nd, ?_, ?_, h3, Table.set_self _ _ _⟩
  · rw [← h1]; simp only [fsFdAcquire, Host.setSock, hfd]
  · rw [← h2]; simp only [Host.setSock, hn]

theorem assignNetdev_ok {w w' : Host} {sock : Option Addr} {addr : SockAddrInet} {addrLen : ℕ} {r : ℤ}
    (h : assignNetdev w sock addr addrLen = .ok (r, w')) :
    ∃ s k, sock = some s ∧ w.socks s = some k ∧ ((r = -1 ∧ w' = w) ∨
      ∃ v ∈ w.devLst, r = 0 ∧ w' = w.setSock s { k with dev := some v.self, addr := addr }) := by
  obtain ⟨⟨s, k⟩, hs, h⟩ := bind_ok.1 h
  obtain ⟨hsock, hk⟩ := Host.sock_ok.1 hs
  refine ⟨s, k, hsock, hk, ?_⟩
  simp only at h
  split_ifs at h
  · cases h; exact Or.inl ⟨rfl, rfl⟩
  · split at h
    · cases h; exact Or.inl ⟨rfl, rfl⟩
    · rename_i v hv
      cases h; exact Or.inr ⟨v, List.mem_of_find?_eq_some hv, rfl, rfl⟩

/-- a descriptor that was opened belongs to a fresh node below the root -/
theorem openFd_ok {w w' : Host} {name : Bytes} {s : Addr} {r : ℤ} (h : openFd w name s = .ok (r, w')) :
    ∃ n fs1 fd fs2,
      fsNodeMake w.fs w.netRoot name (cstr name).length .reg (some s) w.netfsId = .ok (some n, fs1) ∧
      fsFdAlloc fs1 (some n) oRdwr 0 = .ok (some fd, fs2) ∧ r = fd.id ∧ w' = { w with fs := fs2 } := by
  obtain ⟨⟨n, fs1⟩, h1, h⟩ := bind_ok.1 h
  rw [fsNodeCreate_leaf (by decide)] at h1
  obtain ⟨⟨fd, fs2⟩, h2, h⟩ := bind_ok.1 h
  cases fd with
  | none => cases h
  | some fd =>
    cases h
    cases n with
    | none =>
      rcases fsFdAlloc_ok h2 with ⟨hx, _⟩ | ⟨n, _, _, hx, _⟩ <;> cases hx
    | some n => exact ⟨n, fs1, fd, fs2, h1, h2, rfl, rfl⟩

/-! ## What the calls may have changed -/

section Calls

variable {w w' : Host} {fdId : ℤ}

/-- a connect returns early, after it has assigned a device, or with the driver's result -/
theorem bosConnect_ok {addr : SockAddrInet} {addrLen : ℕ} {r : ℤ} (h : bosConnect w fdId addr addrLen = .ok (r, w')) :
    w' = w ∨ ∃ s k r1 w1, w.fdSock fdId = some (s, k) ∧ k.dev = none ∧
      assignNetdev w (some s) addr addrLen = .ok (r1, w1) ∧ (w' = w1 ∨ r1 = 0 ∧ ∃ k1 v, w1.socks s = some k1 ∧
        w1.dev k1.dev = .ok v ∧ espConnect w1 s = .ok (r, w')) := by
  unfold bosConnect at h
  split at h
  · cases h
    exact Or.inl rfl
  · rename_i fd hfd
    obtain ⟨d, hd, h⟩ := bind_ok.1 h
    obtain ⟨⟨s, k⟩, hs, h⟩ := bind_ok.1 h
    have hfs : w.fdSock fdId = some (s, k) := fdSock_of_ok (hfd ▸ hd) hs
    simp only at h
    split_ifs at h with hdev
    · cases h
      exact Or.inl rfl
    · obtain ⟨⟨r1, w1⟩, ha, h⟩ := bind_ok.1 h
      refine Or.inr ⟨s, k, r1, w1, hfs, not_not.1 hdev, ha, ?_⟩
      simp only at h
      split_ifs at h with h0
      · cases h
        exact Or.inl rfl
      · obtain ⟨⟨s', k1⟩, hs1, h⟩ := bind_ok.1 h
        obtain ⟨hx, hk1⟩ := Host.sock_ok.1 hs1
        cases hx
        obtain ⟨v, hv, h⟩ := bind_ok.1 h
        split_ifs at h
        · exact Or.inr ⟨not_not.1 h0, k1, v, hk1, hv, h⟩
        · cases h
          exact Or.inl rfl

/-- a send returns early, after it has chosen a device, or with what the driver wrote -/
theorem bosSendto_ok {mem : Bytes} {n : ℕ} {addr : Option SockAddrInet} {addrLen : ℕ} {r : ℤ}
    (h : bosSendto w fdId mem n addr addrLen = .ok (r, w')) : w' = w ∨ ∃ s k dev w1, w.fdSock fdId = some (s, k) ∧
      sendtoDev w s k addr addrLen = .ok (dev, w1) ∧ (w' = w1 ∨ ∃ r1, espSend w1 s mem n = .ok (r1, w')) := by
  obtain ⟨d, hd, h⟩ := bind_ok.1 h
  split_ifs at h
  · cases h
    exact Or.inl rfl
  · obtain ⟨⟨s, k⟩, hs, h⟩ := bind_ok.1 h
    obtain ⟨⟨dev, w1⟩, hdev, h⟩ := bind_ok.1 h
    refine Or.inr ⟨s, k, dev, w1, fdSock_of_ok hd hs, hdev, ?_⟩
    cases dev with
    | none =>
      cases h
      exact Or.inl rfl
    | some dev =>
      obtain ⟨v, _, h⟩ := bind_ok.1 h
      split_ifs at h
      · obtain ⟨⟨r1, w2⟩, he, h⟩ := bind_ok.1 h
        cases h
        exact Or.inr ⟨r1, he⟩
      · cases h
        exact Or.inl rfl

/-- a listen that is refused writes at most its line, another one makes the socket the server -/
theorem bosListen_ok {backlog r : ℤ} (h : bosListen w fdId backlog = .ok (r, w')) : ∃ s k, w.fdSock fdId = some (s, k) ∧
    (r = -1 ∧ (w' = w ∨ ∃ ws, w' = { w with itf := w.itf.sent ws }) ∨
      r = 0 ∧ k.type = .stream ∧ k.dev ≠ none ∧ w.esp.tcpServer = none ∧
        ∃ ws, w' = { w with itf := w.itf.sent ws, esp := { w.esp with tcpServer := some s } }) := by
  obtain ⟨d, hd, h⟩ := bind_ok.1 h
  obtain ⟨⟨s, k⟩, hs, h⟩ := bind_ok.1 h
  refine ⟨s, k, fdSock_of_ok hd hs, ?_⟩
  simp only at h
  split_ifs at h with ht hdev
  · cases h
    exact Or.inl ⟨rfl, Or.inl rfl⟩
  · cases h
    exact Or.inl ⟨rfl, Or.inl rfl⟩
  · obtain ⟨v, hv, h⟩ := bind_ok.1 h
    split_ifs at h
    · rcases espListen_cases (Host.sock_ok.1 hs).2 hv backlog with ⟨_, he⟩ | ⟨ws, _, hn, he⟩
      · rw [he] at h
        cases h
        exact Or.inl ⟨rfl, Or.inl rfl⟩
      · rw [he] at h
        split_ifs at h <;> cases h
        · exact Or.inr ⟨rfl, not_not.1 ht, hdev, hn, ws, rfl⟩
        · exact Or.inl ⟨rfl, Or.inr ⟨ws, rfl⟩⟩
    · cases h
      exact Or.inl ⟨rfl, Or.inl rfl⟩

/-- an accept finds no client to take, or takes the first one, gives it the server's device and opens it -/
theorem bosAccept_ok {want : Option ℕ} {r : Ret} (h : bosAccept w fdId want = .ok (r, w')) :
    ∃ s k, w.fdSock fdId = some (s, k) ∧ ((k.type = .stream → k.dev ≠ none → k.clients = []) ∧ w' = w ∨
      ∃ cl cls ck k2, k.type = .stream ∧ k.dev ≠ none ∧ k.clients = cl :: cls ∧ w.socks cl = some ck ∧
        (w.setSock cl { ck with dev := k.dev }).socks s = some k2 ∧
        openFd ((w.setSock cl { ck with dev := k.dev }).setSock s { k2 with clients := cls })
          (nodeName ((w.setSock cl { ck with dev := k.dev }).setSock s { k2 with clients := cls }) (fdId + 1).toNat)
          cl = .ok (r.val, w')) := by
  obtain ⟨d, hd, h⟩ := bind_ok.1 h
  obtain ⟨⟨s, k⟩, hs, h⟩ := bind_ok.1 h
  refine ⟨s, k, fdSock_of_ok hd hs, ?_⟩
  simp only at h
  split_ifs at h with ht hdev
  · cases h
    exact Or.inl ⟨fun hx => absurd hx ht, rfl⟩
  · cases h
    exact Or.inl ⟨fun _ hx => absurd hdev hx, rfl⟩
  · cases hcl : k.clients with
    | nil =>
      simp only [hcl] at h
      cases h
      exact Or.inl ⟨fun _ _ => rfl, rfl⟩
    | cons cl cls =>
      simp only [hcl] at h
      obtain ⟨⟨cl', ck⟩, hc, h⟩ := bind_ok.1 h
      obtain ⟨hx, hck⟩ := Host.sock_ok.1 hc
      cases hx
      obtain ⟨⟨s', k2⟩, hs2, h⟩ := bind_ok.1 h
      obtain ⟨hx, hk2⟩ := Host.sock_ok.1 hs2
      cases hx
      obtain ⟨⟨id, w1⟩, ho, h⟩ := bind_ok.1 h
      cases h
      exact Or.inr ⟨cl, cls, ck, k2, not_not.1 ht, hdev, rfl, hck, hk2, ho⟩

end Calls

/-! ## What a read returns -/

/-- a copy of at most an address is of nothing else -/
theorem copyAddr_of_le (w : Host) (a : SockAddrInet) {n : ℕ} (h : n ≤ 12) : copyAddr w a n = a.bytes.take n := by
  rw [copyAddr, SockAddrInet.bytes_length, Nat.sub_eq_zero_of_le h]
  exact List.append_nil _

/-- a longer one begins with the whole address -/
theorem take_copyAddr (w : Host) (a : SockAddrInet) (n : ℕ) : (copyAddr w a n).take 12 = a.bytes.take n := by
  by_cases h : n ≤ 12
  · rw [copyAddr_of_le w a h, List.take_take, Nat.min_eq_right h]
  · have hall : a.bytes.take n = a.bytes := List.take_of_length_le (by rw [SockAddrInet.bytes_length]; omega)
    rw [copyAddr, hall]
    exact List.take_left' a.bytes_length

theorem giveAddr_known (w : Host) (a : SockAddrInet) (len : ℕ) (want : Option ℕ) :
    (giveAddr w a len want).map (fun g => (g.1.take 12, g.2)) = want.map fun n => (a.bytes.take n, len) := by
  cases want with
  | none => rfl
  | some n => simp only [giveAddr, Option.map_some, take_copyAddr]

theorem giveAddr_of_le (w : Host) (a : SockAddrInet) (len : ℕ) {want : Option ℕ} (h : ∀ n ∈ want, n ≤ 12) :
    giveAddr w a len want = want.map fun n => (a.bytes.take n, len) := by
  cases want with
  | none => rfl
  | some n => rw [giveAddr, Option.map_some, Option.map_some, copyAddr_of_le w a (h n rfl)]

section Recv

variable {w : Host} {fdId : ℤ} {fd : FsFiled} {nd : FsNode}

theorem bosRecvfrom_closed (hf : fsFdAcquire w.fs fdId = some fd) (hn : w.fs.nodes fd.node = some nd)
    (hd : nd.data = none) (n : ℕ) (want : Option ℕ) : bosRecvfrom w fdId n want = .ok (.of (-1), w) := by
  refine bind_ok.2 ⟨none, ?_, rfl⟩
  rw [hf, Host.fdData_some hn, hd]

variable {s : Addr} {k : Socket}

theorem bosRecvfrom_stream (hs : w.fdSock fdId = some (s, k)) (ht : k.type = .stream) (n : ℕ) (want : Option ℕ) :
    bosRecvfrom w fdId n want =
      if (ringbufRead k.stream n).1 ≠ [] ∧ k.stream.data = [] then .error .nullStore
      else .ok (⟨toInt64 (ringbufRead k.stream n).1.length, (ringbufRead k.stream n).1, none⟩,
        w.setSock s { k with stream := (ringbufRead k.stream n).2 }) := by
  obtain ⟨fd, nd, hf, hn, hd, hk⟩ := Host.fdSock_some.1 hs
  simp only [bosRecvfrom, hf, Host.fdData_some hn, hd, reduceCtorEq, if_false, Host.sock_ok.2 ⟨rfl, hk⟩, ht, bind,
    Except.bind]

theorem bosRecvfrom_dgram (hs : w.fdSock fdId = some (s, k)) (ht : k.type = .dgram) (n : ℕ) (want : Option ℕ) :
    bosRecvfrom w fdId n want = (match k.dgrams with
      | [] => .ok (.of 0, w)
      | d :: ds => do
        let (b, idx) ← readDgram d n
        .ok (⟨toInt64 b.length, b, giveAddr w d.addr (domainAddrLen k.addr.domain) want⟩,
          w.setSock s { k with dgrams := if idx = d.len then ds else { d with idx := idx } :: ds })) := by
  obtain ⟨fd, nd, hf, hn, hd, hk⟩ := Host.fdSock_some.1 hs
  simp only [bosRecvfrom, hf, Host.fdData_some hn, hd, reduceCtorEq, if_false, Host.sock_ok.2 ⟨rfl, hk⟩, ht, bind,
    Except.bind]

end Recv

end EspHostdriver
