/-
The storage behind a socket, a datagram and a device (`include/netdev.h`, LP64).

Each of the three blocks is allocated larger than its type, for data of a length that the type leaves open. A datagram
has two such parts: the address, and the payload behind it. The payload pointer is computed as `&dgram->addr` plus the
size of an internet address, but the addend counts elements of type `sock_addr_t`, of 4 bytes each, and not bytes.

- `sock_fits`, `dev_fits`, `addr_fits`: the socket address, the device configuration and the datagram address lie inside
  their blocks.
- `bytes_would_fit`: so would the payload, of any length, if the addend were counted in bytes.
- `payload_end`: it ends 32 bytes behind its block.
- `storage_fits`: the storage fits if and only if the payload is empty.
- `storage_fits_fails`: a datagram of one byte.
-/
import EspHostdriver.Core.Layout
import EspHostdriver.Net.Netdev

namespace EspHostdriver.StorageFits

open Layout

/-! ## Model: types -/

def tEnum : Ty := scalar 4 (by norm_num)
def tPtr : Ty := scalar 8 (by norm_num)
def tSize : Ty := scalar 8 (by norm_num)
def tU8 : Ty := scalar 1 (by norm_num)
def tU16 : Ty := scalar 2 (by norm_num)
def tU32 : Ty := scalar 4 (by norm_num)

/-- `sock_addr_t`: domain, data -/
def sockAddr : Ty := struct [tEnum, flexible tU8]

/-- `inet_data_t`: addr, port -/
def inetData : Ty := struct [tU32, tU16]

/-- `sock_addr_inet_t`: domain, data -/
def sockAddrInet : Ty := struct [tEnum, inetData]

/-- `inet_dev_cfg_t`: mode, ssid, hostname, dhcp, ip, gw, netmask, enc, password -/
def inetDevCfg : Ty := struct [tEnum, tPtr, tPtr, tU8, tU32, tU32, tU32, tEnum, tPtr]

/-- `ringbuf_t`: rd, wr, size, data -/
def ringbuf : Ty := struct [tSize, tSize, tSize, tPtr]

/-- `netdev_ops_t`: configure, connect, listen, close, send -/
def netdevOps : Ty := struct [tPtr, tPtr, tPtr, tPtr, tPtr]

/-- the members of `datagram_t`: prev, next, len, idx, data, addr -/
def datagram : List Ty := [tPtr, tPtr, tSize, tSize, tPtr, sockAddr]

/-- the members of `socket_t`: prev, next, dev, stream, dgrams, clients, type, addr -/
def socket : List Ty := [tPtr, tPtr, tPtr, ringbuf, tPtr, tPtr, tEnum, sockAddr]

/-- the members of `netdev_t`: prev, next, domain, ops, data, cfg -/
def netdev : List Ty := [tPtr, tPtr, tEnum, netdevOps, tPtr, flexible tU8]

/-! ## Model: blocks -/

/-- a copy of so many bytes to a place in a block -/
structure Copy where
  start : ℕ
  len : ℕ

/-- `netdev_sock_alloc(type, sizeof(sock_addr_inet_t))` -/
def sockBlock : ℕ := ((struct socket).size + sockAddrInet.size - sockAddr.size) % 2 ^ 64

def sockAddrAt : ℕ := offset socket 7

/-- the stores to `sock->addr`: its domain in `bos_socket`, the address in `assign_netdev` and in `accept` -/
def sockCopies : List Copy := [⟨sockAddrAt, tEnum.size⟩, ⟨sockAddrAt, sockAddrInet.size⟩, ⟨sockAddrAt, sockAddrInet.size⟩]

/-- `malloc` in `recv` -/
def dgramBlock (len : ℕ) : ℕ := ((struct datagram).size + len + sockAddrInet.size - sockAddr.size) % 2 ^ 64

def dgramAddrAt : ℕ := offset datagram 5

/-- `&dgram->addr + sizeof(sock_addr_inet_t)`: an addend to a pointer counts what the pointer points to -/
def dgramDataAt : ℕ := dgramAddrAt + sockAddrInet.size * sockAddr.size

/-- the payload copy of `recv` -/
def payload (len : ℕ) : Copy := ⟨dgramDataAt, len⟩

/-- the address copy of `recv` -/
def dgramAddr : Copy := ⟨dgramAddrAt, sockAddrInet.size⟩

/-- `netdev_register` -/
def devBlock : ℕ := ((struct netdev).size + inetDevCfg.size) % 2 ^ 64

def devCfgAt : ℕ := offset netdev 5

/-- the configuration is cleared in `netdev_register` and copied in `bos_net_configure` -/
def devCopies : List Copy := [⟨devCfgAt, inetDevCfg.size⟩, ⟨devCfgAt, inetDevCfg.size⟩]

/-- every copied byte lies in the block -/
def Fits (size : ℕ) (copies : List Copy) : Prop := ∀ c ∈ copies, InBlock c.start c.len size

/-- no byte belongs to both -/
def Apart (a b : Copy) : Prop := Set.Ico a.start (a.start + a.len) ∩ Set.Ico b.start (b.start + b.len) = ∅

/-- the size of a datagram block is computed without overflow -/
def NoOverflow (len : ℕ) : Prop := (struct datagram).size + len + sockAddrInet.size < 2 ^ 64

instance (len : ℕ) : Decidable (NoOverflow len) := inferInstanceAs (Decidable (_ < _))

def AllFit (len : ℕ) : Prop :=
  Fits sockBlock sockCopies ∧ Fits (dgramBlock len) [payload len, dgramAddr] ∧ Fits devBlock devCopies ∧
    Apart dgramAddr (payload len)

/-! ## The blocks -/

/-- the sizes that the rest of the model uses -/
theorem sizes_agree : sockAddrInet.size = sizeofSockAddrInet ∧ inetDevCfg.size = sizeofInetDevCfg := by decide

theorem sock_fits : Fits sockBlock sockCopies := by
  have hlast : socket[7]? = some sockAddr := rfl
  have hsize : sockBlock = (struct socket).size + sockAddrInet.size - sockAddr.size := Nat.mod_eq_of_lt (by decide)
  have haddr : InBlock sockAddrAt sockAddrInet.size sockBlock := hsize ▸ trailing_inBlock hlast sockAddrInet.size
  have hdomain : InBlock sockAddrAt tEnum.size sockBlock := by
    rw [inBlock_iff] at haddr ⊢
    exact Or.inr (by decide)
  intro c hc
  simp only [sockCopies, List.mem_cons, List.not_mem_nil, or_false] at hc
  rcases hc with rfl | rfl | rfl
  · exact hdomain
  · exact haddr
  · exact haddr

theorem dev_fits : Fits devBlock devCopies := by
  have hlast : netdev[5]? = some (flexible tU8) := rfl
  have hsize : devBlock = (struct netdev).size + inetDevCfg.size := Nat.mod_eq_of_lt (by decide)
  have hcfg : InBlock devCfgAt inetDevCfg.size devBlock := hsize ▸ trailing_inBlock hlast inetDevCfg.size
  intro c hc
  simp only [devCopies, List.mem_cons, List.not_mem_nil, or_false, or_self] at hc
  rw [hc]
  exact hcfg

variable {len : ℕ}

theorem dgramBlock_eq (h : NoOverflow len) :
    dgramBlock len = (struct datagram).size + (sockAddrInet.size + len) - sockAddr.size := by
  rw [NoOverflow] at h
  rw [dgramBlock, Nat.mod_eq_of_lt (by omega)]
  congr 1
  omega

/-- the address is the last member of a datagram -/
theorem datagram_last : datagram[5]? = some sockAddr := rfl

theorem addr_fits (h : NoOverflow len) : InBlock dgramAddrAt sockAddrInet.size (dgramBlock len) := by
  have htail : InBlock dgramAddrAt sockAddrInet.size ((struct datagram).size + sockAddrInet.size - sockAddr.size) :=
    trailing_inBlock datagram_last sockAddrInet.size
  apply htail.mono
  rw [dgramBlock_eq h]
  omega

/-- the size of the block is the one for a payload right behind the address -/
theorem bytes_would_fit (h : NoOverflow len) : InBlock (dgramAddrAt + sockAddrInet.size) len (dgramBlock len) := by
  have htail : InBlock dgramAddrAt (sockAddrInet.size + len) (dgramBlock len) := by
    rw [dgramBlock_eq h]
    exact trailing_inBlock datagram_last (sockAddrInet.size + len)
  rw [inBlock_iff] at htail ⊢
  omega

/-- the payload ends so many bytes behind the block as the rest of the model says -/
theorem payload_end (h : NoOverflow len) : dgramDataAt + len = dgramBlock len + payloadBehind := by
  rw [dgramBlock_eq h, show dgramDataAt = 88 from rfl, show (struct datagram).size = 48 from rfl,
    show sockAddrInet.size = 12 from rfl, show sockAddr.size = 4 from rfl, payloadBehind]
  omega

theorem payload_inBlock (h : NoOverflow len) : InBlock dgramDataAt len (dgramBlock len) ↔ len = 0 := by
  rw [inBlock_iff, payload_end h, payloadBehind]
  omega

/-- the payload is behind the address -/
theorem addr_apart (len : ℕ) : Apart dgramAddr (payload len) := by
  have hbehind : dgramAddr.start + dgramAddr.len ≤ (payload len).start := by
    have h : dgramAddrAt + sockAddrInet.size ≤ dgramDataAt := by decide
    exact h
  rw [Apart, ← Set.disjoint_iff_inter_eq_empty, Set.Ico_disjoint_Ico]
  omega

/-- **the storage fits if and only if the payload is empty** -/
theorem storage_fits (h : NoOverflow len) : AllFit len ↔ len = 0 := by
  constructor
  · intro hfit
    obtain ⟨-, hdgram, -, -⟩ := hfit
    exact (payload_inBlock h).1 (hdgram (payload len) (by simp))
  · intro h0
    refine ⟨sock_fits, ?_, dev_fits, addr_apart len⟩
    intro c hc
    rw [List.mem_cons, List.mem_singleton] at hc
    rcases hc with rfl | rfl
    · exact (payload_inBlock h).2 h0
    · exact addr_fits h

theorem storage_fits_sample : AllFit 0 ∧ ¬ AllFit 5 :=
  ⟨(storage_fits (by decide)).2 rfl, fun h => absurd ((storage_fits (by decide)).1 h) (by decide)⟩

/-- a datagram of one byte -/
theorem storage_fits_fails : ¬ ∀ len, NoOverflow len → AllFit len := by
  intro h
  have hno : NoOverflow 1 := by decide
  obtain ⟨-, hdgram, -, -⟩ := h 1 hno
  have hempty := (payload_inBlock hno).1 (hdgram (payload 1) (by simp))
  exact absurd hempty Nat.one_ne_zero

end EspHostdriver.StorageFits
