/-
Lean model of the inet layer (`net/inet.c`, `inet.h`): addresses, their text, device configuration and address match.

`inet_addr` cuts its text at the dots (empty pieces are skipped, as `strtok` does) and shifts the numbers together.
`inet_ntoa` prints the four octets and cuts the text to the buffer it is given.

- `SockAddrInet.bytes` is the 12-byte memory image of a socket address, padding included.
- `inetAddr_dotted`: `inet_addr` reads every 32-bit address back from its dotted quad.
- `mem_dotted`: a dotted quad holds digits and dots only, so it has no separator of the serial protocol in it.
-/
import EspHostdriver.Core.Heap
import EspHostdriver.Core.Text

namespace EspHostdriver

/-! ## Model -/

/-- `net_family_t` -/
inductive NetFamily where
  | afInet
deriving DecidableEq, Repr

/-- `inet_data_t`; `pad` is the padding that `memcpy` moves along -/
structure InetData where
  addr : UInt32
  port : UInt16
  pad : UInt16
deriving DecidableEq, Repr

/-- `sock_addr_inet_t` -/
structure SockAddrInet where
  domain : NetFamily
  data : InetData
deriving DecidableEq, Repr

/-- `INET_ADDR_ANY` -/
def inetAddrAny : UInt32 := 0

/-- `inet_dev_mode_t` -/
inductive InetDevMode where
  | ap
  | client
deriving DecidableEq, Repr

/-- the value of an enumerator -/
def InetDevMode.val : InetDevMode → UInt32
  | .ap => 1
  | .client => 2

/-- `inet_enc_t` -/
inductive InetEnc where
  | open
  | wpaPsk
  | wpa2Psk
  | wpaWpa2Psk
deriving DecidableEq, Repr

/-- `inet_dev_cfg_t`; `mode` is any value of the field, and a string is the pointer to it -/
structure InetDevCfg where
  mode : UInt32
  ssid : Option Addr
  hostname : Option Addr
  dhcp : Bool
  ip : UInt32
  gw : UInt32
  netmask : UInt32
  enc : InetEnc
  password : Option Addr
deriving DecidableEq, Repr

/-- the enumerator that `mode` holds, if it is one -/
def InetDevCfg.devMode (cfg : InetDevCfg) : Option InetDevMode :=
  if cfg.mode = InetDevMode.ap.val then some .ap
  else if cfg.mode = InetDevMode.client.val then some .client
  else none

/-- four bytes in memory order -/
def le32 (v : UInt32) : Bytes :=
  [UInt8.ofNat v.toNat, UInt8.ofNat (v.toNat / 2 ^ 8), UInt8.ofNat (v.toNat / 2 ^ 16), UInt8.ofNat (v.toNat / 2 ^ 24)]

def le16 (v : UInt16) : Bytes := [UInt8.ofNat v.toNat, UInt8.ofNat (v.toNat / 2 ^ 8)]

/-- the four bytes at `m` as an address -/
def rd32 (m : Bytes) : UInt32 := UInt32.ofNat
  ((m.getD 0 0).toNat + 2 ^ 8 * (m.getD 1 0).toNat + 2 ^ 16 * (m.getD 2 0).toNat + 2 ^ 24 * (m.getD 3 0).toNat)

theorem rd32_le32 (a : UInt32) (m : Bytes) : rd32 (le32 a ++ m) = a := by
  apply UInt32.toNat_inj.1
  have := a.toNat_lt
  simp only [rd32, le32, List.cons_append, List.nil_append, List.getD_cons_zero, List.getD_cons_succ,
    UInt32.toNat_ofNat', UInt8.toNat_ofNat']
  omega

/-- a socket address in memory; the only family is 0 -/
def SockAddrInet.bytes (a : SockAddrInet) : Bytes := le32 0 ++ le32 a.data.addr ++ le16 a.data.port ++ le16 a.data.pad

@[simp] theorem SockAddrInet.bytes_length (a : SockAddrInet) : a.bytes.length = 12 := rfl

/-- what `strtok` finds between the dots -/
def tokens (t : Bytes) : List Bytes := (t.splitOn 46).filter (· ≠ [])

def inetAddr (m : Bytes) : UInt32 :=
  (tokens (cstr m)).foldl (fun a tk => (a <<< 8) ||| UInt32.ofInt (atoi tk)) 0

/-- `BITS8` -/
def bits8 (v : UInt32) (shift : UInt32) : UInt32 := (v &&& ((0xff : UInt32) <<< shift)) >>> shift

/-- the text `"%d.%d.%d.%d"` of an address -/
def dotted (a : UInt32) : Bytes :=
  dec (bits8 a 24).toNat ++ 46 :: (dec (bits8 a 16).toNat ++ 46 :: (dec (bits8 a 8).toNat ++ 46 :: dec (bits8 a 0).toNat))

/-- `snprintf` leaves room for the terminator -/
def inetNtoa (a : UInt32) (len : ℕ) : Bytes := (dotted a).take (len - 1)

/-- `sizeof(sock_addr_inet_t)` -/
def sizeofSockAddrInet : ℕ := 12

def inetMatchAddr (cfg : InetDevCfg) (addr : SockAddrInet) (addrLen : ℕ) : Bool :=
  if addrLen ≠ sizeofSockAddrInet then false
  else if addr.data.addr = inetAddrAny then true
  else cfg.ip &&& cfg.netmask = addr.data.addr &&& cfg.netmask

/-! ## The text of an address -/

/-- an octet, in numbers -/
theorem bits8_toNat (a : UInt32) {s : UInt32} (hs : s ∈ [(24 : UInt32), 16, 8, 0]) :
    (bits8 a s).toNat = a.toNat / 2 ^ s.toNat % 256 := by
  have hmask : ((0xff : UInt32) <<< s).toNat >>> (s.toNat % 32) = 2 ^ 8 - 1 ∧ s.toNat % 32 = s.toNat := by
    simp only [List.mem_cons, List.not_mem_nil, or_false] at hs
    rcases hs with rfl | rfl | rfl | rfl <;> decide
  rw [bits8, UInt32.toNat_shiftRight, UInt32.toNat_and, Nat.shiftRight_and_distrib, hmask.1,
    Nat.and_two_pow_sub_one_eq_mod, hmask.2, Nat.shiftRight_eq_div_pow]

theorem bits8_lt (a s : UInt32) (hs : s ∈ [(24 : UInt32), 16, 8, 0]) : (bits8 a s).toNat < 256 := by
  rw [bits8_toNat a hs]
  exact Nat.mod_lt _ (by norm_num)

/-- the bits above an octet, and the octet behind them -/
theorem octet_join (b : BitVec 32) (s : ℕ) : (b >>> (s + 8)) <<< 8 ||| (b &&& 255#32 <<< s) >>> s = b >>> s := by
  have h255 : ∀ i, (255#32).getLsbD i = decide (i < 8) := by
    intro i
    rw [BitVec.getLsbD_ofNat, show (255 : ℕ) = 2 ^ 8 - 1 from rfl, Nat.testBit_two_pow_sub_one]
    simp
    omega
  refine BitVec.eq_of_getLsbD_eq fun i hi => ?_
  rw [BitVec.getLsbD_or, BitVec.getLsbD_shiftLeft, BitVec.getLsbD_ushiftRight, BitVec.getLsbD_ushiftRight,
    BitVec.getLsbD_ushiftRight, BitVec.getLsbD_and, BitVec.getLsbD_shiftLeft, h255]
  by_cases h8 : i < 8
  · by_cases hs : s + i < 32
    · simp [h8, hs]
    · simp [h8, BitVec.getLsbD_of_ge b (s + i) (by omega)]
  · have hidx : s + 8 + (i - 8) = s + i := by omega
    simp [h8, hi, hidx]

/-- the octets put together again -/
theorem octets_join (a : UInt32) :
    ((((((0 : UInt32) <<< 8 ||| bits8 a 24) <<< 8) ||| bits8 a 16) <<< 8 ||| bits8 a 8) <<< 8) ||| bits8 a 0 = a := by
  apply UInt32.toBitVec_inj.1
  simp only [bits8, UInt32.toBitVec_or, UInt32.toBitVec_and, UInt32.toBitVec_shiftLeft, UInt32.toBitVec_shiftRight]
  generalize a.toBitVec = b
  have h32 : b >>> (24 + 8) = 0#32 := BitVec.ushiftRight_eq_zero le_rfl
  have h := octet_join b
  calc (((0#32 <<< 8 ||| (b &&& 255#32 <<< 24) >>> 24) <<< 8 ||| (b &&& 255#32 <<< 16) >>> 16) <<< 8 |||
        (b &&& 255#32 <<< 8) >>> 8) <<< 8 ||| (b &&& 255#32 <<< 0) >>> 0
      = ((b >>> 24 <<< 8 ||| (b &&& 255#32 <<< 16) >>> 16) <<< 8 ||| (b &&& 255#32 <<< 8) >>> 8) <<< 8 |||
        (b &&& 255#32 <<< 0) >>> 0 := by rw [← h32, h 24]
    _ = (b >>> 16 <<< 8 ||| (b &&& 255#32 <<< 8) >>> 8) <<< 8 ||| (b &&& 255#32 <<< 0) >>> 0 := by rw [← h 16]
    _ = b >>> 8 <<< 8 ||| (b &&& 255#32 <<< 0) >>> 0 := by rw [← h 8]
    _ = b >>> 0 := h 0
    _ = b := rfl

/-- a dotted quad holds digits and dots only -/
theorem mem_dotted {a : UInt32} {c : UInt8} (h : c ∈ dotted a) : isDigit c = true ∨ c = 46 := by
  simp only [dotted, List.mem_append, List.mem_cons] at h
  rcases h with h | h | h | h | h | h | h
  all_goals first | exact Or.inr h | exact Or.inl (dec_isDigit _ c h)

theorem notMem_dotted {c : UInt8} (h1 : isDigit c = false) (h2 : c ≠ 46) (a : UInt32) : c ∉ dotted a := by
  intro h
  rcases mem_dotted h with h | h
  · rw [h1] at h; cases h
  · exact h2 h

/-- the pieces of four numbers joined by dots -/
theorem tokens_quad (a b c d : ℕ) :
    tokens (dec a ++ 46 :: (dec b ++ 46 :: (dec c ++ 46 :: dec d))) = [dec a, dec b, dec c, dec d] := by
  have h46 : ∀ n, (46 : UInt8) ∉ dec n := notMem_dec (by decide)
  rw [tokens, List.splitOn_append_cons_self_of_not_mem (h46 _), List.splitOn_append_cons_self_of_not_mem (h46 _),
    List.splitOn_append_cons_self_of_not_mem (h46 _), List.splitOn_eq_singleton (h46 _)]
  simp [dec_ne_nil]

theorem tokens_dotted (a : UInt32) : tokens (dotted a) =
    [dec (bits8 a 24).toNat, dec (bits8 a 16).toNat, dec (bits8 a 8).toNat, dec (bits8 a 0).toNat] :=
  tokens_quad _ _ _ _

theorem ofInt_atoi_octet {v : UInt32} (h : v.toNat < 256) : UInt32.ofInt (atoi (dec v.toNat)) = v := by
  have := atoi_dec (n := v.toNat) (by omega) stops_nil
  rw [List.append_nil] at this
  apply UInt32.toNat_inj.1
  rw [this, UInt32.ofInt, UInt32.toNat_ofNat']
  omega

/-- **`inet_addr` reads every address back from its dotted quad**, whatever follows the terminator -/
theorem inetAddr_dotted (a : UInt32) (m : Bytes) : inetAddr (dotted a ++ 0 :: m) = a := by
  have h0 : (0 : UInt8) ∉ dotted a := notMem_dotted (by decide) (by decide) a
  rw [inetAddr, cstr_term h0, tokens_dotted]
  simp only [List.foldl_cons, List.foldl_nil]
  rw [ofInt_atoi_octet (bits8_lt a 24 (by simp)), ofInt_atoi_octet (bits8_lt a 16 (by simp)),
    ofInt_atoi_octet (bits8_lt a 8 (by simp)), ofInt_atoi_octet (bits8_lt a 0 (by simp))]
  exact octets_join a

theorem inetAddr_quad (a : UInt32) : inetAddr (dotted a) = a := by
  have h0 : (0 : UInt8) ∉ dotted a := notMem_dotted (by decide) (by decide) a
  have hback := inetAddr_dotted a []
  rw [inetAddr, cstr_term h0] at hback
  rwa [inetAddr, cstr_self h0]

theorem dotted_length_le (a : UInt32) : (dotted a).length ≤ 15 := by
  have h : ∀ s ∈ [(24 : UInt32), 16, 8, 0], (dec (bits8 a s).toNat).length ≤ 3 := fun s hs =>
    dec_length_le (by omega) (lt_trans (bits8_lt a s hs) (by decide))
  have h1 := h 24 (by simp); have h2 := h 16 (by simp); have h3 := h 8 (by simp); have h4 := h 0 (by simp)
  simp only [dotted, List.length_append, List.length_cons]
  omega

example : dotted 0xc0a80001 = str "192.168.0.1" ∧ inetAddr (str "192.168.0.1") = 0xc0a80001 := by decide

end EspHostdriver
