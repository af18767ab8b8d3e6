/-
The text of an address, there and back (`net/inet.c`).

`inet_ntoa` masks the octets out and prints them, `inet_addr` cuts a text at its dots and shifts the numbers together.

- `quad_of_address`: what `inet_ntoa` prints is a dotted quad of at most 15 characters.
- `quad_toNat`: the number that `inet_addr` makes of four octets; its octets are the four again (`quad_bits`).
- `address_text`: both directions, for every address, every dotted quad and every buffer of 16 bytes or more, whatever
  was in it.
-/
import EspHostdriver.Net.Inet

namespace EspHostdriver.AddressText

/-! ## Model -/

/-- four octets, written without leading zeros and joined by dots -/
def quad (a b c d : ℕ) : Bytes := dec a ++ 46 :: (dec b ++ 46 :: (dec c ++ 46 :: dec d))

/-- the buffer after a call of `inet_ntoa`: the text, its terminator, and the rest as it was -/
def ntoaBuffer (a : UInt32) (s : Bytes) : Bytes :=
  inetNtoa a s.length ++ 0 :: s.drop ((inetNtoa a s.length).length + 1)

/-- the buffer holds a dotted quad of at most 15 characters, that is read back as `a` -/
def ReadsBack (a : UInt32) (s : Bytes) : Prop :=
  (ntoaBuffer a s).length = s.length ∧ (cstr (ntoaBuffer a s)).length ≤ 15 ∧
    (∃ o1 < 256, ∃ o2 < 256, ∃ o3 < 256, ∃ o4 < 256, cstr (ntoaBuffer a s) = quad o1 o2 o3 o4) ∧
    inetAddr (ntoaBuffer a s) = a

/-! ## From an address to its text -/

theorem zero_notMem_dotted (a : UInt32) : 0 ∉ dotted a := notMem_dotted (by decide) (by decide) a

/-- the whole text fits -/
theorem inetNtoa_fits {len : ℕ} (h : 16 ≤ len) (a : UInt32) : inetNtoa a len = dotted a := by
  have := dotted_length_le a
  exact List.take_of_length_le (by omega)

theorem cstr_ntoaBuffer {s : Bytes} (h : 16 ≤ s.length) (a : UInt32) : cstr (ntoaBuffer a s) = dotted a := by
  rw [ntoaBuffer, inetNtoa_fits h]
  exact cstr_term (zero_notMem_dotted a) _

theorem quad_of_address (a : UInt32) :
    ∃ o1 < 256, ∃ o2 < 256, ∃ o3 < 256, ∃ o4 < 256, dotted a = quad o1 o2 o3 o4 :=
  ⟨_, bits8_lt a 24 (by simp), _, bits8_lt a 16 (by simp), _, bits8_lt a 8 (by simp), _, bits8_lt a 0 (by simp), rfl⟩

theorem readsBack {s : Bytes} (h : 16 ≤ s.length) (a : UInt32) : ReadsBack a s := by
  have hlen := dotted_length_le a
  refine ⟨?_, ?_, ?_, ?_⟩
  · rw [ntoaBuffer, inetNtoa_fits h, List.length_append, List.length_cons, List.length_drop]
    omega
  · rw [cstr_ntoaBuffer h]
    exact hlen
  · rw [cstr_ntoaBuffer h]
    exact quad_of_address a
  · rw [ntoaBuffer, inetNtoa_fits h]
    exact inetAddr_dotted a _

/-! ## From a text to the address -/

/-- one more octet behind an address -/
theorem shift_or {x : UInt32} {o : ℕ} (hx : x.toNat < 2 ^ 24) (ho : o < 256) :
    ((x <<< 8) ||| UInt32.ofInt (o : ℤ)).toNat = x.toNat * 256 + o := by
  have hoct : (UInt32.ofInt (o : ℤ)).toNat = o := by
    rw [UInt32.ofInt, UInt32.toNat_ofNat']
    omega
  have hshift : (x <<< 8).toNat = x.toNat <<< 8 := by
    have h8 : (8 : UInt32).toNat % 32 = 8 := by decide
    rw [UInt32.toNat_shiftLeft, h8, Nat.shiftLeft_eq, Nat.mod_eq_of_lt (by omega)]
  calc ((x <<< 8) ||| UInt32.ofInt (o : ℤ)).toNat
      = x.toNat <<< 8 ||| o := by rw [UInt32.toNat_or, hoct, hshift]
    _ = x.toNat <<< 8 + o := (Nat.shiftLeft_add_eq_or_of_lt (by omega) x.toNat).symm
    _ = x.toNat * 256 + o := by rw [Nat.shiftLeft_eq]

theorem atoi_octet {o : ℕ} (h : o < 256) : atoi (dec o) = (o : ℤ) := by
  have := atoi_dec (show o < 2 ^ 31 by omega) stops_nil
  rwa [List.append_nil] at this

variable {o1 o2 o3 o4 : ℕ}

theorem zero_notMem_quad (o1 o2 o3 o4 : ℕ) : 0 ∉ quad o1 o2 o3 o4 := by
  have h0 : ∀ n, (0 : UInt8) ∉ dec n := notMem_dec (by decide)
  simp [quad, h0]

/-- the number of four octets -/
theorem quad_toNat (h1 : o1 < 256) (h2 : o2 < 256) (h3 : o3 < 256) (h4 : o4 < 256) (m : Bytes) :
    (inetAddr (quad o1 o2 o3 o4 ++ 0 :: m)).toNat = ((o1 * 256 + o2) * 256 + o3) * 256 + o4 := by
  have e1 : (((0 : UInt32) <<< 8) ||| UInt32.ofInt (o1 : ℤ)).toNat = o1 := by
    rw [shift_or (by decide) h1, UInt32.toNat_zero]
    omega
  have e2 := shift_or (x := ((0 : UInt32) <<< 8) ||| UInt32.ofInt (o1 : ℤ)) (by omega) h2
  rw [e1] at e2
  have e3 := shift_or (x := ((((0 : UInt32) <<< 8) ||| UInt32.ofInt (o1 : ℤ)) <<< 8) ||| UInt32.ofInt (o2 : ℤ))
    (by omega) h3
  rw [e2] at e3
  rw [inetAddr, cstr_term (zero_notMem_quad o1 o2 o3 o4), quad, tokens_quad]
  simp only [List.foldl_cons, List.foldl_nil]
  rw [atoi_octet h1, atoi_octet h2, atoi_octet h3, atoi_octet h4, shift_or (by omega) h4, e3]

/-- and its octets are the four -/
theorem quad_bits (h1 : o1 < 256) (h2 : o2 < 256) (h3 : o3 < 256) (h4 : o4 < 256) (m : Bytes) :
    dotted (inetAddr (quad o1 o2 o3 o4 ++ 0 :: m)) = quad o1 o2 o3 o4 := by
  have hn := quad_toNat h1 h2 h3 h4 m
  have b1 := bits8_toNat (inetAddr (quad o1 o2 o3 o4 ++ 0 :: m)) (s := 24) (by simp)
  have b2 := bits8_toNat (inetAddr (quad o1 o2 o3 o4 ++ 0 :: m)) (s := 16) (by simp)
  have b3 := bits8_toNat (inetAddr (quad o1 o2 o3 o4 ++ 0 :: m)) (s := 8) (by simp)
  have b4 := bits8_toNat (inetAddr (quad o1 o2 o3 o4 ++ 0 :: m)) (s := 0) (by simp)
  rw [hn] at b1 b2 b3 b4
  have e1 : (bits8 (inetAddr (quad o1 o2 o3 o4 ++ 0 :: m)) 24).toNat = o1 := by
    rw [b1, show (24 : UInt32).toNat = 24 from rfl]
    omega
  have e2 : (bits8 (inetAddr (quad o1 o2 o3 o4 ++ 0 :: m)) 16).toNat = o2 := by
    rw [b2, show (16 : UInt32).toNat = 16 from rfl]
    omega
  have e3 : (bits8 (inetAddr (quad o1 o2 o3 o4 ++ 0 :: m)) 8).toNat = o3 := by
    rw [b3, show (8 : UInt32).toNat = 8 from rfl]
    omega
  have e4 : (bits8 (inetAddr (quad o1 o2 o3 o4 ++ 0 :: m)) 0).toNat = o4 := by
    rw [b4, show (0 : UInt32).toNat = 0 from rfl]
    omega
  rw [dotted, e1, e2, e3, e4]
  rfl

/-! ## The round trip -/

/-- **an address is read back from its text, and a text is written again from its address** -/
theorem address_text :
    (∀ (a : UInt32) (s : Bytes), 16 ≤ s.length → ReadsBack a s) ∧
      ∀ o1 o2 o3 o4 : ℕ, o1 ≤ 255 → o2 ≤ 255 → o3 ≤ 255 → o4 ≤ 255 → ∀ s m : Bytes, 16 ≤ s.length →
        cstr (ntoaBuffer (inetAddr (quad o1 o2 o3 o4 ++ 0 :: m)) s) = quad o1 o2 o3 o4 := by
  refine ⟨fun a s h => readsBack h a, ?_⟩
  intro o1 o2 o3 o4 h1 h2 h3 h4 s m h
  rw [cstr_ntoaBuffer h]
  exact quad_bits (Nat.lt_succ_of_le h1) (Nat.lt_succ_of_le h2) (Nat.lt_succ_of_le h3) (Nat.lt_succ_of_le h4) m

theorem address_text_sample :
    ReadsBack 0xffa80a00 (List.replicate 16 170) ∧
      cstr (ntoaBuffer (inetAddr (quad 255 168 10 0 ++ 0 :: [7])) (List.replicate 16 170)) = quad 255 168 10 0 :=
  ⟨address_text.1 _ _ (by decide),
    address_text.2 255 168 10 0 (by decide) (by decide) (by decide) (by decide) _ [7] (by decide)⟩

end EspHostdriver.AddressText
