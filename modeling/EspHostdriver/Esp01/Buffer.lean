/-
The uses the reader makes of its 64-byte line buffer (`read_thread`, `parse_line`, `recv`, `accept`, `closed` of
`esp01/serial.c`): every index that one byte makes it read or write, in the order of the source.

`Reader` says what the buffer and the calls become; here the same functions are followed access by access, each loop as
a recursion. An index is relative to the array of `read_thread`, so the moved pointer of `accept` is `base`, and the
negative offsets of `parse_line` are negative indices on a short line.

- A library function that reads a string (`atoi`, `inet_addr`) counts with every byte up to the terminator.
- A forward scan that finds nothing uses the first index behind the buffer, and the reader is not followed further.

- `Reader.Sized` is what every byte keeps (`readByte_sized`).
- `Fits` is the condition on the state and the byte under which all indices are inside (`byteUses_inside`).
-/
import Mathlib.Data.List.GetD
import EspHostdriver.Esp01.Reader

namespace EspHostdriver

/-! ## Model -/

/-- the byte at an index of the buffer; negative indices are the memory in front of it -/
def memAt (st : Stack) (line : Bytes) (k : ℤ) : UInt8 := if k < 0 then st.below (-k - 1).toNat else line.getD k.toNat 0

/-- `strncmp(line + k, s, strlen(s))`: it reads up to the first difference -/
def cmpUses (mem : ℤ → UInt8) : ℤ → Bytes → List ℤ
  | _, [] => []
  | k, c :: s => k :: if mem k = c then cmpUses mem (k + 1) s else []

/-- `while(line[k] != c) k++` on the memory `m` from index `k` on; also what reads the string there, for `c` = 0 -/
def seekUses (c : UInt8) : ℕ → Bytes → List ℤ
  | k, [] => [(k : ℤ)]
  | k, x :: m => (k : ℤ) :: if x = c then [] else seekUses c (k + 1) m

/-- `while(line[k] != ',' && k < len) k++` -/
def commaUses (len : ℕ) : ℕ → Bytes → List ℤ
  | k, [] => [(k : ℤ)]
  | k, x :: m => (k : ℤ) :: if x = 44 ∨ len ≤ k then [] else commaUses len (k + 1) m

/-- `while(line[len] != ',' && len > 0) len--` -/
def backUses (line : Bytes) : ℕ → List ℤ
  | 0 => [0]
  | n + 1 => ((n + 1 : ℕ) : ℤ) :: if line.getD (n + 1) 0 = 44 then [] else backUses line n

/-- the string at index `k` -/
def textUses (line : Bytes) (k : ℕ) : List ℤ := seekUses 0 k (line.drop k)

/-- one field of a header, from its end: back to the comma, and the text behind it -/
def fieldUses (line : Bytes) (len : ℕ) : List ℤ := backUses line len ++ textUses line (backTo line len + 1)

def recvUses (line : Bytes) (len : ℕ) : List ℤ :=
  let c1 := backTo line len
  let line1 := line.set c1 0
  let c2 := backTo line1 c1
  let line2 := line1.set c2 0
  let c3 := backTo line2 c2
  let line3 := line2.set c3 0
  fieldUses line len ++ [(c1 : ℤ)] ++ fieldUses line1 c1 ++ [(c2 : ℤ)] ++ fieldUses line2 c2 ++ [(c3 : ℤ)] ++
    fieldUses line3 c3

/-- `accept` up to its loop; `strncpy` takes five bytes at most -/
def acceptUses (line : Bytes) (len : ℕ) : List ℤ :=
  commaUses len 0 line ++ [(commaAt line len : ℤ)] ++ (textUses (line.set (commaAt line len) 0) 0).take 5

def closedUses (line : Bytes) (len : ℕ) : List ℤ :=
  commaUses len 0 line ++ [(commaAt line len : ℤ)] ++ textUses (line.set (commaAt line len) 0) 0

/-- the response check; `response` is the memory of the expected text, when there is one -/
def responseUses (st : Stack) (line : Bytes) (response : Option Bytes) : List ℤ :=
  let s := match response with
    | none => str "OK"
    | some m => cstr m
  cmpUses (memAt st line) 0 s ++ if s.isPrefixOf line then [] else cmpUses (memAt st line) 0 (str "ERROR")

def parseUses (st : Stack) (line : Bytes) (len : ℕ) (response : Option Bytes) : List ℤ :=
  cmpUses (memAt st line) ((len : ℤ) - 9) (str ",CONNECT") ++
  if (str ",CONNECT").isPrefixOf (lineTail st line len 9) then acceptUses line len
  else
    cmpUses (memAt st line) ((len : ℤ) - 8) (str ",CLOSED") ++
    if (str ",CLOSED").isPrefixOf (lineTail st line len 8) then closedUses line len
    else responseUses st line response

/-- a byte of `read_thread` in its place -/
def Reader.stored (r : Reader) (c : UInt8) : Reader :=
  if r.i + 1 < 64 then { r with line := r.line.set r.i c, i := r.i + 1 } else r

/-- the buffer with a terminator behind it -/
def Reader.ended (r : Reader) (c : UInt8) : Bytes := (r.stored c).line.set (r.stored c).i 0

def EndsHeader (r : Reader) (c : UInt8) : Prop := c = 58 ∧ (str "+IPD").isPrefixOf (r.stored c).line

instance decidableEndsHeader (r : Reader) (c : UInt8) : Decidable (EndsHeader r c) :=
  inferInstanceAs (Decidable (_ ∧ _))

/-- the loop of `read_thread` -/
def lineUses (st : Stack) (r : Reader) (c : UInt8) (response : Option Bytes) : List ℤ :=
  let s := r.stored c
  (if r.i + 1 < 64 then [(r.i : ℤ)] else []) ++ (if c = 58 then cmpUses (memAt st s.line) 0 (str "+IPD") else []) ++
  if EndsHeader r c then (s.i : ℤ) :: recvUses (r.ended c) s.i
  else if c = 10 then (s.i : ℤ) :: parseUses st (r.ended c) s.i response
  else []

/-- `accept` on a status line of its link -/
def foundUses (line : Bytes) (base : ℕ) : List ℤ :=
  let q := base + 20 + (line.drop (base + 20)).idxOf 34
  let line1 := line.set q 0
  let p := q + 2 + (line1.drop (q + 2)).idxOf 44
  seekUses 34 (base + 20) (line.drop (base + 20)) ++
  if line.length ≤ q then []
  else (q : ℤ) :: (textUses line1 (base + 20) ++ seekUses 44 (q + 2) (line1.drop (q + 2)) ++
    if line.length ≤ p then [] else (p : ℤ) :: textUses (line1.set p 0) (q + 2))

/-- a complete line in the loop of `accept`; `strcmp` compares the terminator too -/
def endUses (st : Stack) (line : Bytes) (base : ℕ) (linkId : Bytes) : List ℤ :=
  cmpUses (memAt st line) base (str "OK" ++ [0]) ++
  if cstr (line.drop base) = str "OK" then []
  else
    cmpUses (memAt st line) base (str "ERROR" ++ [0]) ++
    if cstr (line.drop base) = str "ERROR" then []
    else
      cmpUses (memAt st line) base (str "+CIPSTATUS:") ++
      if (str "+CIPSTATUS:").isPrefixOf (line.drop base) then
        cmpUses (memAt st line) (base + 11 : ℕ) linkId ++
        if linkId.isPrefixOf (line.drop (base + 11)) then foundUses line base else []
      else []

/-- the loop of `accept`: the byte is stored, and looked at where it is -/
def statusUses (st : Stack) (r : Reader) (base : ℕ) (linkId : Bytes) (c : UInt8) : List ℤ :=
  ((base + r.i : ℕ) : ℤ) ::
  if r.line.length ≤ base + r.i then []
  else if c = 10 then ((base + r.i : ℕ) : ℤ) :: endUses st (r.line.set (base + r.i) 0) base linkId
  else []

/-- the indices of `line` that the reader uses from one `read` to the next -/
def byteUses (st : Stack) (r : Reader) (c : UInt8) (response : Option Bytes) : List ℤ :=
  match r.mode with
  | .line => lineUses st r c response
  | .status base linkId => statusUses st r base linkId c
  | .payload _ _ _ _ | .ended | .crashed => []

/-! ## When they are inside -/

/-- all indices are indices of the buffer -/
def Inside (xs : List ℤ) : Prop := ∀ x ∈ xs, 0 ≤ x ∧ x < 64

/-- a status line of the link: behind the address a quote, and two bytes behind it or later a comma -/
def Found (line : Bytes) (base : ℕ) (linkId : Bytes) : Prop :=
  str "+CIPSTATUS:" <+: line.drop base → linkId <+: line.drop (base + 11) → 34 ∈ line.drop (base + 20) ∧
    44 ∈ line.drop (base + 20 + (line.drop (base + 20)).idxOf 34 + 2)

/-- a newline of `read_thread` has eight characters in front of it; a byte of `accept` has room, and a status line of the
link that it completes has its quote and its comma -/
def Fits (r : Reader) (c : UInt8) : Prop :=
  match r.mode with
  | .line => c = 10 → 8 ≤ r.i
  | .status base linkId => base + r.i < 64 ∧ (c = 10 → Found (r.line.set (base + r.i) 0) base linkId)
  | .payload _ _ _ _ | .ended | .crashed => True

/-- what holds of the reader at every `read` -/
structure Reader.Sized (r : Reader) : Prop where
  size : r.line.length = 64
  line : r.mode = .line → r.i < 64
  status : ∀ base linkId, r.mode = .status base linkId → base < 64 ∧ 0 ∉ linkId

variable {st : Stack} {r : Reader} {line : Bytes}

/-! ## Lists of indices -/

theorem inside_nil : Inside [] := fun _ h => (List.not_mem_nil h).elim

theorem inside_cons {x : ℤ} {xs : List ℤ} : Inside (x :: xs) ↔ (0 ≤ x ∧ x < 64) ∧ Inside xs := List.forall_mem_cons

theorem inside_append {xs ys : List ℤ} : Inside (xs ++ ys) ↔ Inside xs ∧ Inside ys := List.forall_mem_append

theorem inside_nat {n : ℕ} : (0 ≤ (n : ℤ) ∧ (n : ℤ) < 64) ↔ n < 64 := by omega

theorem inside_singleton {n : ℕ} : Inside [(n : ℤ)] ↔ n < 64 := by
  rw [inside_cons, inside_nat]
  exact and_iff_left inside_nil

/-! ## The loops -/

/-- the scan uses every index up to the one where it stops -/
theorem mem_seekUses {c : UInt8} {k : ℕ} {m : Bytes} {x : ℤ} :
    x ∈ seekUses c k m ↔ (k : ℤ) ≤ x ∧ x ≤ k + m.idxOf c := by
  induction m generalizing k with
  | nil => simp [seekUses]; omega
  | cons y m ih =>
    rw [seekUses, List.mem_cons]
    by_cases hy : y = c
    · rw [if_pos hy, List.idxOf_cons_eq _ hy]
      simp
      omega
    · rw [if_neg hy, List.idxOf_cons_ne _ hy, ih]
      push_cast
      omega

/-- the scan stays inside exactly when it finds its byte -/
theorem inside_seekUses {c : UInt8} {k : ℕ} (hl : line.length = 64) :
    Inside (seekUses c k (line.drop k)) ↔ c ∈ line.drop k := by
  have hlen : (line.drop k).length = 64 - k := by rw [List.length_drop, hl]
  rw [← List.idxOf_lt_length_iff, hlen]
  constructor
  · intro h
    have := h (k + (line.drop k).idxOf c) (mem_seekUses.2 ⟨by omega, le_rfl⟩)
    omega
  · intro h x hx
    have := mem_seekUses.1 hx
    omega

theorem commaUses_le {len k : ℕ} {m : Bytes} {x : ℤ} (hk : k ≤ len) (hx : x ∈ commaUses len k m) :
    (0 : ℤ) ≤ x ∧ x ≤ len := by
  induction m generalizing k with
  | nil => simp only [commaUses, List.mem_singleton] at hx; omega
  | cons y m ih =>
    rw [commaUses, List.mem_cons] at hx
    rcases hx with rfl | hx
    · omega
    · split_ifs at hx with hy
      · simp at hx
      · exact ih (by omega) hx

theorem backUses_le {n : ℕ} {x : ℤ} (hx : x ∈ backUses line n) : 0 ≤ x ∧ x ≤ n := by
  induction n with
  | zero => simp only [backUses, List.mem_singleton] at hx; omega
  | succ n ih =>
    rw [backUses, List.mem_cons] at hx
    rcases hx with rfl | hx
    · omega
    · split_ifs at hx
      · simp at hx
      · have := ih hx
        omega

theorem backTo_le (line : Bytes) (n : ℕ) : backTo line n ≤ n := by
  induction n with
  | zero => exact le_rfl
  | succ n ih =>
    rw [backTo]
    split_ifs
    · exact le_rfl
    · exact Nat.le_succ_of_le ih

/-- from a byte that is no comma the loop goes back -/
theorem backTo_lt {n : ℕ} (h0 : 0 < n) (hn : line.getD n 0 ≠ 44) : backTo line n < n := by
  cases n with
  | zero => exact absurd h0 (Nat.lt_irrefl 0)
  | succ n =>
    rw [backTo, if_neg hn]
    exact Nat.lt_succ_of_le (backTo_le line n)

/-- a comparison does not get past a terminator, unless the terminator ends the text it compares with -/
theorem cmpUses_le {mem : ℤ → UInt8} {s : Bytes} {k j x : ℤ} (hs : 0 ∉ s.dropLast) (hkj : k ≤ j) (hj : mem j = 0)
    (hx : x ∈ cmpUses mem k s) : k ≤ x ∧ x ≤ j := by
  induction s generalizing k with
  | nil => simp [cmpUses] at hx
  | cons c s ih =>
    rw [cmpUses, List.mem_cons] at hx
    rcases hx with rfl | hx
    · exact ⟨le_rfl, hkj⟩
    · split_ifs at hx with hc
      swap
      · simp at hx
      cases s with
      | nil => simp [cmpUses] at hx
      | cons d s =>
        rw [List.dropLast_cons_cons, List.mem_cons, not_or] at hs
        have hne : k ≠ j := by
          rintro rfl
          exact hs.1 (hj.symm.trans hc)
        have := ih hs.2 (by omega) hx
        omega

/-- nor past the end of that text -/
theorem cmpUses_lt {mem : ℤ → UInt8} {s : Bytes} {k x : ℤ} (hx : x ∈ cmpUses mem k s) : k ≤ x ∧ x < k + s.length := by
  induction s generalizing k with
  | nil => simp [cmpUses] at hx
  | cons c s ih =>
    rw [cmpUses, List.mem_cons] at hx
    rw [List.length_cons]
    rcases hx with rfl | hx
    · omega
    · split_ifs at hx
      · have := ih hx
        omega
      · simp at hx

/-- a comparison reads its first byte -/
theorem mem_cmpUses (mem : ℤ → UInt8) (k : ℤ) {s : Bytes} (hs : s ≠ []) : k ∈ cmpUses mem k s := by
  cases s with
  | nil => exact absurd rfl hs
  | cons c s => exact List.mem_cons_self

/-! ## Terminated text -/

theorem memAt_nat (st : Stack) (line : Bytes) (k : ℕ) : memAt st line k = line.getD k 0 := by
  rw [memAt, if_neg (by omega), Int.toNat_natCast]

theorem mem_drop_of_getD {c : UInt8} {j k : ℕ} (hj : j < line.length) (hk : k ≤ j) (hc : line.getD j 0 = c) :
    c ∈ line.drop k := by
  rw [List.getD_eq_getElem _ _ hj] at hc
  exact List.mem_drop_iff_getElem.2 ⟨j - k, by omega, by simpa [Nat.add_sub_cancel' hk] using hc⟩

theorem getD_set_self {j : ℕ} (hj : j < line.length) (c : UInt8) : (line.set j c).getD j 0 = c := by
  rw [List.getD_eq_getElem _ _ (by simpa using hj), List.getElem_set_self]

/-- a further terminator takes none away -/
theorem getD_set_zero {j : ℕ} (h : line.getD j 0 = 0) (i : ℕ) : (line.set i 0).getD j 0 = 0 := by
  by_cases hj : j < line.length
  · rw [List.getD_eq_getElem _ _ (by simpa using hj), List.getElem_set]
    split_ifs
    · rfl
    · rwa [List.getD_eq_getElem _ _ hj] at h
  · exact List.getD_eq_default _ _ (by simpa using hj)

section Terminated

variable {j len : ℕ}

theorem textUses_inside (hl : line.length = 64) (hj : j < 64) (h0 : line.getD j 0 = 0) {k : ℕ} (hk : k ≤ j) :
    Inside (textUses line k) :=
  (inside_seekUses hl).2 (mem_drop_of_getD (by omega) hk h0)

theorem cmpUses_inside (hj : j < 64) (h0 : line.getD j 0 = 0) {s : Bytes} (hs : 0 ∉ s.dropLast) {k : ℤ} (hk : 0 ≤ k)
    (hkj : k ≤ j) : Inside (cmpUses (memAt st line) k s) := by
  intro x hx
  have := cmpUses_le hs hkj (by rw [memAt_nat, h0]) hx
  omega

theorem fieldUses_inside (hl : line.length = 64) (hj : j < 64) (h0 : line.getD j 0 = 0) (hlen : len < 64)
    (hc : backTo line len < j) : Inside (fieldUses line len) := by
  refine inside_append.2 ⟨fun x hx => ?_, textUses_inside hl hj h0 hc⟩
  have := backUses_le hx
  omega

/-- `recv` stays in front of the terminator of its header -/
theorem recvUses_inside (hl : line.length = 64) (h0 : line.getD len 0 = 0) (hpos : 0 < len) (hlen : len < 64) :
    Inside (recvUses line len) := by
  have hc1 : backTo line len < len := backTo_lt hpos (by rw [h0]; decide)
  set c1 := backTo line len with hd1
  set line1 := line.set c1 0 with hline1
  have hl1 : line1.length = 64 := by rw [hline1, List.length_set, hl]
  have h01 : line1.getD len 0 = 0 := getD_set_zero h0 c1
  have hc2 : backTo line1 c1 ≤ c1 := backTo_le line1 c1
  set c2 := backTo line1 c1 with hd2
  set line2 := line1.set c2 0 with hline2
  have hl2 : line2.length = 64 := by rw [hline2, List.length_set, hl1]
  have h02 : line2.getD len 0 = 0 := getD_set_zero h01 c2
  have hc3 : backTo line2 c2 ≤ c2 := backTo_le line2 c2
  set c3 := backTo line2 c2 with hd3
  set line3 := line2.set c3 0 with hline3
  have hl3 : line3.length = 64 := by rw [hline3, List.length_set, hl2]
  have h03 : line3.getD len 0 = 0 := getD_set_zero h02 c3
  have hc4 : backTo line3 c3 ≤ c3 := backTo_le line3 c3
  simp only [recvUses, ← hd1, ← hline1, ← hd2, ← hline2, ← hd3, ← hline3, inside_append, inside_singleton]
  refine ⟨⟨⟨⟨⟨⟨?_, by omega⟩, ?_⟩, by omega⟩, ?_⟩, by omega⟩, ?_⟩
  · exact fieldUses_inside hl hlen h0 hlen hc1
  · exact fieldUses_inside hl1 hlen h01 (by omega) (by omega)
  · exact fieldUses_inside hl2 hlen h02 (by omega) (by omega)
  · exact fieldUses_inside hl3 hlen h03 (by omega) (by omega)

theorem commaAt_le (line : Bytes) (len : ℕ) : commaAt line len ≤ len := Nat.min_le_right _ _

/-- `closed`, and `accept` up to its loop: the comma is looked for up to the end of the line, and becomes a terminator -/
theorem closedUses_inside (hl : line.length = 64) (hlen : len < 64) : Inside (closedUses line len) := by
  have hc := commaAt_le line len
  refine inside_append.2 ⟨inside_append.2 ⟨fun x hx => ?_, inside_singleton.2 (by omega)⟩, ?_⟩
  · have := commaUses_le (Nat.zero_le len) hx
    omega
  · exact textUses_inside (by rw [List.length_set, hl]) (by omega) (getD_set_self (by omega) 0) (Nat.zero_le _)

theorem acceptUses_inside (hl : line.length = 64) (hlen : len < 64) : Inside (acceptUses line len) := by
  obtain ⟨h1, h2⟩ := inside_append.1 (closedUses_inside hl hlen)
  exact inside_append.2 ⟨h1, fun x hx => h2 x (List.mem_of_mem_take hx)⟩

theorem responseUses_inside (h0 : line.getD len 0 = 0) (hlen : len < 64) (response : Option Bytes) :
    Inside (responseUses st line response) := by
  have hcmp : ∀ s : Bytes, 0 ∉ s → Inside (cmpUses (memAt st line) 0 s) := fun s hs =>
    cmpUses_inside hlen h0 (fun h => hs (List.mem_of_mem_dropLast h)) le_rfl (by omega)
  refine inside_append.2 ⟨hcmp _ ?_, ?_⟩
  · cases response with
    | none => decide
    | some m => exact zero_notMem_cstr m
  · split_ifs
    · exact inside_nil
    · exact hcmp _ (by decide)

/-- `parse_line` stays inside exactly on the lines of at least nine bytes -/
theorem parseUses_inside (hl : line.length = 64) (h0 : line.getD len 0 = 0) (hlen : len < 64) (response : Option Bytes) :
    Inside (parseUses st line len response) ↔ 9 ≤ len := by
  constructor
  · intro h
    have := (inside_append.1 h).1 _ (mem_cmpUses (memAt st line) ((len : ℤ) - 9) (s := str ",CONNECT") (by decide))
    omega
  · intro h9
    refine inside_append.2 ⟨cmpUses_inside hlen h0 (by decide) (by omega) (by omega), ?_⟩
    split
    · exact acceptUses_inside hl hlen
    · refine inside_append.2 ⟨cmpUses_inside hlen h0 (by decide) (by omega) (by omega), ?_⟩
      split
      · exact closedUses_inside hl hlen
      · exact responseUses_inside h0 hlen response

end Terminated

/-! ## The loops of `read_thread` and `accept` -/

theorem lineByte_eq (st : Stack) (r : Reader) (c : UInt8) : lineByte st r c =
    if EndsHeader r c then recvHeader st { r.stored c with line := r.ended c } (r.stored c).i
    else if c = 10 then parseLine st { r.stored c with line := r.ended c } (r.stored c).i
    else r.stored c := rfl

theorem stored_keeps (r : Reader) (c : UInt8) :
    (r.stored c).calls = r.calls ∧ (r.stored c).mode = r.mode := by
  unfold Reader.stored
  split_ifs <;> exact ⟨rfl, rfl⟩

/-- a byte is stored as long as the terminator has room behind it -/
theorem stored_sized (hl : r.line.length = 64) (hi : r.i < 64) (c : UInt8) :
    (r.stored c).line.length = 64 ∧ 0 < (r.stored c).i ∧ (r.stored c).i < 64 ∧ (9 ≤ (r.stored c).i ↔ 8 ≤ r.i) := by
  unfold Reader.stored
  split_ifs with hroom
  · exact ⟨by simpa using hl, Nat.succ_pos _, hroom, Nat.succ_le_succ_iff⟩
  · exact ⟨hl, by omega, hi, by omega⟩

/-- the line that it ends has its terminator -/
theorem ended_sized (hl : r.line.length = 64) (hi : r.i < 64) (c : UInt8) :
    (r.ended c).length = 64 ∧ (r.ended c).getD (r.stored c).i 0 = 0 := by
  obtain ⟨hs, _, hlt, _⟩ := stored_sized hl hi c
  exact ⟨by rw [Reader.ended, List.length_set, hs], getD_set_self (by omega) 0⟩

/-- a byte of `read_thread`: only a newline early in its line leaves the buffer -/
theorem lineUses_inside (hl : r.line.length = 64) (hi : r.i < 64) (c : UInt8) (response : Option Bytes) :
    Inside (lineUses st r c response) ↔ (c = 10 → 8 ≤ r.i) := by
  obtain ⟨hs, hpos, hlt, h9⟩ := stored_sized hl hi c
  obtain ⟨hlen, hend⟩ := ended_sized hl hi c
  have hstore : Inside (if r.i + 1 < 64 then [(r.i : ℤ)] else []) := by
    split_ifs
    · exact inside_singleton.2 hi
    · exact inside_nil
  have hcmp : Inside (if c = 58 then cmpUses (memAt st (r.stored c).line) 0 (str "+IPD") else []) := by
    split_ifs
    · intro x hx
      have h4 : (str "+IPD").length = 4 := rfl
      have := cmpUses_lt hx
      omega
    · exact inside_nil
  unfold lineUses
  rw [inside_append, inside_append, and_iff_right ⟨hstore, hcmp⟩]
  split_ifs with h1 h2
  · rw [inside_cons, inside_nat]
    exact iff_of_true ⟨hlt, recvUses_inside hlen hend hpos hlt⟩ fun h => by rw [h1.1] at h; exact absurd h (by decide)
  · rw [inside_cons, inside_nat, parseUses_inside hlen hend hlt, h9]
    exact ⟨fun h _ => h.2, fun h => ⟨hlt, h h2⟩⟩
  · exact iff_of_true inside_nil fun h => absurd h h2

section Status

variable {base j : ℕ} {linkId : Bytes}

/-- the two scans of `accept` stay inside exactly when both find their byte -/
theorem foundUses_inside (hl : line.length = 64) : Inside (foundUses line base) ↔ 34 ∈ line.drop (base + 20) ∧
    44 ∈ line.drop (base + 20 + (line.drop (base + 20)).idxOf 34 + 2) := by
  simp only [foundUses, inside_append, inside_seekUses hl]
  refine and_congr_right fun hquote => ?_
  have hq : base + 20 + (line.drop (base + 20)).idxOf 34 < 64 := by
    have := List.idxOf_lt_length_of_mem hquote
    rw [List.length_drop] at this
    omega
  have hle : base + 20 ≤ base + 20 + (line.drop (base + 20)).idxOf 34 := Nat.le_add_right _ _
  generalize base + 20 + (line.drop (base + 20)).idxOf 34 = q at hq hle
  have hl1 : (line.set q 0).length = 64 := by rw [List.length_set, hl]
  have hdrop : (line.set q 0).drop (q + 2) = line.drop (q + 2) := List.drop_set_of_lt (by omega)
  rw [if_neg (by omega), inside_cons, inside_nat, and_iff_right hq, inside_append, inside_append, inside_seekUses hl1,
    and_iff_right (textUses_inside hl1 hq (getD_set_self (by omega) 0) hle), hdrop]
  refine and_iff_left_of_imp fun hcomma => ?_
  have hp : q + 2 + (line.drop (q + 2)).idxOf 44 < 64 := by
    have := List.idxOf_lt_length_of_mem hcomma
    rw [List.length_drop] at this
    omega
  rw [if_neg (by omega), inside_cons, inside_nat]
  exact ⟨hp, textUses_inside (by rw [List.length_set, hl1]) hp (getD_set_self (by omega) 0) (Nat.le_add_right _ _)⟩

/-- a text without a terminator in front of one ends before it -/
theorem add_length_le {s : Bytes} (hs : 0 ∉ s) (hb : base ≤ j) (h0 : line.getD j 0 = 0) (hp : s <+: line.drop base) :
    base + s.length ≤ j := by
  by_contra hlt
  obtain ⟨m, hm⟩ := hp
  have hj : (line.drop base).getD (j - base) 0 = 0 := by
    rw [List.getD_eq_getElem?_getD, List.getElem?_drop, Nat.add_sub_cancel' hb, ← List.getD_eq_getElem?_getD, h0]
  rw [← hm, List.getD_append _ _ _ _ (by omega), List.getD_eq_getElem _ _ (by omega)] at hj
  exact hs (hj ▸ List.getElem_mem _)

/-- a status line is not one of the final lines -/
theorem cstr_ne_of_starts {s t m : Bytes} (hs : 0 ∉ s) (hp : s <+: m) (ht : t.length < s.length) : cstr m ≠ t := by
  obtain ⟨m', rfl⟩ := hp
  rw [cstr_append hs]
  rintro rfl
  rw [List.length_append] at ht
  omega

/-- a complete line in `accept`: only the scans leave the buffer -/
theorem endUses_inside (hl : line.length = 64) (hj : j < 64) (h0 : line.getD j 0 = 0) (hb : base ≤ j)
    (hid : 0 ∉ linkId) : Inside (endUses st line base linkId) ↔ Found line base linkId := by
  have hstatus : (0 : UInt8) ∉ str "+CIPSTATUS:" := by decide
  have hcmp : ∀ s : Bytes, 0 ∉ s.dropLast → Inside (cmpUses (memAt st line) base s) := fun s hs =>
    cmpUses_inside hj h0 hs (by omega) (by omega)
  have hfinal : ∀ t : Bytes, t.length < 11 → cstr (line.drop base) = t → Found line base linkId := fun t ht he hp =>
    absurd he (cstr_ne_of_starts hstatus hp ht)
  unfold endUses
  rw [inside_append, and_iff_right (hcmp _ (by decide))]
  split
  · rename_i hok
    exact iff_of_true inside_nil (hfinal _ (by decide) hok)
  rw [inside_append, and_iff_right (hcmp _ (by decide))]
  split
  · rename_i herr
    exact iff_of_true inside_nil (hfinal _ (by decide) herr)
  rw [inside_append, and_iff_right (hcmp _ (by decide))]
  split <;> rename_i hp <;> rw [List.isPrefixOf_iff_prefix] at hp
  swap
  · exact iff_of_true inside_nil fun h => absurd h hp
  have h11 : base + 11 ≤ j := add_length_le hstatus hb h0 hp
  rw [inside_append, and_iff_right (cmpUses_inside hj h0 (fun h => hid (List.mem_of_mem_dropLast h)) (by omega)
    (by omega))]
  split <;> rename_i hl2 <;> rw [List.isPrefixOf_iff_prefix] at hl2
  · rw [foundUses_inside hl]
    exact ⟨fun h _ _ => h, fun h => h hp hl2⟩
  · exact iff_of_true inside_nil fun _ h => absurd h hl2

theorem statusUses_inside (hl : r.line.length = 64) (hid : 0 ∉ linkId) (c : UInt8) :
    Inside (statusUses st r base linkId c) ↔
      base + r.i < 64 ∧ (c = 10 → Found (r.line.set (base + r.i) 0) base linkId) := by
  rw [statusUses, inside_cons, inside_nat]
  refine and_congr_right fun hroom => ?_
  rw [if_neg (by omega)]
  split_ifs with hc
  · have hset : (r.line.set (base + r.i) 0).length = 64 := by rw [List.length_set, hl]
    rw [inside_cons, inside_nat, and_iff_right hroom,
      endUses_inside hset hroom (getD_set_self (by omega) 0) (Nat.le_add_right _ _) hid]
    exact ⟨fun h _ => h, fun h => h hc⟩
  · exact iff_of_true inside_nil fun h => absurd h hc

end Status

/-- **A byte makes the reader use indices of the buffer only, exactly when it fits.** -/
theorem byteUses_inside (h : r.Sized) (c : UInt8) (response : Option Bytes) :
    Inside (byteUses st r c response) ↔ Fits r c := by
  cases hm : r.mode with
  | line => simp only [byteUses, Fits, hm, lineUses_inside h.size (h.line hm)]
  | payload left got linkId remote => simp only [byteUses, Fits, hm, inside_nil]
  | status base linkId => simp only [byteUses, Fits, hm, statusUses_inside h.size (h.status base linkId hm).2]
  | ended => simp only [byteUses, Fits, hm, inside_nil]
  | crashed => simp only [byteUses, Fits, hm, inside_nil]

/-! ## What every byte keeps -/

/-- outside the loops over lines nothing depends on the counter -/
theorem sized_of_mode {r : Reader} (hl : r.line.length = 64) (hline : r.mode ≠ .line)
    (hstatus : ∀ base linkId, r.mode ≠ .status base linkId) : r.Sized :=
  ⟨hl, fun h => absurd h hline, fun b l h => absurd h (hstatus b l)⟩

theorem Reader.Sized.crash (h : r.Sized) : r.crash.Sized :=
  sized_of_mode h.size (by simp [Reader.crash]) (by simp [Reader.crash])

theorem done_sized (hl : r.line.length = 64) (c : Call) : (r.done c).Sized :=
  ⟨hl, fun _ => Nat.zero_lt_succ _, fun _ _ => (nomatch ·)⟩

theorem recvHeader_sized (hl : r.line.length = 64) (len : ℕ) : (recvHeader st r len).Sized := by
  unfold recvHeader
  dsimp only
  split_ifs
  · exact sized_of_mode (by simpa using hl) (by simp) (by simp)
  · exact done_sized (by simpa using hl) _
  · exact sized_of_mode (by simpa using hl) (by simp) (by simp)

theorem parseLine_sized (hl : r.line.length = 64) (len : ℕ) : (parseLine st r len).Sized := by
  unfold parseLine
  split_ifs
  · refine ⟨by simpa [acceptBegin] using hl, (nomatch ·), fun base linkId h => ?_⟩
    cases h
    exact ⟨by decide, zero_notMem_cstr _⟩
  · exact done_sized (by simpa using hl) _
  · exact done_sized (by simpa using hl) _

theorem lineByte_sized (hl : r.line.length = 64) (hi : r.i < 64) (hm : r.mode = .line) (c : UInt8) :
    (lineByte st r c).Sized := by
  obtain ⟨hs, _, hlt, _⟩ := stored_sized hl hi c
  have hlen := (ended_sized hl hi c).1
  rw [lineByte_eq]
  split_ifs
  · exact recvHeader_sized hlen _
  · exact parseLine_sized hlen _
  · refine ⟨hs, fun _ => hlt, fun _ _ h => ?_⟩
    rw [(stored_keeps r c).2, hm] at h
    cases h

/-- the pointer of `accept` only moves to where a comma was found behind it -/
theorem statusFound_sized {base : ℕ} {linkId : Bytes} (h : r.Sized) (hid : 0 ∉ linkId) :
    (statusFound st r base linkId).Sized := by
  unfold statusFound
  dsimp only
  split_ifs with hq hp
  · exact h.crash
  · exact h.crash
  · refine ⟨by simpa using h.size, (nomatch ·), fun b l hm => ?_⟩
    cases hm
    rw [h.size] at hp
    exact ⟨by omega, hid⟩

theorem statusByte_sized {base : ℕ} {linkId : Bytes} (h : r.Sized) (hm : r.mode = .status base linkId) (c : UInt8) :
    (statusByte st r base linkId c).Sized := by
  obtain ⟨hbase, hid⟩ := h.status base linkId hm
  have hkeep : ∀ s : Reader, s.line.length = 64 → s.mode = r.mode → s.Sized := by
    intro s hs hms
    rw [hm] at hms
    refine ⟨hs, fun hl => ?_, fun b l hb => ?_⟩
    · rw [hms] at hl
      cases hl
    · rw [hms] at hb
      cases hb
      exact ⟨hbase, hid⟩
  unfold statusByte statusLine
  split_ifs
  · exact h.crash
  · exact ⟨by simpa using h.size, fun _ => Nat.zero_lt_succ _, fun _ _ => (nomatch ·)⟩
  · exact statusFound_sized (hkeep _ (by simpa using h.size) rfl) hid
  · exact hkeep _ (by simpa using h.size) rfl
  · exact hkeep _ (by simpa using h.size) rfl

/-- **Every byte leaves the buffer with its 64 bytes, and both counters inside.** -/
theorem readByte_sized (h : r.Sized) (c : UInt8) : (readByte st r c).Sized := by
  cases hm : r.mode with
  | line =>
    rw [readByte, hm]
    exact lineByte_sized h.size (h.line hm) hm c
  | payload left got linkId remote =>
    simp only [readByte, hm, payloadByte]
    split_ifs
    · exact done_sized h.size _
    · exact sized_of_mode h.size (by simp) (by simp)
  | status base linkId =>
    rw [readByte, hm]
    exact statusByte_sized h hm c
  | ended =>
    rw [readByte, hm]
    exact h
  | crashed =>
    rw [readByte, hm]
    exact h

end EspHostdriver
