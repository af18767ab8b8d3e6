/-
Lean model of the reader thread (`read_thread`, `parse_line`, `recv`, `accept`, `closed` of `esp01/serial.c`).

The reader is driven byte by byte: `readByte` is what one successful `read` of the thread leads to, up to the next
one, and `readEnd` what a failing one leads to. The mode says which `read` the thread is blocked in: the one of
`read_thread`, the payload loop of `recv`, or the loop of `accept` over the status lines, whose `line` pointer moves
(`base`).

- One 64-byte buffer serves all three loops and is never cleared. `accept` stores into it without looking at its size.
- `parse_line` looks at the 9 and at the 8 bytes that end at the newline, also when the line is shorter than that: then
  it reads the memory in front of the buffer (`Stack.below`).
- `calls` is what the reader has done so far: the calls to the device, the response checks, and the queries it writes.
- After a store or a scan outside the buffer the reader is `crashed`.

- `readRun_text`: a text without header or newline is stored as it stands.
- `readByte_newline`, `parseLine_closed`, `parseLine_connect`, `parseLine_response`: what a complete line does.
- `readRun_payload`: a payload is collected whatever its bytes are.
- `status_text`, `statusLine_*`: the same for the loop of `accept`.
-/
import EspHostdriver.Net.Inet

namespace EspHostdriver

/-! ## Model -/

/-- memory the reader looks at without having set it: in front of `line`, behind `link_id`, and the padding of a
socket address on its stack -/
structure Stack where
  below : ℕ → UInt8
  past : Bytes
  pad : UInt16

/-- what the reader does to the outside; `response` is the response check of a line, `query` a written `AT+CIPSTATUS` -/
inductive Call where
  | recv (linkId : ℤ) (data : Bytes) (remote : SockAddrInet)
  | accept (linkId : ℤ) (remote : SockAddrInet)
  | closed (linkId : ℤ)
  | response (line : Bytes)
  | query
deriving DecidableEq, Repr

/-- the `read` the thread is in -/
inductive Mode where
  | line
  | payload (left : ℕ) (got : Bytes) (linkId : ℤ) (remote : SockAddrInet)
  | status (base : ℕ) (linkId : Bytes)
  | ended
  | crashed
deriving DecidableEq, Repr

structure Reader where
  line : Bytes
  i : ℕ
  mode : Mode
  calls : List Call
deriving DecidableEq, Repr

/-- a use of an index outside the buffer that cannot be survived -/
def Reader.crash (r : Reader) : Reader := { r with mode := .crashed }

/-- back to the reading of lines, after a call -/
def Reader.done (r : Reader) (c : Call) : Reader := { r with i := 0, mode := .line, calls := r.calls ++ [c] }

/-- `while(line[len] != ',' && len > 0) len--` -/
def backTo (line : Bytes) : ℕ → ℕ
  | 0 => 0
  | n + 1 => if line.getD (n + 1) 0 = 44 then n + 1 else backTo line n

/-- `while(line[i] != ',' && i < len) i++` -/
def commaAt (line : Bytes) (len : ℕ) : ℕ := min (line.idxOf 44) len

/-- `recv` up to its payload loop -/
def recvHeader (st : Stack) (r : Reader) (len : ℕ) : Reader :=
  let c1 := backTo r.line len
  let port := UInt16.ofInt (atoi (r.line.drop (c1 + 1)))
  let line := r.line.set c1 0
  let c2 := backTo line c1
  let addr := inetAddr (line.drop (c2 + 1))
  let line := line.set c2 0
  let c3 := backTo line c2
  let n := atoi (line.drop (c3 + 1))
  let line := line.set c3 0
  let c4 := backTo line c3
  let linkId := atoi (line.drop (c4 + 1))
  let remote : SockAddrInet := ⟨.afInet, ⟨addr, port, st.pad⟩⟩
  let r := { r with line := line }
  -- a negative number becomes a `size_t` that no stack holds
  if n < 0 then { r with mode := .crashed }
  else if n = 0 then r.done (.recv linkId [] remote)
  else { r with mode := .payload n.toNat [] linkId remote }

/-- `strncpy(link_id, line, 5)`, read back as a string -/
def linkText (st : Stack) (line : Bytes) : Bytes := cstr ((cstr line ++ [0, 0, 0, 0, 0]).take 5 ++ st.past)

/-- `accept` up to its loop -/
def acceptBegin (st : Stack) (r : Reader) (len : ℕ) : Reader :=
  let line := r.line.set (commaAt r.line len) 0
  { r with line := line, i := 0, mode := .status 0 (linkText st line), calls := r.calls ++ [.query] }

def closedLine (r : Reader) (len : ℕ) : Reader :=
  let line := r.line.set (commaAt r.line len) 0
  { r with line := line }.done (.closed (atoi line))

/-- the memory from `line + len - n` on -/
def lineTail (st : Stack) (line : Bytes) (len n : ℕ) : Bytes :=
  if n ≤ len then line.drop (len - n) else (List.range (n - len)).reverse.map st.below ++ line

def parseLine (st : Stack) (r : Reader) (len : ℕ) : Reader :=
  if (str ",CONNECT").isPrefixOf (lineTail st r.line len 9) then acceptBegin st r len
  else if (str ",CLOSED").isPrefixOf (lineTail st r.line len 8) then closedLine r len
  else r.done (.response (r.line.take len))

/-- one byte in the loop of `read_thread` -/
def lineByte (st : Stack) (r : Reader) (c : UInt8) : Reader :=
  let r := if r.i + 1 < 64 then { r with line := r.line.set r.i c, i := r.i + 1 } else r
  if c = 58 ∧ (str "+IPD").isPrefixOf r.line then recvHeader st { r with line := r.line.set r.i 0 } r.i
  else if c = 10 then parseLine st { r with line := r.line.set r.i 0 } r.i
  else r

/-- one byte in the loop of `recv` -/
def payloadByte (r : Reader) (left : ℕ) (got : Bytes) (linkId : ℤ) (remote : SockAddrInet) (c : UInt8) : Reader :=
  if left ≤ 1 then r.done (.recv linkId (got ++ [c]) remote)
  else { r with mode := .payload (left - 1) (got ++ [c]) linkId remote }

/-- `accept` on a status line of its link -/
def statusFound (st : Stack) (r : Reader) (base : ℕ) (linkId : Bytes) : Reader :=
  let q := base + 20 + (r.line.drop (base + 20)).idxOf 34
  if r.line.length ≤ q then r.crash
  else
    let line := r.line.set q 0
    let addr := inetAddr (line.drop (base + 20))
    let p := q + 2 + (line.drop (q + 2)).idxOf 44
    if r.line.length ≤ p then r.crash
    else
      let line := line.set p 0
      let port := UInt16.ofInt (atoi (line.drop (q + 2)))
      { r with
        line := line, i := 0, mode := .status (q + 2) linkId,
        calls := r.calls ++ [.accept (atoi linkId) ⟨.afInet, ⟨addr, port, st.pad⟩⟩] }

/-- a complete line in the loop of `accept` -/
def statusLine (st : Stack) (r : Reader) (base : ℕ) (linkId : Bytes) : Reader :=
  if cstr (r.line.drop base) = str "OK" ∨ cstr (r.line.drop base) = str "ERROR" then { r with i := 0, mode := .line }
  else if (str "+CIPSTATUS:").isPrefixOf (r.line.drop base) ∧ linkId.isPrefixOf (r.line.drop (base + 11)) then
    statusFound st r base linkId
  else { r with i := 0 }

/-- one byte in the loop of `accept` -/
def statusByte (st : Stack) (r : Reader) (base : ℕ) (linkId : Bytes) (c : UInt8) : Reader :=
  if r.line.length ≤ base + r.i then r.crash
  else if c = 10 then statusLine st { r with line := r.line.set (base + r.i) 0 } base linkId
  else { r with line := r.line.set (base + r.i) c, i := r.i + 1 }

/-- what the reader does from one `read` to the next -/
def readByte (st : Stack) (r : Reader) (c : UInt8) : Reader :=
  match r.mode with
  | .line => lineByte st r c
  | .payload left got linkId remote => payloadByte r left got linkId remote c
  | .status base linkId => statusByte st r base linkId c
  | .ended => r
  | .crashed => r

/-- a `read` that fails: it ends `read_thread`; `recv` passes its payload on as far as it came, and the loops of `recv`
and `accept` return to `read_thread`, which goes on reading -/
def readEnd (r : Reader) : Reader :=
  match r.mode with
  | .line => { r with mode := .ended }
  | .payload _ got linkId remote => r.done (.recv linkId got remote)
  | .status _ _ => { r with i := 0, mode := .line }
  | .ended => r
  | .crashed => r

def readRun (st : Stack) (r : Reader) (bs : Bytes) : Reader := bs.foldl (readByte st) r

variable {st : Stack} {r : Reader}

@[simp] theorem readRun_nil : readRun st r [] = r := rfl

@[simp] theorem readRun_cons (c : UInt8) (bs : Bytes) : readRun st r (c :: bs) = readRun st (readByte st r c) bs := rfl

theorem readRun_append (as bs : Bytes) : readRun st r (as ++ bs) = readRun st (readRun st r as) bs :=
  List.foldl_append

/-! ## Lines in the buffer -/

theorem set_at (pre : Bytes) (x c : UInt8) (m : Bytes) : (pre ++ x :: m).set pre.length c = pre ++ c :: m := by simp

/-- the reader of lines with the fresh bytes `pre` in front of the stale bytes `rest` -/
def Reader.holding (r : Reader) (pre rest : Bytes) : Reader :=
  { r with line := pre ++ rest, i := pre.length, mode := .line }

/-- the colon itself is among the first four bytes when it comes early, so the stale bytes behind it do not matter -/
theorem header_fresh (pre m : Bytes) : str "+IPD" <+: pre ++ 58 :: m ↔ str "+IPD" <+: pre := by
  rcases pre with _ | ⟨a, _ | ⟨b, _ | ⟨c, _ | ⟨d, pre⟩⟩⟩⟩ <;> simp [str]

theorem readByte_store {pre rest : Bytes} {x c : UInt8} (hl : pre.length + 1 < 64) (hc : c ≠ 10)
    (hh : c = 58 → ¬ str "+IPD" <+: pre) :
    readByte st (r.holding pre (x :: rest)) c = r.holding (pre ++ [c]) rest := by
  have hno : ¬ (c = 58 ∧ (str "+IPD").isPrefixOf (pre ++ c :: rest) = true) := by
    rintro ⟨rfl, hp⟩
    exact hh rfl ((header_fresh pre rest).1 (List.isPrefixOf_iff_prefix.1 hp))
  simp only [readByte, Reader.holding, lineByte, hl, if_true, set_at, hno, if_false, hc]
  simp

/-- a text without header or newline is stored as it stands -/
theorem readRun_text {t pre rest : Bytes} (hl : pre.length + rest.length = 64) (ht : pre.length + t.length < 64)
    (hn : 10 ∉ t) (hh : 58 ∈ t → ¬ str "+IPD" <+: pre ++ t) :
    readRun st (r.holding pre rest) t = r.holding (pre ++ t) (rest.drop t.length) := by
  induction t generalizing pre rest with
  | nil => simp
  | cons c t ih =>
    rw [List.mem_cons, not_or] at hn
    rw [List.length_cons] at ht
    obtain ⟨x, rest, rfl⟩ : ∃ x m, rest = x :: m := by
      cases rest with
      | nil => rw [List.length_nil] at hl; omega
      | cons x m => exact ⟨x, m, rfl⟩
    have hc : c = 58 → ¬ str "+IPD" <+: pre := by
      intro h hp
      exact hh (by simp [h]) (hp.trans (List.prefix_append _ _))
    have htail : 58 ∈ t → ¬ str "+IPD" <+: pre ++ [c] ++ t := by
      intro h
      simpa using hh (List.mem_cons_of_mem c h)
    have hlen : (pre ++ [c]).length = pre.length + 1 := by simp
    rw [List.length_cons] at hl
    rw [readRun_cons, readByte_store (by omega) (Ne.symm hn.1) hc, ih (by omega) (by omega) hn.2 htail]
    simp

theorem readByte_newline {t rest : Bytes} {x y : UInt8} (ht : t.length + 1 < 64) :
    readByte st (r.holding t (x :: y :: rest)) 10 =
      parseLine st (r.holding (t ++ [10]) (0 :: rest)) (t.length + 1) := by
  have hs : (t ++ 10 :: y :: rest).set (t.length + 1) 0 = t ++ 10 :: 0 :: rest := by simp
  simp [readByte, Reader.holding, lineByte, ht, hs]

/-- the reader waits for the first byte of a line -/
structure Reader.Idle (r : Reader) : Prop where
  mode : r.mode = .line
  i : r.i = 0
  size : r.line.length = 64

theorem Reader.Idle.holding (h : r.Idle) : r.holding [] r.line = r := by
  obtain ⟨hm, hi, _⟩ := h
  cases r
  simp_all [Reader.holding]

/-- a complete line goes to `parse_line` with its newline and a terminator behind it -/
theorem readRun_line (st : Stack) {t : Bytes} (hr : r.Idle) (ht : t.length < 63) (hn : 10 ∉ t)
    (hh : 58 ∈ t → ¬ str "+IPD" <+: t) :
    ∃ rest, t.length + 2 + rest.length = 64 ∧
      readRun st r (t ++ [10]) = parseLine st (r.holding (t ++ [10]) (0 :: rest)) (t.length + 1) := by
  have hl : (r.line.drop t.length).length = 64 - t.length := by rw [List.length_drop, hr.size]
  obtain ⟨x, y, rest, hd⟩ : ∃ x y m, r.line.drop t.length = x :: y :: m := by
    rcases hd : r.line.drop t.length with _ | ⟨x, _ | ⟨y, m⟩⟩
    · rw [hd, List.length_nil] at hl; omega
    · rw [hd, List.length_singleton] at hl; omega
    · exact ⟨x, y, m, rfl⟩
  rw [hd, List.length_cons, List.length_cons] at hl
  refine ⟨rest, by omega, ?_⟩
  have htext : readRun st r t = r.holding t (r.line.drop t.length) := by
    have h0 : readRun st (r.holding [] r.line) t = r.holding ([] ++ t) (r.line.drop t.length) :=
      readRun_text (by simpa using hr.size) (by simp; omega) hn (by simpa using hh)
    rwa [hr.holding, List.nil_append] at h0
  rw [hd] at htext
  calc readRun st r (t ++ [10]) = readRun st (r.holding t (x :: y :: rest)) [10] := by rw [readRun_append, htext]
    _ = readByte st (r.holding t (x :: y :: rest)) 10 := rfl
    _ = parseLine st (r.holding (t ++ [10]) (0 :: rest)) (t.length + 1) := readByte_newline (by omega)

/-! ## What a line is taken for -/

/-- on a line that is long enough the two tests look at the end of its text -/
theorem lineTail_suffix (st : Stack) {s t : Bytes} (m : Bytes) (h : s.length ≤ t.length) :
    s.isPrefixOf (lineTail st (t ++ 10 :: m) (t.length + 1) (s.length + 1)) = true ↔ s <:+ t := by
  have hlen : (t.drop (t.length - s.length)).length = s.length := by rw [List.length_drop]; omega
  have htail : lineTail st (t ++ 10 :: m) (t.length + 1) (s.length + 1) = t.drop (t.length - s.length) ++ 10 :: m := by
    rw [lineTail, if_pos (by omega), Nat.add_sub_add_right, List.drop_append_of_le_length (by omega)]
  calc s.isPrefixOf (lineTail st (t ++ 10 :: m) (t.length + 1) (s.length + 1)) = true
      ↔ s <+: t.drop (t.length - s.length) ++ 10 :: m := by rw [List.isPrefixOf_iff_prefix, htail]
    _ ↔ s = t.drop (t.length - s.length) := by rw [List.prefix_iff_eq_take, List.take_left' hlen]
    _ ↔ s <:+ t := List.suffix_iff_eq_drop.symm

theorem parseLine_response {len : ℕ} (h1 : ¬ (str ",CONNECT").isPrefixOf (lineTail st r.line len 9))
    (h2 : ¬ (str ",CLOSED").isPrefixOf (lineTail st r.line len 8)) :
    parseLine st r len = r.done (.response (r.line.take len)) := by
  rw [parseLine, if_neg h1, if_neg h2]

theorem parseLine_connect {t rest : Bytes} (hline : r.line = t ++ 10 :: rest) (ht : str ",CONNECT" <:+ t) :
    parseLine st r (t.length + 1) = acceptBegin st r (t.length + 1) := by
  have hl : (str ",CONNECT").length ≤ t.length := ht.length_le
  have h9 : (str ",CONNECT").length = 8 := rfl
  have h1 := (lineTail_suffix st rest hl).2 ht
  rw [← hline, h9] at h1
  rw [parseLine, if_pos h1]

/-- a text that ends with the one word does not end with the other -/
theorem not_connect_of_closed {t : Bytes} (ht : str ",CLOSED" <:+ t) : ¬ str ",CONNECT" <:+ t := by
  obtain ⟨m, rfl⟩ := ht
  rw [← List.reverse_prefix, List.reverse_append]
  simp [str]

theorem parseLine_closed {t rest : Bytes} (hline : r.line = t ++ 10 :: rest) (ht : str ",CLOSED" <:+ t)
    (h8 : 8 ≤ t.length) : parseLine st r (t.length + 1) = closedLine r (t.length + 1) := by
  have h1 := (lineTail_suffix st (s := str ",CONNECT") rest h8).not.2 (not_connect_of_closed ht)
  have h2 := (lineTail_suffix st rest ht.length_le).2 ht
  rw [← hline, show (str ",CONNECT").length = 8 from rfl] at h1
  rw [← hline, show (str ",CLOSED").length = 7 from rfl] at h2
  rw [parseLine, if_neg h1, if_pos h2]

theorem commaAt_field {f : Bytes} (hf : 44 ∉ f) (m : Bytes) {len : ℕ} (hl : f.length ≤ len) :
    commaAt (f ++ 44 :: m) len = f.length := by
  rw [commaAt, List.idxOf_append_of_notMem hf, List.idxOf_cons_self]
  omega

theorem closedLine_field {k : ℕ} (hk : k < 2 ^ 31) {m : Bytes} {len : ℕ} (hline : r.line = dec k ++ 44 :: m)
    (hl : (dec k).length ≤ len) : closedLine r len = { r with line := dec k ++ 0 :: m }.done (.closed k) := by
  have h0 : atoi (dec k ++ 0 :: m) = k := atoi_dec hk (stops_cons m (by decide))
  simp only [closedLine, hline, commaAt_field (notMem_dec (by decide) k) m hl, set_at, h0]

/-- the number of a link, copied out as a string -/
theorem linkText_dec {k : ℕ} (hk : (dec k).length < 5) (m : Bytes) : linkText st (dec k ++ 0 :: m) = dec k := by
  have h0 : (0 : UInt8) ∉ dec k := notMem_dec (by decide) k
  obtain ⟨z, hz⟩ : ∃ z, (dec k ++ [0, 0, 0, 0, 0]).take 5 = dec k ++ 0 :: z := by
    obtain ⟨j, hj⟩ : ∃ j, 5 = (dec k).length + (j + 1) := ⟨4 - (dec k).length, by omega⟩
    refine ⟨[0, 0, 0, 0].take j, ?_⟩
    rw [hj, List.take_length_add_append]
    rfl
  rw [linkText, cstr_term h0, hz, List.append_assoc, List.cons_append, cstr_term h0]

theorem acceptBegin_field {k : ℕ} (hk : (dec k).length < 5) {m : Bytes} {len : ℕ} (hline : r.line = dec k ++ 44 :: m)
    (hl : (dec k).length ≤ len) :
    acceptBegin st r len = { r with
      line := dec k ++ 0 :: m, i := 0, mode := .status 0 (dec k), calls := r.calls ++ [.query] } := by
  simp only [acceptBegin, hline, commaAt_field (notMem_dec (by decide) k) m hl, set_at, linkText_dec hk]

/-! ## The header of a payload -/

theorem backTo_step {line : Bytes} {n : ℕ} (h : line.getD (n + 1) 0 ≠ 44) : backTo line (n + 1) = backTo line n := by
  rw [backTo, if_neg h]

theorem backTo_at (pre m : Bytes) : backTo (pre ++ 44 :: m) pre.length = pre.length := by
  cases h : pre.length with
  | zero => rfl
  | succ n => rw [backTo, if_pos]; rw [← h]; simp

/-- the scan backwards from the end of a field stops at the comma in front of it -/
theorem backTo_field (pre : Bytes) {f : Bytes} (hf : 44 ∉ f) (m : Bytes) :
    backTo (pre ++ 44 :: (f ++ 0 :: m)) (pre.length + (f.length + 1)) = pre.length := by
  have hback : ∀ k ≤ f.length + 1, backTo (pre ++ 44 :: (f ++ 0 :: m)) (pre.length + k) = pre.length := by
    intro k
    induction k with
    | zero => intro _; exact backTo_at pre _
    | succ k ih =>
      intro hk
      have hne : (pre ++ 44 :: (f ++ 0 :: m)).getD (pre.length + k + 1) 0 ≠ 44 := by
        have hget : (pre ++ 44 :: (f ++ 0 :: m))[pre.length + k + 1]? = (f ++ 0 :: m)[k]? := by
          rw [List.getElem?_append_right (by omega), show pre.length + k + 1 - pre.length = k + 1 by omega]
          rfl
        rw [List.getD_eq_getElem?_getD, hget]
        rcases Nat.lt_or_ge k f.length with hlt | hge
        · rw [List.getElem?_append_left hlt, List.getElem?_eq_getElem hlt, Option.getD_some]
          intro h
          exact hf (h ▸ List.getElem_mem hlt)
        · rw [List.getElem?_append_right hge, show k - f.length = 0 by omega]
          simp
      rw [← Nat.add_assoc, backTo_step hne]
      exact ih (by omega)
  exact hback _ (le_refl _)

theorem drop_field (pre m : Bytes) (c : UInt8) : (pre ++ c :: m).drop (pre.length + 1) = m := by
  rw [List.drop_append, List.drop_eq_nil_of_le (by omega), show pre.length + 1 - pre.length = 1 by omega]
  rfl

/-- the header of a payload: the four fields behind the commas -/
def header (lit : Bytes) (l n : ℕ) (a : UInt32) (p : UInt16) : Bytes :=
  lit ++ 44 :: (dec l ++ 44 :: (dec n ++ 44 :: (dotted a ++ 44 :: dec p.toNat)))

/-- the sender a header names, as it lies on the stack of `recv` -/
def remoteOf (st : Stack) (a : UInt32) (p : UInt16) : SockAddrInet := ⟨.afInet, ⟨a, p, st.pad⟩⟩

theorem ofInt_atoi_port {p : UInt16} {m : Bytes} (hm : Stops m) : UInt16.ofInt (atoi (dec p.toNat ++ m)) = p := by
  have hp := p.toNat_lt
  rw [atoi_dec (by omega) hm]
  apply UInt16.toNat_inj.1
  rw [UInt16.ofInt, UInt16.toNat_ofNat']
  omega

/-- **the header is decoded as it was written**: each field is cut off from the end once it has been read -/
theorem recvHeader_header (st : Stack) {lit m : Bytes} {l n : ℕ} {a : UInt32} {p : UInt16} (hl : l < 2 ^ 31)
    (hn : n < 2 ^ 31) (hline : r.line = header lit l n a p ++ 58 :: 0 :: m) :
    ∃ line, line.length = r.line.length ∧ recvHeader st r ((header lit l n a p).length + 1) =
      if n = 0 then { r with line := line }.done (.recv l [] (remoteOf st a p))
      else { r with line := line, mode := .payload n [] l (remoteOf st a p) } := by
  have hdec : ∀ k, (44 : UInt8) ∉ dec k := notMem_dec (by decide)
  have hdot : (44 : UInt8) ∉ dotted a := notMem_dotted (by decide) (by decide) a
  have hport : (44 : UInt8) ∉ dec p.toNat ++ [58] := by simp [hdec]
  -- the text in front of each comma
  set p2 := lit ++ 44 :: dec l with hp2
  set p3 := p2 ++ 44 :: dec n with hp3
  set p4 := p3 ++ 44 :: dotted a with hp4
  have hhead : header lit l n a p = p4 ++ 44 :: dec p.toNat := by simp [header, hp2, hp3, hp4]
  have hlen : (header lit l n a p).length + 1 = p4.length + ((dec p.toNat ++ [58]).length + 1) := by
    rw [hhead]; simp; omega
  -- what is left of the line behind each cut
  set m4 := dec p.toNat ++ [58] ++ 0 :: m with hm4
  set m3 := dotted a ++ 0 :: m4 with hm3
  set m2 := dec n ++ 0 :: m3 with hm2
  set m1 := dec l ++ 0 :: m2 with hm1
  have hline4 : r.line = p4 ++ 44 :: m4 := by rw [hline, hhead, hm4]; simp
  have cut4 : p4 ++ 0 :: m4 = p3 ++ 44 :: m3 := by simp [hp4, hm3]
  have cut3 : p3 ++ 0 :: m3 = p2 ++ 44 :: m2 := by simp [hp3, hm2]
  have cut2 : p2 ++ 0 :: m2 = lit ++ 44 :: m1 := by simp [hp2, hm1]
  have back4 : backTo (p4 ++ 44 :: m4) ((header lit l n a p).length + 1) = p4.length := by
    rw [hlen]; exact backTo_field p4 hport m
  have back3 : backTo (p3 ++ 44 :: m3) p4.length = p3.length := by
    have := backTo_field p3 hdot m4
    rwa [← hm3, show p3.length + ((dotted a).length + 1) = p4.length by simp [hp4]] at this
  have back2 : backTo (p2 ++ 44 :: m2) p3.length = p2.length := by
    have := backTo_field p2 (hdec n) m3
    rwa [← hm2, show p2.length + ((dec n).length + 1) = p3.length by simp [hp3]] at this
  have back1 : backTo (lit ++ 44 :: m1) p2.length = lit.length := by
    have := backTo_field lit (hdec l) m2
    rwa [← hm1, show lit.length + ((dec l).length + 1) = p2.length by simp [hp2]] at this
  have val4 : UInt16.ofInt (atoi m4) = p := by
    rw [hm4, List.append_assoc]
    exact ofInt_atoi_port (stops_cons _ (by decide))
  have val3 : inetAddr m3 = a := inetAddr_dotted a m4
  have val2 : atoi m2 = n := atoi_dec hn (stops_cons _ (by decide))
  have val1 : atoi m1 = l := atoi_dec hl (stops_cons _ (by decide))
  refine ⟨lit ++ 44 :: m1, ?_, ?_⟩
  · rw [← cut2, ← set_at p2 44 0 m2, ← cut3, ← set_at p3 44 0 m3, ← cut4, ← set_at p4 44 0 m4]
    simp [hline4]
  · simp only [recvHeader, hline4, back4, drop_field, set_at, val4, cut4, back3, val3, cut3, back2, val2, cut2, back1,
      val1]
    rw [if_neg (by omega)]
    simp [remoteOf, Int.natCast_eq_zero]

/-- a payload is collected whatever its bytes are -/
theorem readRun_payload {l : ℤ} {remote : SockAddrInet} {data got : Bytes} (hd : data ≠ [])
    (hm : r.mode = .payload data.length got l remote) :
    readRun st r data = r.done (.recv l (got ++ data) remote) := by
  induction data generalizing r got with
  | nil => exact absurd rfl hd
  | cons c data ih =>
    have hbyte : readByte st r c = payloadByte r (data.length + 1) got l remote c := by rw [readByte, hm]; rfl
    rw [readRun_cons, hbyte]
    cases data with
    | nil => rfl
    | cons c' data =>
      have hmore : payloadByte r ((c' :: data).length + 1) got l remote c =
          { r with mode := .payload (c' :: data).length (got ++ [c]) l remote } := by simp [payloadByte]
      rw [hmore, ih (by simp) rfl]
      simp [Reader.done]

/-! ## The status lines -/

theorem readRun_crashed (h : r.mode = .crashed) (bs : Bytes) : readRun st r bs = r := by
  induction bs with
  | nil => rfl
  | cons c bs ih => rw [readRun_cons, show readByte st r c = r by rw [readByte, h], ih]

/-- the reader in the loop of `accept`: the bytes that `line` has moved past, the fresh ones, the stale ones -/
def Reader.listening (r : Reader) (linkId front pre rest : Bytes) : Reader :=
  { r with line := front ++ (pre ++ rest), i := pre.length, mode := .status front.length linkId }

theorem set_behind (front pre m : Bytes) (x c : UInt8) :
    (front ++ (pre ++ x :: m)).set (front.length + pre.length) c = front ++ (pre ++ c :: m) := by simp

section Listening

variable {linkId front pre rest : Bytes}

theorem status_store {x c : UInt8} (hc : c ≠ 10) :
    readByte st (r.listening linkId front pre (x :: rest)) c = r.listening linkId front (pre ++ [c]) rest := by
  have hroom : ¬ (front ++ (pre ++ x :: rest)).length ≤ front.length + pre.length := by simp
  simp only [readByte, Reader.listening, statusByte, hroom, hc, if_false, set_behind]
  simp

/-- a text without newline is stored as far as the buffer goes -/
theorem status_text {t : Bytes} (ht : t.length ≤ rest.length) (hn : 10 ∉ t) :
    readRun st (r.listening linkId front pre rest) t = r.listening linkId front (pre ++ t) (rest.drop t.length) := by
  induction t generalizing pre rest with
  | nil => simp
  | cons c t ih =>
    rw [List.mem_cons, not_or] at hn
    cases rest with
    | nil => simp at ht
    | cons x rest =>
      rw [readRun_cons, status_store (Ne.symm hn.1), ih (by simpa using ht) hn.2]
      simp

/-- a line that does not fit is stored past the end of the buffer -/
theorem status_overflow {t : Bytes} (ht : rest.length < t.length) (hn : 10 ∉ t.take rest.length) :
    (readRun st (r.listening linkId front pre rest) t).mode = .crashed ∧
      (readRun st (r.listening linkId front pre rest) t).calls = r.calls := by
  obtain ⟨c, m, hm⟩ : ∃ c m, t.drop rest.length = c :: m := by
    cases h : t.drop rest.length with
    | nil => rw [List.drop_eq_nil_iff] at h; omega
    | cons c m => exact ⟨c, m, rfl⟩
  have hlen : (t.take rest.length).length = rest.length := List.length_take_of_le (by omega)
  have hfull : readRun st (r.listening linkId front pre rest) (t.take rest.length) =
      r.listening linkId front (pre ++ t.take rest.length) [] := by
    rw [status_text (by omega) hn, hlen, List.drop_length]
  have hcrash : readByte st (r.listening linkId front (pre ++ t.take rest.length) []) c =
      (r.listening linkId front (pre ++ t.take rest.length) []).crash := by
    have hroom : (front ++ (pre ++ t.take rest.length ++ [])).length ≤
        front.length + (pre ++ t.take rest.length).length := by simp
    simp only [readByte, Reader.listening, statusByte, hroom, if_true]
  have hrun : readRun st (r.listening linkId front pre rest) t =
      readRun st (r.listening linkId front (pre ++ t.take rest.length) []).crash m := by
    calc readRun st (r.listening linkId front pre rest) t
        = readRun st (r.listening linkId front pre rest) (t.take rest.length ++ c :: m) := by
          rw [← hm, List.take_append_drop]
      _ = readRun st (r.listening linkId front (pre ++ t.take rest.length) []) (c :: m) := by rw [readRun_append, hfull]
      _ = _ := by rw [readRun_cons, hcrash]
  rw [hrun, readRun_crashed rfl]
  exact ⟨rfl, rfl⟩

theorem status_newline {t : Bytes} {x : UInt8} :
    readByte st (r.listening linkId front t (x :: rest)) 10 =
      statusLine st (r.listening linkId front t (0 :: rest)) front.length linkId := by
  have hroom : ¬ (front ++ (t ++ x :: rest)).length ≤ front.length + t.length := by simp
  simp only [readByte, Reader.listening, statusByte, hroom, if_false, if_true, set_behind]

/-- a complete line in the loop of `accept`, when it fits -/
theorem status_line {t : Bytes} (ht : t.length < rest.length) (hn : 10 ∉ t) :
    readRun st (r.listening linkId front [] rest) (t ++ [10]) =
      statusLine st (r.listening linkId front t (0 :: rest.drop (t.length + 1))) front.length linkId := by
  obtain ⟨x, m, hm⟩ : ∃ x m, rest.drop t.length = x :: m := by
    cases h : rest.drop t.length with
    | nil => rw [List.drop_eq_nil_iff] at h; omega
    | cons x m => exact ⟨x, m, rfl⟩
  have hm' : rest.drop (t.length + 1) = m := by rw [← List.drop_drop, hm]; rfl
  calc readRun st (r.listening linkId front [] rest) (t ++ [10])
      = readRun st (r.listening linkId front t (x :: m)) [10] := by
        rw [readRun_append, status_text (by omega) hn, List.nil_append, hm]
    _ = readByte st (r.listening linkId front t (x :: m)) 10 := rfl
    _ = _ := by rw [status_newline, hm']

theorem listening_drop (t m : Bytes) (k : ℕ) :
    (r.listening linkId front t m).line.drop (front.length + k) = (t ++ m).drop k := by
  simp only [Reader.listening, List.drop_length_add_append]

theorem statusLine_final {t m : Bytes} (ht : t = str "OK" ∨ t = str "ERROR") :
    statusLine st (r.listening linkId front t (0 :: m)) front.length linkId =
      { r with line := front ++ (t ++ 0 :: m), i := 0, mode := .line } := by
  have h0 : (0 : UInt8) ∉ t := by rcases ht with rfl | rfl <;> decide
  have hc : cstr ((r.listening linkId front t (0 :: m)).line.drop front.length) = t := by
    rw [← Nat.add_zero front.length, listening_drop, List.drop_zero, cstr_term h0]
  rw [statusLine, if_pos (by rw [hc]; exact ht)]
  rfl

theorem statusLine_other {t m : Bytes} (ht : ¬ (cstr t = str "OK" ∨ cstr t = str "ERROR"))
    (hp : ¬ (str "+CIPSTATUS:" <+: t ++ 0 :: m ∧ linkId <+: (t ++ 0 :: m).drop 11)) :
    statusLine st (r.listening linkId front t (0 :: m)) front.length linkId =
      r.listening linkId front [] (t ++ 0 :: m) := by
  have hd : (r.listening linkId front t (0 :: m)).line.drop front.length = t ++ 0 :: m := by
    rw [← Nat.add_zero front.length, listening_drop, List.drop_zero]
  rw [statusLine, hd, cstr_append_zero, listening_drop, if_neg ht,
    if_neg (by rwa [List.isPrefixOf_iff_prefix, List.isPrefixOf_iff_prefix])]
  rfl

/-- the line of a connection: its address and port are cut out, and `line` moves behind the address -/
theorem statusFound_conn {A m : Bytes} {a : UInt32} {p : UInt16} (hA : A.length = 20)
    (hline : r.line = front ++ (A ++ (dotted a ++ 34 :: 44 :: (dec p.toNat ++ 44 :: m)))) :
    statusFound st r front.length linkId =
      { r with calls := r.calls ++ [Call.accept (atoi linkId) (remoteOf st a p)] }.listening linkId
        (front ++ A ++ dotted a ++ [0, 44]) [] (dec p.toNat ++ 0 :: m) := by
  -- the text in front of the closing quote, and the text in front of the comma behind the port
  set f := front ++ A ++ dotted a with hf
  set g := f ++ [0, 44] ++ dec p.toNat with hg
  have hlen : f.length = front.length + 20 + (dotted a).length := by simp [hf, hA]; omega
  have hlenG : g.length = f.length + 2 + (dec p.toNat).length := by simp [hg]; omega
  have hquote : (34 : UInt8) ∉ dotted a := notMem_dotted (by decide) (by decide) a
  have hcomma : (44 : UInt8) ∉ dec p.toNat := notMem_dec (by decide) _
  have drop20 : ∀ x, (front ++ A ++ x).drop (front.length + 20) = x := by
    intro x
    rw [show front.length + 20 = (front ++ A).length by simp [hA], List.drop_left]
  have hline1 : r.line = f ++ 34 :: 44 :: (dec p.toNat ++ 44 :: m) := by rw [hline, hf]; simp
  have q : front.length + 20 + (r.line.drop (front.length + 20)).idxOf 34 = f.length := by
    rw [hline, ← List.append_assoc, drop20, List.idxOf_append_of_notMem hquote, List.idxOf_cons_self, hlen]
    rfl
  have addr : inetAddr ((f ++ 0 :: 44 :: (dec p.toNat ++ 44 :: m)).drop (front.length + 20)) = a := by
    rw [hf, List.append_assoc, drop20]
    exact inetAddr_dotted a _
  have drop2 : ∀ x, (f ++ 0 :: 44 :: x).drop (f.length + 2) = x := by
    intro x
    rw [List.drop_length_add_append]
    rfl
  have comma : f.length + 2 + (dec p.toNat ++ 44 :: m).idxOf 44 = g.length := by
    rw [List.idxOf_append_of_notMem hcomma, List.idxOf_cons_self, hlenG]
    rfl
  have set1 : r.line.set f.length 0 = f ++ 0 :: 44 :: (dec p.toNat ++ 44 :: m) := by rw [hline1, set_at]
  have set2 : (f ++ 0 :: 44 :: (dec p.toNat ++ 44 :: m)).set g.length 0 = f ++ 0 :: 44 :: (dec p.toNat ++ 0 :: m) := by
    have hcut : f ++ 0 :: 44 :: (dec p.toNat ++ 44 :: m) = g ++ 44 :: m := by simp [hg]
    rw [hcut, set_at]
    simp [hg]
  have port : UInt16.ofInt (atoi (dec p.toNat ++ 0 :: m)) = p := ofInt_atoi_port (stops_cons m (by decide))
  have hroom1 : ¬ r.line.length ≤ f.length := by rw [hline1]; simp
  have hroom2 : ¬ r.line.length ≤ g.length := by rw [hline1, hlenG]; simp; omega
  simp only [statusFound, q, hroom1, if_false, set1, addr, drop2, comma, hroom2, set2, port]
  simp [Reader.listening, remoteOf]

end Listening

/-! ## A payload takes as many bytes as it has -/

/-- outside the payload loop a byte adds at most one call, and any payload it starts or passes on is empty -/
def Reader.Adds (r r' : Reader) : Prop :=
  (r'.calls = r.calls ∧ ∀ left got l remote, r'.mode = .payload left got l remote → got = []) ∨
  ∃ c, r'.calls = r.calls ++ [c] ∧ (∀ l d remote, c = .recv l d remote → d = []) ∧
    ∀ left got l remote, r'.mode ≠ .payload left got l remote

theorem recvHeader_adds (st : Stack) (r : Reader) (len : ℕ) : r.Adds (recvHeader st r len) := by
  unfold recvHeader
  dsimp only
  split_ifs
  · left; exact ⟨rfl, by simp⟩
  · right; exact ⟨_, rfl, by simp, by simp [Reader.done]⟩
  · left; exact ⟨rfl, fun left got l remote h => (Mode.payload.inj h).2.1.symm⟩

theorem parseLine_adds (st : Stack) (r : Reader) (len : ℕ) : r.Adds (parseLine st r len) := by
  unfold parseLine
  split_ifs
  · right; exact ⟨_, rfl, by simp, by simp [acceptBegin]⟩
  · right; exact ⟨_, rfl, by simp, by simp [closedLine, Reader.done]⟩
  · right; exact ⟨_, rfl, by simp, by simp [Reader.done]⟩

theorem lineByte_adds (st : Stack) (hm : r.mode = .line) (c : UInt8) : r.Adds (lineByte st r c) := by
  have hstored : ∀ r1 : Reader, r1.calls = r.calls → r1.mode = .line → r.Adds
      (if c = 58 ∧ (str "+IPD").isPrefixOf r1.line then recvHeader st { r1 with line := r1.line.set r1.i 0 } r1.i
      else if c = 10 then parseLine st { r1 with line := r1.line.set r1.i 0 } r1.i else r1) := by
    intro r1 hc hm1
    rw [Reader.Adds, ← hc]
    split_ifs
    · exact recvHeader_adds st _ _
    · exact parseLine_adds st _ _
    · left; exact ⟨rfl, by simp [hm1]⟩
  unfold lineByte
  by_cases hi : r.i + 1 < 64
  · rw [if_pos hi]; exact hstored { r with line := r.line.set r.i c, i := r.i + 1 } rfl hm
  · rw [if_neg hi]; exact hstored r rfl hm

theorem statusFound_adds (st : Stack) (r : Reader) (base : ℕ) (linkId : Bytes) :
    r.Adds (statusFound st r base linkId) := by
  unfold statusFound
  dsimp only
  split_ifs
  · left; exact ⟨rfl, by simp [Reader.crash]⟩
  · left; exact ⟨rfl, by simp [Reader.crash]⟩
  · right; exact ⟨_, rfl, by simp, by simp⟩

theorem statusLine_adds (st : Stack) {base : ℕ} {linkId : Bytes} (hm : r.mode = .status base linkId) :
    r.Adds (statusLine st r base linkId) := by
  unfold statusLine
  split_ifs
  · left; exact ⟨rfl, by simp⟩
  · exact statusFound_adds st r base linkId
  · left; exact ⟨rfl, by simp [hm]⟩

theorem statusByte_adds (st : Stack) {base : ℕ} {linkId : Bytes} (hm : r.mode = .status base linkId) (c : UInt8) :
    r.Adds (statusByte st r base linkId c) := by
  unfold statusByte
  split_ifs
  · left; exact ⟨rfl, by simp [Reader.crash]⟩
  · exact statusLine_adds st (r := { r with line := r.line.set (base + r.i) 0 }) hm
  · left; exact ⟨rfl, by simp [hm]⟩

/-- since it had made the calls `c0`, the reader has read `n` bytes, and the payloads it passed on or collects since
then are shorter than that -/
structure Reader.Short (r : Reader) (c0 : List Call) (n : ℕ) : Prop where
  made : ∃ cs, r.calls = c0 ++ cs ∧ ∀ l d remote, .recv l d remote ∈ cs → d.length < n
  pending : ∀ left got l remote, r.mode = .payload left got l remote → got.length < n

theorem Reader.Short.adds {r' : Reader} {c0 : List Call} {n : ℕ} (h : r.Short c0 n) (ha : r.Adds r') :
    r'.Short c0 (n + 1) := by
  obtain ⟨cs, hcs, hlt⟩ := h.made
  rcases ha with ⟨hc, hp⟩ | ⟨c, hc, hd, hp⟩
  · refine ⟨⟨cs, hc.trans hcs, fun l d remote hm => Nat.lt_succ_of_lt (hlt l d remote hm)⟩, ?_⟩
    intro left got l remote hm
    simp [hp left got l remote hm]
  · refine ⟨⟨cs ++ [c], by rw [hc, hcs, List.append_assoc], ?_⟩, fun left got l remote hm => absurd hm (hp _ _ _ _)⟩
    intro l d remote hm
    rcases List.mem_append.1 hm with hm | hm
    · exact Nat.lt_succ_of_lt (hlt l d remote hm)
    · simp [hd l d remote (List.mem_singleton.1 hm).symm]

theorem Reader.Short.byte (st : Stack) {c0 : List Call} {n : ℕ} (h : r.Short c0 n) (c : UInt8) :
    (readByte st r c).Short c0 (n + 1) := by
  cases hm : r.mode with
  | line => rw [readByte, hm]; exact h.adds (lineByte_adds st hm c)
  | payload left got l remote =>
    have hgot := h.pending _ _ _ _ hm
    obtain ⟨cs, hcs, hlt⟩ := h.made
    simp only [readByte, hm, payloadByte]
    split_ifs
    · -- the last byte: the payload collected so far and this byte are passed on
      refine ⟨⟨cs ++ [.recv l (got ++ [c]) remote], by simp [Reader.done, hcs], ?_⟩, by simp [Reader.done]⟩
      intro l' d remote' hd
      rcases List.mem_append.1 hd with hd | hd
      · exact Nat.lt_succ_of_lt (hlt l' d remote' hd)
      · cases List.mem_singleton.1 hd
        simpa using hgot
    · refine ⟨⟨cs, hcs, fun l d remote hd => Nat.lt_succ_of_lt (hlt l d remote hd)⟩, ?_⟩
      intro left' got' l' remote' hmode
      cases hmode
      simpa using hgot
  | status base linkId => rw [readByte, hm]; exact h.adds (statusByte_adds st hm c)
  | ended => rw [readByte, hm]; exact h.adds (Or.inl ⟨rfl, by simp [hm]⟩)
  | crashed => rw [readByte, hm]; exact h.adds (Or.inl ⟨rfl, by simp [hm]⟩)

/-- a payload passed on while `bs` is read is shorter than `bs`, unless it had begun before -/
theorem readRun_short (st : Stack) (hm : ∀ left got l remote, r.mode ≠ .payload left got l remote) (bs : Bytes) :
    (readRun st r bs).Short r.calls bs.length := by
  induction bs using List.reverseRecOn with
  | nil => exact ⟨⟨[], by simp, by simp⟩, fun _ _ _ _ h => absurd h (hm _ _ _ _)⟩
  | append_singleton bs c ih =>
    rw [readRun_append, List.length_append]
    exact ih.byte st c

end EspHostdriver
