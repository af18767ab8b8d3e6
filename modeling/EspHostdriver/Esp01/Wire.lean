/-
What the module puts on the line, and what the reader makes of each piece.

- `frameBytes`, `closedBytes`, `connectBytes`, `StatusLine.bytes` are the texts of the module's output.
- `Reads st bs cs`: whatever is left over in the buffer, the reader goes from the start of a line through `bs` to the
  start of the next line and makes exactly the calls `cs`. Pieces compose (`Reads.append`).
- `reads_frame`, `reads_closed`, `reads_line`: the pieces that need nothing but the reader of lines.
- `connect_listens`, `listen_*`: a connect line starts the loop of `accept`, and what each line of the reply does there.
-/
import EspHostdriver.Esp01.Reader

namespace EspHostdriver

/-! ## The texts -/

/-- `+IPD,<link>,<n>,<addr>,<port>:` and the payload -/
def frameBytes (l : Fin 5) (data : Bytes) (a : UInt32) (p : UInt16) : Bytes :=
  header (str "+IPD") l data.length a p ++ 58 :: data

def closedBytes (k : Fin 5) : Bytes := dec k ++ str ",CLOSED" ++ [10]

def connectBytes (k : Fin 5) : Bytes := dec k ++ str ",CONNECT" ++ [10]

/-- a response line without its newline; with it, it has at most 63 bytes -/
structure Response where
  text : Bytes
  size : text.length < 63
  plain : 10 ∉ text
  noHeader : ¬ str "+IPD" <+: text
  noConnect : ¬ str ",CONNECT" <:+ text
  noClosed : ¬ str ",CLOSED" <:+ text
deriving DecidableEq

/-- a line of the reply to `AT+CIPSTATUS`: one of another kind, or the one of a connection -/
inductive StatusLine where
  | text (t : Bytes) (plain : 0 ∉ t ∧ 10 ∉ t) (kind : t ≠ str "OK" ∧ t ≠ str "ERROR" ∧ ¬ str "+CIPSTATUS:" <+: t)
  | conn (link : Fin 5) (udp : Bool) (addr : UInt32) (port : UInt16) (tail : Bytes) (plain : 0 ∉ tail ∧ 10 ∉ tail)

/-- what stands in front of the address -/
def connHead (k : Fin 5) (udp : Bool) : Bytes :=
  str "+CIPSTATUS:" ++ (dec k ++ (str ",\"" ++ (str (if udp then "UDP" else "TCP") ++ str "\",\"")))

/-- the line without its newline -/
def StatusLine.line : StatusLine → Bytes
  | .text t _ _ => t
  | .conn k udp a p tail _ => connHead k udp ++ (dotted a ++ 34 :: 44 :: (dec p.toNat ++ 44 :: tail))

def StatusLine.bytes (s : StatusLine) : Bytes := s.line ++ [10]

theorem dec_fin (k : Fin 5) : dec k = [digit k] := dec_small (by omega)

theorem dec_fin_inj {k l : Fin 5} (h : digit k = digit l) : k = l := by
  have := congrArg UInt8.toNat h
  rw [digit_toNat (by omega), digit_toNat (by omega)] at this
  omega

/-! ## Pieces for the reader of lines -/

/-- from the start of a line to the start of the next, with exactly the calls `cs` -/
def Reads (st : Stack) (bs : Bytes) (cs : List Call) : Prop :=
  ∀ r : Reader, r.Idle → (readRun st r bs).Idle ∧ (readRun st r bs).calls = r.calls ++ cs

variable {st : Stack} {r : Reader}

theorem Reads.nil : Reads st [] [] := fun r hr => ⟨hr, by simp⟩

theorem Reads.append {as bs : Bytes} {cs ds : List Call} (h1 : Reads st as cs) (h2 : Reads st bs ds) :
    Reads st (as ++ bs) (cs ++ ds) := by
  intro r hr
  obtain ⟨hm, hcm⟩ := h1 r hr
  obtain ⟨hi, hci⟩ := h2 _ hm
  rw [readRun_append]
  exact ⟨hi, by rw [hci, hcm, List.append_assoc]⟩

/-- a sequence of pieces -/
theorem Reads.flatMap {α : Type} {enc : α → Bytes} {calls : α → List Call} (h : ∀ x, Reads st (enc x) (calls x)) :
    ∀ xs : List α, Reads st (xs.flatMap enc) (xs.flatMap calls)
  | [] => Reads.nil
  | x :: xs => by
    rw [List.flatMap_cons, List.flatMap_cons]
    exact (h x).append (Reads.flatMap h xs)

theorem header_length_lt {l : Fin 5} {n : ℕ} (hn : n < 2 ^ 31) (a : UInt32) (p : UInt16) :
    (header (str "+IPD") l n a p).length < 63 := by
  have h1 : (dec l).length = 1 := by rw [dec_fin]; rfl
  have h2 : (dec n).length ≤ 10 := dec_length_le (by omega) (lt_trans hn (by norm_num))
  have h3 := dotted_length_le a
  have h4 : (dec p.toNat).length ≤ 5 := dec_length_le (by omega) (lt_trans p.toNat_lt (by norm_num))
  have h5 : (str "+IPD").length = 4 := rfl
  simp only [header, List.length_append, List.length_cons]
  omega

theorem notMem_header {c : UInt8} (h1 : isDigit c = false) (h2 : c ≠ 46) (h3 : c ≠ 44) (h4 : c ∉ str "+IPD") (l n : ℕ)
    (a : UInt32) (p : UInt16) : c ∉ header (str "+IPD") l n a p := by
  have hdec := notMem_dec h1
  have hdot := notMem_dotted h1 h2 a
  simp [header, hdec, hdot, h3, h4]

/-- **a frame is passed on whole**, whatever its payload is -/
theorem reads_frame (l : Fin 5) {data : Bytes} (hd : data.length < 2 ^ 31) (a : UInt32) (p : UInt16) :
    Reads st (frameBytes l data a p) [.recv (l : ℕ) data (remoteOf st a p)] := by
  intro r hr
  set h := header (str "+IPD") l data.length a p with hh
  have hlen : h.length < 63 := header_length_lt hd a p
  have hn : (10 : UInt8) ∉ h := notMem_header (by decide) (by decide) (by decide) (by decide) l _ a p
  have hc : (58 : UInt8) ∉ h := notMem_header (by decide) (by decide) (by decide) (by decide) l _ a p
  have hpre : str "+IPD" <+: h := List.prefix_append _ _
  -- up to the colon
  have htext : readRun st r h = r.holding h (r.line.drop h.length) := by
    have h0 : readRun st (r.holding [] r.line) h = r.holding ([] ++ h) (r.line.drop h.length) :=
      readRun_text (by simpa using hr.size) (by simp; omega) hn (fun hm => absurd hm hc)
    rwa [hr.holding, List.nil_append] at h0
  obtain ⟨x, y, m, hm⟩ : ∃ x y m, r.line.drop h.length = x :: y :: m := by
    have hl : (r.line.drop h.length).length = 64 - h.length := by rw [List.length_drop, hr.size]
    rcases hd : r.line.drop h.length with _ | ⟨x, _ | ⟨y, m⟩⟩
    · rw [hd, List.length_nil] at hl; omega
    · rw [hd, List.length_singleton] at hl; omega
    · exact ⟨x, y, m, rfl⟩
  rw [hm] at htext
  -- the colon
  have hcolon : readByte st (r.holding h (x :: y :: m)) 58 =
      recvHeader st (r.holding (h ++ [58]) (0 :: m)) (h.length + 1) := by
    have hp : (str "+IPD").isPrefixOf (h ++ 58 :: y :: m) = true :=
      List.isPrefixOf_iff_prefix.2 (hpre.trans (List.prefix_append _ _))
    have hs : (h ++ 58 :: y :: m).set (h.length + 1) 0 = h ++ 58 :: 0 :: m := by simp
    simp [readByte, Reader.holding, lineByte, show h.length + 1 < 64 by omega, hp, hs]
  have hline : (r.holding (h ++ [58]) (0 :: m)).line = h ++ 58 :: 0 :: m := by simp [Reader.holding]
  obtain ⟨line, hll, hrecv⟩ := recvHeader_header st (by omega) hd hline
  have hsize : line.length = 64 := by
    have hl : (r.line.drop h.length).length = 64 - h.length := by rw [List.length_drop, hr.size]
    rw [hm, List.length_cons, List.length_cons] at hl
    rw [hll, hline, List.length_append, List.length_cons, List.length_cons]
    omega
  rw [← hh] at hrecv
  -- the payload
  have hrun : readRun st r (frameBytes l data a p) =
      { r.holding (h ++ [58]) (0 :: m) with line := line }.done (.recv (l : ℕ) data (remoteOf st a p)) := by
    have hhead : readRun st r (frameBytes l data a p) =
        readRun st (recvHeader st (r.holding (h ++ [58]) (0 :: m)) (h.length + 1)) data := by
      rw [frameBytes, ← hh, readRun_append, htext, readRun_cons, hcolon]
    rw [hhead, hrecv]
    split_ifs with h0
    · rw [List.length_eq_zero_iff.1 h0]; rfl
    · rw [readRun_payload (fun h => h0 (by rw [h]; rfl)) rfl]
      rfl
  rw [hrun]
  exact ⟨⟨rfl, rfl, hsize⟩, rfl⟩

/-- a line about a link has no newline or colon in front of its end -/
theorem link_text {c : UInt8} (hc : isDigit c = false) (k : Fin 5) {t : Bytes} (ht : c ∉ t) : c ∉ dec k ++ t := by
  rw [List.mem_append]
  exact not_or.2 ⟨notMem_dec hc k, ht⟩

theorem closed_text (k : Fin 5) : 10 ∉ dec k ++ str ",CLOSED" ∧ 58 ∉ dec k ++ str ",CLOSED" :=
  ⟨link_text (by decide) k (by decide), link_text (by decide) k (by decide)⟩

theorem reads_closed (st : Stack) (k : Fin 5) : Reads st (closedBytes k) [.closed (k : ℕ)] := by
  intro r hr
  set t := dec k ++ str ",CLOSED" with ht
  have hlen : t.length = 8 := by rw [ht, dec_fin]; rfl
  have hshort : t.length < 63 := by omega
  obtain ⟨rest, hrest, hrun⟩ := readRun_line st hr hshort (closed_text k).1 (fun h => absurd h (closed_text k).2)
  have hline : (r.holding (t ++ [10]) (0 :: rest)).line = t ++ 10 :: 0 :: rest := by simp [Reader.holding]
  have hfield : (r.holding (t ++ [10]) (0 :: rest)).line = dec k ++ 44 :: (str "CLOSED" ++ 10 :: 0 :: rest) := by
    rw [hline, ht, List.append_assoc]
    rfl
  rw [closedBytes, ← ht, hrun, parseLine_closed hline (List.suffix_append _ _) (by omega),
    closedLine_field (by omega) hfield (by rw [dec_fin, hlen]; simp)]
  refine ⟨⟨rfl, rfl, ?_⟩, rfl⟩
  have hword : (str "CLOSED").length = 6 := rfl
  simp only [Reader.done, List.length_append, List.length_cons, dec_fin, List.length_nil, hword]
  omega

/-- a line that neither test takes for an event goes to the response check, with its newline -/
theorem reads_line {t : Bytes} (ht : t.length < 63) (hn : 10 ∉ t) (hh : ¬ str "+IPD" <+: t)
    (h1 : ∀ m, ¬ (str ",CONNECT").isPrefixOf (lineTail st (t ++ 10 :: m) (t.length + 1) 9))
    (h2 : ∀ m, ¬ (str ",CLOSED").isPrefixOf (lineTail st (t ++ 10 :: m) (t.length + 1) 8)) :
    Reads st (t ++ [10]) [.response (t ++ [10])] := by
  intro r hr
  obtain ⟨rest, hrest, hrun⟩ := readRun_line st hr ht hn (fun _ => hh)
  have hline : (r.holding (t ++ [10]) (0 :: rest)).line = t ++ 10 :: 0 :: rest := by simp [Reader.holding]
  have htake : (r.holding (t ++ [10]) (0 :: rest)).line.take (t.length + 1) = t ++ [10] := by
    rw [hline, List.take_length_add_append]
    rfl
  rw [hrun, parseLine_response (by rw [hline]; exact h1 _) (by rw [hline]; exact h2 _), htake]
  refine ⟨⟨rfl, rfl, ?_⟩, rfl⟩
  simp only [Reader.done, hline, List.length_append, List.length_cons]
  omega

/-! ## Lines in the loop of `accept` -/

/-- the reader waits for the first byte of a status line; `line` has moved by `base` -/
structure Reader.Listening (r : Reader) (l : Fin 5) (base : ℕ) : Prop where
  mode : r.mode = .status base (dec l)
  i : r.i = 0
  size : r.line.length = 64
  room : base ≤ 64

theorem Reader.Listening.split {l : Fin 5} {base : ℕ} (h : r.Listening l base) :
    ∃ front rest, front.length = base ∧ base + rest.length = 64 ∧ r = r.listening (dec l) front [] rest := by
  obtain ⟨hm, hi, hs, hb⟩ := h
  refine ⟨r.line.take base, r.line.drop base, List.length_take_of_le (by omega), by rw [List.length_drop]; omega, ?_⟩
  have hlen : (r.line.take base).length = base := List.length_take_of_le (by omega)
  cases r
  simp_all [Reader.listening]

theorem listening_of {l : Fin 5} {front rest : Bytes} (h : front.length + rest.length = 64) :
    (r.listening (dec l) front [] rest).Listening l front.length :=
  ⟨rfl, rfl, by simpa [Reader.listening] using h, by omega⟩

theorem connect_text (k : Fin 5) : 10 ∉ dec k ++ str ",CONNECT" ∧ 58 ∉ dec k ++ str ",CONNECT" :=
  ⟨link_text (by decide) k (by decide), link_text (by decide) k (by decide)⟩

/-- a connect line is answered by a query, and the loop of `accept` starts -/
theorem connect_listens (st : Stack) (hr : r.Idle) (k : Fin 5) :
    (readRun st r (connectBytes k)).Listening k 0 ∧ (readRun st r (connectBytes k)).calls = r.calls ++ [.query] := by
  set t := dec k ++ str ",CONNECT" with ht
  have hlen : t.length = 9 := by rw [ht, dec_fin]; rfl
  have hshort : t.length < 63 := by omega
  obtain ⟨rest, hrest, hrun⟩ := readRun_line st hr hshort (connect_text k).1 (fun h => absurd h (connect_text k).2)
  have hline : (r.holding (t ++ [10]) (0 :: rest)).line = t ++ 10 :: 0 :: rest := by simp [Reader.holding]
  have hfield : (r.holding (t ++ [10]) (0 :: rest)).line = dec k ++ 44 :: (str "CONNECT" ++ 10 :: 0 :: rest) := by
    rw [hline, ht, List.append_assoc]
    rfl
  rw [connectBytes, ← ht, hrun, parseLine_connect hline (List.suffix_append _ _),
    acceptBegin_field (by rw [dec_fin]; simp) hfield (by rw [dec_fin, hlen]; simp)]
  refine ⟨⟨rfl, rfl, ?_, by omega⟩, rfl⟩
  have hword : (str "CONNECT").length = 7 := rfl
  simp only [List.length_append, List.length_cons, dec_fin, List.length_nil, hword]
  omega

/-- a line that does not fit behind `line` -/
theorem listen_overflow (st : Stack) {l : Fin 5} {base : ℕ} (h : r.Listening l base) {t : Bytes} (hn : 10 ∉ t)
    (hf : 64 ≤ base + t.length) :
    (readRun st r (t ++ [10])).mode = .crashed ∧ (readRun st r (t ++ [10])).calls = r.calls := by
  obtain ⟨front, rest, hb, hrest, hr⟩ := h.split
  rw [hr]
  refine status_overflow (by simp; omega) (fun hm => ?_)
  rw [List.take_append_of_le_length (by omega)] at hm
  exact hn (List.mem_of_mem_take hm)

/-- a piece of a line leads to no call -/
theorem listen_part (st : Stack) {l : Fin 5} {base : ℕ} (h : r.Listening l base) {t : Bytes} (hn : 10 ∉ t) :
    (readRun st r t).calls = r.calls ∧ ∀ left got k remote, (readRun st r t).mode ≠ .payload left got k remote := by
  obtain ⟨front, rest, hb, hrest, hr⟩ := h.split
  rw [hr]
  rcases Nat.lt_or_ge rest.length t.length with hlt | hge
  · have hover : (readRun st (r.listening (dec l) front [] rest) t).mode = .crashed ∧
        (readRun st (r.listening (dec l) front [] rest) t).calls = r.calls :=
      status_overflow hlt (fun hm => hn (List.mem_of_mem_take hm))
    exact ⟨hover.2, by simp [hover.1]⟩
  · rw [status_text hge hn]
    exact ⟨rfl, by simp [Reader.listening]⟩

/-- a line that fits -/
theorem listen_line (st : Stack) {l : Fin 5} {base : ℕ} (h : r.Listening l base) {t : Bytes} (hn : 10 ∉ t)
    (hf : base + t.length < 64) :
    ∃ front m, front.length = base ∧ base + t.length + 1 + m.length = 64 ∧
      readRun st r (t ++ [10]) = statusLine st (r.listening (dec l) front t (0 :: m)) base (dec l) := by
  obtain ⟨front, rest, hb, hrest, hr⟩ := h.split
  refine ⟨front, rest.drop (t.length + 1), hb, by rw [List.length_drop]; omega, ?_⟩
  have hline : readRun st (r.listening (dec l) front [] rest) (t ++ [10]) = _ := status_line (by omega) hn
  rw [← hr, hb] at hline
  exact hline

theorem listen_final (st : Stack) {l : Fin 5} {base : ℕ} (h : r.Listening l base) {t : Bytes}
    (ht : t = str "OK" ∨ t = str "ERROR") (hf : base + t.length < 64) :
    (readRun st r (t ++ [10])).Idle ∧ (readRun st r (t ++ [10])).calls = r.calls := by
  have hn : (10 : UInt8) ∉ t := by rcases ht with rfl | rfl <;> decide
  obtain ⟨front, m, hb, hm, hrun⟩ := listen_line st h hn hf
  rw [hrun, ← hb, statusLine_final ht]
  refine ⟨⟨rfl, rfl, ?_⟩, rfl⟩
  simp only [List.length_append, List.length_cons]
  omega

/-- a word without terminator in it does not go on behind the end of a string -/
theorem prefix_of_prefix_term {s t m : Bytes} (hs : 0 ∉ s) (h : s <+: t ++ 0 :: m) : s <+: t := by
  rcases Nat.lt_or_ge t.length s.length with hlt | hge
  · have hm : t ++ [0] <+: t ++ 0 :: m := ⟨m, by simp⟩
    have ht : t ++ [0] <+: s := List.prefix_of_prefix_length_le hm h (by simpa using hlt)
    exact absurd (ht.subset (by simp)) hs
  · exact List.prefix_of_prefix_length_le h (List.prefix_append _ _) hge

/-- a text of another kind leads to no call, whether it fits or not -/
theorem listen_text (st : Stack) {l : Fin 5} {base : ℕ} (h : r.Listening l base) {t : Bytes} (hn : 10 ∉ t) (h0 : 0 ∉ t)
    (hp : ¬ str "+CIPSTATUS:" <+: t) : (readRun st r (t ++ [10])).calls = r.calls := by
  rcases Nat.lt_or_ge (base + t.length) 64 with hf | hf
  · by_cases hfin : t = str "OK" ∨ t = str "ERROR"
    · exact (listen_final st h hfin hf).2
    · obtain ⟨front, m, hb, hm, hrun⟩ := listen_line st h hn hf
      have hfin' : ¬ (cstr t = str "OK" ∨ cstr t = str "ERROR") := by rwa [cstr_self h0]
      rw [hrun, ← hb, statusLine_other hfin' (fun hx => hp (prefix_of_prefix_term (by decide) hx.1))]
      rfl
  · exact (listen_overflow st h hn hf).2

namespace StatusLine

/-- the calls a status line leads to while link `l` is being accepted -/
def calls (st : Stack) (l : Fin 5) : StatusLine → List Call
  | .text _ _ _ => []
  | .conn k _ a p _ _ => if k = l then [.accept (l : ℕ) (remoteOf st a p)] else []

/-- where `line` stands after it -/
def next (l : Fin 5) (base : ℕ) : StatusLine → ℕ
  | .text _ _ _ => base
  | .conn k _ a _ _ _ => if k = l then base + 22 + (dotted a).length else base

theorem line_plain (s : StatusLine) : 0 ∉ s.line ∧ 10 ∉ s.line := by
  cases s with
  | text t plain kind => exact plain
  | conn k udp a p tail plain =>
    have hdec : ∀ c : UInt8, isDigit c = false → ∀ n, c ∉ dec n := fun c hc => notMem_dec hc
    have hdot : ∀ c : UInt8, isDigit c = false → c ≠ 46 → c ∉ dotted a := fun c h1 h2 => notMem_dotted h1 h2 a
    have h0 := hdec 0 (by decide); have h10 := hdec 10 (by decide)
    have d0 := hdot 0 (by decide) (by decide); have d10 := hdot 10 (by decide) (by decide)
    cases udp <;> simp [line, connHead, str, h0, h10, d0, d10, plain.1, plain.2]

theorem connHead_length (k : Fin 5) (udp : Bool) : (connHead k udp).length = 20 := by
  rw [connHead, dec_fin]
  cases udp <;> rfl

end StatusLine

theorem atoi_link (l : Fin 5) : atoi (dec l) = (l : ℕ) := by
  have h := atoi_dec (n := l) (by omega) stops_nil
  rwa [List.append_nil] at h

section Conn

variable {l k : Fin 5} {udp : Bool} {a : UInt32} {p : UInt16} {tail m front : Bytes}

/-- the line of a connection, whatever follows its port -/
def connLine (k : Fin 5) (udp : Bool) (a : UInt32) (p : UInt16) (tail : Bytes) : Bytes :=
  connHead k udp ++ (dotted a ++ 34 :: 44 :: (dec p.toNat ++ 44 :: tail))

theorem connLine_not_final : ¬ (cstr (connLine k udp a p tail) = str "OK" ∨ cstr (connLine k udp a p tail) = str "ERROR") := by
  have hplus : (cstr (connLine k udp a p tail)).head? = some 43 := by
    rw [connLine, connHead]
    rfl
  intro h
  rcases h with h | h <;> rw [h] at hplus <;> exact absurd hplus (by decide)

/-- the link of the line stands at the place where it is compared -/
theorem connLine_link : str "+CIPSTATUS:" <+: connLine k udp a p tail ++ 0 :: m ∧
    (dec l <+: (connLine k udp a p tail ++ 0 :: m).drop 11 ↔ k = l) := by
  have hpre : str "+CIPSTATUS:" <+: connLine k udp a p tail ++ 0 :: m := by
    rw [connLine, connHead, List.append_assoc, List.append_assoc]
    exact List.prefix_append _ _
  have hdrop : (connLine k udp a p tail ++ 0 :: m).drop 11 = digit k :: (connLine k udp a p tail ++ 0 :: m).drop 12 := by
    rw [connLine, connHead, dec_fin]
    rfl
  refine ⟨hpre, ?_⟩
  rw [hdrop, dec_fin, List.cons_prefix_cons, and_iff_left List.nil_prefix]
  constructor
  · intro h
    exact dec_fin_inj h.symm
  · intro h
    rw [h]

/-- the line of the link is reported -/
theorem statusLine_own (st : Stack) :
    statusLine st (r.listening (dec l) front (connLine l udp a p tail) (0 :: m)) front.length (dec l) =
      { r with calls := r.calls ++ [Call.accept (l : ℕ) (remoteOf st a p)] }.listening (dec l)
        (front ++ connHead l udp ++ dotted a ++ [0, 44]) [] (dec p.toNat ++ 0 :: (tail ++ 0 :: m)) := by
  obtain ⟨hpre, hlink⟩ := @connLine_link l l udp a p tail m
  have hd : (r.listening (dec l) front (connLine l udp a p tail) (0 :: m)).line.drop front.length =
      connLine l udp a p tail ++ 0 :: m := by
    rw [← Nat.add_zero front.length, listening_drop, List.drop_zero]
  have hbuf : (r.listening (dec l) front (connLine l udp a p tail) (0 :: m)).line =
      front ++ (connHead l udp ++ (dotted a ++ 34 :: 44 :: (dec p.toNat ++ 44 :: (tail ++ 0 :: m)))) := by
    simp [Reader.listening, connLine]
  rw [statusLine, hd, listening_drop, cstr_append_zero, if_neg connLine_not_final, if_pos,
    statusFound_conn (StatusLine.connHead_length l udp) hbuf, atoi_link]
  · rfl
  · rw [List.isPrefixOf_iff_prefix, List.isPrefixOf_iff_prefix]
    exact ⟨hpre, hlink.2 rfl⟩

/-- the line of another link is skipped -/
theorem statusLine_foreign (st : Stack) (hk : k ≠ l) :
    statusLine st (r.listening (dec l) front (connLine k udp a p tail) (0 :: m)) front.length (dec l) =
      r.listening (dec l) front [] (connLine k udp a p tail ++ 0 :: m) := by
  apply statusLine_other connLine_not_final
  intro h
  exact hk (connLine_link.2.1 h.2)

end Conn

/-- a status line that fits: the line of the link is reported, every other one is skipped -/
theorem listen_status (st : Stack) {l : Fin 5} {base : ℕ} (h : r.Listening l base) (s : StatusLine)
    (hf : base + s.line.length < 64) :
    (readRun st r s.bytes).Listening l (s.next l base) ∧
      (readRun st r s.bytes).calls = r.calls ++ s.calls st l := by
  obtain ⟨front, m, hb, hm, hrun⟩ := listen_line st h s.line_plain.2 hf
  rw [StatusLine.bytes, hrun, ← hb]
  rw [← hb] at hm
  cases s with
  | text t plain kind =>
    have hfin : ¬ (cstr t = str "OK" ∨ cstr t = str "ERROR") := by
      rw [cstr_self plain.1]
      exact fun ht => ht.elim kind.1 kind.2.1
    rw [StatusLine.line] at hm ⊢
    rw [statusLine_other hfin (fun hx => kind.2.2 (prefix_of_prefix_term (by decide) hx.1))]
    refine ⟨listening_of ?_, (List.append_nil _).symm⟩
    simp only [List.length_append, List.length_cons]
    omega
  | conn k udp a p tail plain =>
    have hline : (StatusLine.conn k udp a p tail plain).line = connLine k udp a p tail := rfl
    rw [hline] at hm ⊢
    by_cases hk : k = l
    · subst hk
      have hnext : (StatusLine.conn k udp a p tail plain).next k front.length =
          (front ++ connHead k udp ++ dotted a ++ [0, 44]).length := by
        simp [StatusLine.next, StatusLine.connHead_length]
        omega
      have hcalls : (StatusLine.conn k udp a p tail plain).calls st k = [.accept (k : ℕ) (remoteOf st a p)] := if_pos rfl
      rw [statusLine_own, hnext, hcalls]
      refine ⟨listening_of ?_, rfl⟩
      simp only [connLine, List.length_append, List.length_cons, List.length_nil] at hm ⊢
      omega
    · have hnext : (StatusLine.conn k udp a p tail plain).next l front.length = front.length := if_neg hk
      have hcalls : (StatusLine.conn k udp a p tail plain).calls st l = [] := if_neg hk
      rw [statusLine_foreign st hk, hnext, hcalls]
      refine ⟨listening_of ?_, (List.append_nil _).symm⟩
      simp only [List.length_append, List.length_cons] at hm ⊢
      omega

end EspHostdriver
