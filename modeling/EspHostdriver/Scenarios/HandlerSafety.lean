/-
The calls of the reader into the driver, on any input and from the moment the reader was started.

`serial_init` starts the reader and `esp01_init` sets the three handlers and the device they get when it is through with
its commands, one after the other: until then the pointers are not set. The numbers of a message go to the handlers as
`atoi` reads them, and the handler of a payload follows the pointer in the slot of its link.

The log records the length of every header and every call, with what was there when it was made: the fields set so far,
the length of the last header, and the host. Between two bytes the other threads of the program may get the host to any
state, so all of their interleavings are covered, also in the middle of a call. A `read` may fail at any time; only in
`read_thread` itself that is the end.

- `step_logged`: what a byte adds to the log is safe exactly when the byte is allowed.
- `handler_safe`: every run.
- `handler_safe_fails`: a payload before the handlers are there, or before their device is, the close of a link that does
  not exist, also after a read that failed, a negative length, and a payload for a link that is not in use.
-/
import EspHostdriver.Esp01.Buffer
import EspHostdriver.Net.System
import EspHostdriver.Scenarios.Framing

namespace EspHostdriver.HandlerSafety

open Machine
open Framing (sampleStack sampleReader)

/-! ## Model -/

/-- the fields of `serial_t` that `esp01_init` sets -/
inductive Field where
  | recv
  | accept
  | closed
  | dev
deriving DecidableEq

/-- the handler is set, and so is the device it is called with and follows -/
def Ready (installed : List Field) (f : Field) : Prop := f ∈ installed ∧ .dev ∈ installed

instance decidableReady (installed : List Field) (f : Field) : Decidable (Ready installed f) :=
  inferInstanceAs (Decidable (_ ∧ _))

/-- the length of a header, or a call with what it finds -/
inductive Entry where
  | header (n : ℤ)
  | call (c : Call) (installed : List Field) (declared : ℤ) (host : Host)

/-- the program around the reader; `declared` is the length of the last header -/
structure Prog where
  host : Host
  reader : Reader
  installed : List Field
  declared : ℤ
  log : List Entry

inductive Act where
  | byte (c : UInt8)
  | stop
  | install (f : Field)
  | rest (w : Host)

/-- the field a call goes through -/
def handlerOf : Call → Option Field
  | .recv _ _ _ => some .recv
  | .accept _ _ => some .accept
  | .closed _ => some .closed
  | .response _ | .query => none

/-- the handler that a call reaches -/
def handle (w : Host) : Call → Except Fault Host
  | .recv l data remote => espRecv w l data remote
  | .accept l remote => espAccept w l remote
  | .closed l => espClosed w l
  | .response _ | .query => .ok w

/-- the handler follows the pointer of an empty slot; `accept` only stores into its slot -/
def SlotFault (w : Host) : Call → Prop
  | .recv l data remote => espRecv w l data remote = .error .nullSock
  | .closed l => espClosed w l = .error .nullSock
  | .accept _ _ | .response _ | .query => False

def InRange (l : ℤ) : Prop := 0 ≤ l ∧ l < 5

/-- what is promised of a header, and of a call into the driver -/
def Entry.Safe : Entry → Prop
  | .header n => 0 ≤ n
  | .call (.recv l data remote) installed n w =>
    Ready installed .recv ∧ InRange l ∧ (data.length : ℤ) ≤ n ∧ ¬ SlotFault w (.recv l data remote)
  | .call (.accept l remote) installed _ w => Ready installed .accept ∧ InRange l ∧ ¬ SlotFault w (.accept l remote)
  | .call (.closed l) installed _ w => Ready installed .closed ∧ InRange l ∧ ¬ SlotFault w (.closed l)
  | .call _ _ _ _ => True

def AllSafe (t : Prog) : Prop := ∀ e ∈ t.log, e.Safe

/-- a call through a pointer that is not set, or into a handler that faults, is the end of the reader -/
def deliver (t : Prog) (c : Call) : Prog :=
  match handlerOf c with
  | none => t
  | some f =>
    let t' := { t with log := t.log ++ [Entry.call c t.installed t.declared t.host] }
    if Ready t.installed f then
      match handle t.host c with
      | .ok w => { t' with host := w }
      | .error _ => { t' with reader := { t.reader with mode := .crashed } }
    else { t' with reader := { t.reader with mode := .crashed } }

/-- the calls the reader has made go to the driver -/
def feed (t : Prog) (r : Reader) : Prog := r.calls.foldl deliver { t with reader := { r with calls := [] } }

/-- the numbers `recv` reads in a header: the length of the payload and the link -/
def headerNumbers (line : Bytes) (len : ℕ) : ℤ × ℤ :=
  let c1 := backTo line len
  let line := line.set c1 0
  let c2 := backTo line c1
  let line := line.set c2 0
  let c3 := backTo line c2
  let n := atoi (line.drop (c3 + 1))
  let line := line.set c3 0
  (n, atoi (line.drop (backTo line c3 + 1)))

def numbers (r : Reader) (c : UInt8) : ℤ × ℤ := headerNumbers (r.ended c) (r.stored c).i

/-- a line that `parse_line` passes to `closed`, and the link it names -/
def EndsClosed (st : Stack) (r : Reader) (c : UInt8) : Prop :=
  c = 10 ∧ ¬ (str ",CONNECT").isPrefixOf (lineTail st (r.ended c) (r.stored c).i 9) ∧
    (str ",CLOSED").isPrefixOf (lineTail st (r.ended c) (r.stored c).i 8)

def closedLink (r : Reader) (c : UInt8) : ℤ := atoi ((r.ended c).set (commaAt (r.ended c) (r.stored c).i) 0)

/-- a status line has its quote, and its comma behind it -/
def ScansEnd (line : Bytes) (base : ℕ) : Prop :=
  let q := base + 20 + (line.drop (base + 20)).idxOf 34
  q < line.length ∧ q + 2 + (line.drop (q + 2)).idxOf 44 < line.length

/-- a status line of the link of a new connection -/
def EndsStatus (r : Reader) (base : ℕ) (linkId : Bytes) (c : UInt8) : Prop :=
  c = 10 ∧ base + r.i < r.line.length ∧
    let line := r.line.set (base + r.i) 0
    str "+CIPSTATUS:" <+: line.drop base ∧ linkId <+: line.drop (base + 11) ∧ ScansEnd line base

/-! ## When it holds -/

/-- a payload finds its handler ready and its slot in use, a header has no negative length, and a closed line and a new
connection find theirs, with a link that exists -/
def Allowed (st : Stack) (t : Prog) : Act → Prop
  | .byte c =>
    match t.reader.mode with
    | .line =>
      (EndsHeader t.reader c → 0 ≤ (numbers t.reader c).1 ∧
        ((numbers t.reader c).1 = 0 → Ready t.installed .recv ∧ linkSock t.host (numbers t.reader c).2 ≠ none)) ∧
      (EndsClosed st t.reader c → Ready t.installed .closed ∧ InRange (closedLink t.reader c))
    | .payload left _ l _ => left = 1 → Ready t.installed .recv ∧ linkSock t.host l ≠ none
    | .status base linkId => EndsStatus t.reader base linkId c → Ready t.installed .accept ∧ InRange (atoi linkId)
    | .ended | .crashed => True
  | .stop =>
    match t.reader.mode with
    | .payload _ _ l _ => Ready t.installed .recv ∧ linkSock t.host l ≠ none
    | _ => True
  | .install _ | .rest _ => True

instance decidableEndsClosed (st : Stack) (r : Reader) (c : UInt8) : Decidable (EndsClosed st r c) :=
  inferInstanceAs (Decidable (_ ∧ _))

instance decidableEndsStatus (r : Reader) (base : ℕ) (linkId : Bytes) (c : UInt8) :
    Decidable (EndsStatus r base linkId c) := by
  unfold EndsStatus ScansEnd
  infer_instance

instance decidableInRange (l : ℤ) : Decidable (InRange l) := inferInstanceAs (Decidable (_ ∧ _))

instance decidableAllowed (st : Stack) (t : Prog) : (a : Act) → Decidable (Allowed st t a)
  | .byte _ => by unfold Allowed; cases t.reader.mode <;> infer_instance
  | .stop => by unfold Allowed; cases t.reader.mode <;> infer_instance
  | .install _ | .rest _ => isTrue trivial

/-- a byte: the header it may end is logged, then the calls the reader makes with it -/
def byteStep (st : Stack) (t : Prog) (c : UInt8) : Prog :=
  let n := (numbers t.reader c).1
  let t' := { t with declared := n, log := t.log ++ [Entry.header n] }
  feed (if t.reader.mode = .line ∧ EndsHeader t.reader c then t' else t) (readByte st t.reader c)

def progStep (st : Stack) (t : Prog) : Act → Option Prog
  | .byte c => some (byteStep st t c)
  | .stop => some (feed t (readEnd t.reader))
  | .install f => some { t with installed := t.installed ++ [f] }
  | .rest w => some { t with host := w }

/-- the reader has just been started -/
def begin (w : Host) (line : Bytes) : Prog := ⟨w, ⟨line, 0, .line, []⟩, [], 0, []⟩

variable {st : Stack} {r : Reader} {c : UInt8}

/-! ## What the reader calls -/

/-- calls that stay inside the reader -/
def Quiet (cs : List Call) : Prop := ∀ k ∈ cs, k = .query ∨ ∃ line, k = .response line

theorem quiet_nil : Quiet [] := fun _ h => (List.not_mem_nil h).elim

/-- a header: a negative length is the end, an empty payload is passed on at once, any other one is collected -/
theorem recvHeader_cases (st : Stack) (r : Reader) (len : ℕ) : ∃ line remote,
    recvHeader st r len =
      if (headerNumbers r.line len).1 < 0 then { r with line := line, mode := .crashed }
      else if (headerNumbers r.line len).1 = 0 then
        { r with line := line }.done (.recv (headerNumbers r.line len).2 [] remote)
      else { r with
        line := line, mode := .payload (headerNumbers r.line len).1.toNat [] (headerNumbers r.line len).2 remote } :=
  ⟨_, _, rfl⟩

/-- what a byte of `read_thread` that ends no header leads to: `closed` is called for a closed line -/
theorem lineByte_closed (st : Stack) (hc : r.calls = []) (hm : r.mode = .line) (hh : ¬ EndsHeader r c) :
    (∀ left got l remote, (lineByte st r c).mode ≠ .payload left got l remote) ∧
    (EndsClosed st r c ∧ (lineByte st r c).calls = [.closed (closedLink r c)] ∨
      ¬ EndsClosed st r c ∧ Quiet (lineByte st r c).calls) := by
  have hcalls : (r.stored c).calls = [] := (stored_keeps r c).1.trans hc
  rw [lineByte_eq, if_neg hh]
  by_cases hn : c = 10
  swap
  · rw [if_neg hn, (stored_keeps r c).2, hm, hcalls]
    exact ⟨by simp, Or.inr ⟨fun h => hn h.1, quiet_nil⟩⟩
  rw [if_pos hn]
  unfold parseLine
  dsimp only
  split_ifs with hconn hclosed
  · exact ⟨by simp [acceptBegin], Or.inr ⟨fun h => h.2.1 hconn, by simp [acceptBegin, hcalls, Quiet]⟩⟩
  · exact ⟨by simp [closedLine, Reader.done], Or.inl ⟨⟨hn, hconn, hclosed⟩, by
      simp only [closedLine, Reader.done, hcalls]; rfl⟩⟩
  · exact ⟨by simp [Reader.done], Or.inr ⟨fun h => hclosed h.2.2, by simp [Reader.done, hcalls, Quiet]⟩⟩

/-- a status line of the link: the connection is passed on when both scans end in the buffer -/
theorem statusFound_calls (st : Stack) (base : ℕ) (linkId : Bytes) (hc : r.calls = []) :
    (∀ left got l remote, (statusFound st r base linkId).mode ≠ .payload left got l remote) ∧
    (ScansEnd r.line base ∧ (∃ remote, (statusFound st r base linkId).calls = [.accept (atoi linkId) remote]) ∨
      ¬ ScansEnd r.line base ∧ (statusFound st r base linkId).calls = []) := by
  unfold statusFound ScansEnd
  dsimp only
  rw [List.drop_set_of_lt (show base + 20 + (r.line.drop (base + 20)).idxOf 34 < _ by omega)]
  split_ifs with hq hp
  · exact ⟨by simp [Reader.crash], Or.inr ⟨fun h => absurd h.1 (by omega), hc⟩⟩
  · exact ⟨by simp [Reader.crash], Or.inr ⟨fun h => absurd h.2 (by omega), hc⟩⟩
  · exact ⟨by simp, Or.inl ⟨⟨by omega, by omega⟩, _, by rw [hc]; rfl⟩⟩

/-- what a byte in the loop of `accept` leads to -/
theorem statusByte_calls (st : Stack) (c : UInt8) {base : ℕ} {linkId : Bytes} (hc : r.calls = [])
    (hm : r.mode = .status base linkId) :
    (∀ left got l remote, (statusByte st r base linkId c).mode ≠ .payload left got l remote) ∧
    (EndsStatus r base linkId c ∧ (∃ remote, (statusByte st r base linkId c).calls = [.accept (atoi linkId) remote]) ∨
      ¬ EndsStatus r base linkId c ∧ (statusByte st r base linkId c).calls = []) := by
  have hstatus : (0 : UInt8) ∉ str "+CIPSTATUS:" := by decide
  unfold statusByte
  split_ifs with hroom hn
  · exact ⟨by simp [Reader.crash], Or.inr ⟨fun h => absurd h.2.1 (by omega), hc⟩⟩
  · unfold statusLine
    split_ifs with hfinal hfound
    · refine ⟨by simp, Or.inr ⟨fun h => ?_, hc⟩⟩
      rcases hfinal with he | he
      · exact cstr_ne_of_starts hstatus h.2.2.1 (by decide) he
      · exact cstr_ne_of_starts hstatus h.2.2.1 (by decide) he
    · rw [List.isPrefixOf_iff_prefix, List.isPrefixOf_iff_prefix] at hfound
      obtain ⟨hmode, h⟩ := statusFound_calls st base linkId
        (r := { r with line := r.line.set (base + r.i) 0 }) hc
      refine ⟨hmode, ?_⟩
      rcases h with ⟨hs, hcall⟩ | ⟨hs, hcall⟩
      · exact Or.inl ⟨⟨hn, by omega, hfound.1, hfound.2, hs⟩, hcall⟩
      · exact Or.inr ⟨fun h => hs h.2.2.2.2, hcall⟩
    · rw [List.isPrefixOf_iff_prefix, List.isPrefixOf_iff_prefix] at hfound
      exact ⟨by simp [hm], Or.inr ⟨fun h => hfound ⟨h.2.2.1, h.2.2.2.1⟩, hc⟩⟩
  · exact ⟨by simp [hm], Or.inr ⟨fun h => hn h.1, hc⟩⟩

/-! ## What a call finds -/

theorem linked_iff {w : Host} {l : ℤ} : linkSock w l ≠ none ↔ ∃ i, linkIdx l = .ok i ∧ w.esp.links i ≠ none := by
  unfold linkSock
  cases linkIdx l <;> simp [Except.toOption]

theorem linkIdx_ok {l : ℤ} : (∃ i, linkIdx l = .ok i) ↔ InRange l := by
  unfold linkIdx InRange
  split_ifs with h
  · simp [h]
  · simp [h]

/-- the handler of a payload follows the pointer in the slot -/
theorem recv_slotFault {w : Host} {l : ℤ} {i : Fin 5} (hl : linkIdx l = .ok i) (data : Bytes) (remote : SockAddrInet) :
    SlotFault w (.recv l data remote) ↔ w.esp.links i = none := by
  change espRecv w l data remote = .error .nullSock ↔ _
  unfold espRecv
  rw [hl]
  simp only [bind, Except.bind]
  cases hs : w.esp.links i with
  | none => simp [Host.sock]
  | some s =>
    cases hk : w.socks s with
    | none => simp [Host.sock, hk]
    | some k =>
      rw [sock_of_live hk]
      refine iff_of_false (fun h => ?_) (by simp)
      simp only at h
      split at h
      · split at h
        · cases h
        · split_ifs at h
          cases h
      · split_ifs at h
        cases h

theorem node_error {w : Host} {n : Addr} {e : Fault} (h : w.node n = .error e) : e = .dangling := by
  unfold Host.node at h
  split at h <;> cases h
  rfl

theorem findData_error {w : Host} {sock : Option Addr} {cs : List Addr} {e : Fault}
    (h : findData w sock cs = .error e) : e = .dangling := by
  induction cs with
  | nil => cases h
  | cons c cs ih =>
    rcases bind_error.1 h with hn | ⟨nd, _, h⟩
    · exact node_error hn
    · split_ifs at h
      exact ih h

theorem disconnect_error {w : Host} {sock : Option Addr} {e : Fault} (h : netdevSockDisconnect w sock = .error e) :
    e = .nullNode ∨ e = .dangling := by
  unfold netdevSockDisconnect at h
  split at h
  · cases h
    exact Or.inl rfl
  · right
    rcases bind_error.1 h with hn | ⟨rn, _, h⟩
    · exact node_error hn
    rcases bind_error.1 h with hf | ⟨found, _, h⟩
    · exact findData_error hf
    cases found with
    | none => cases h
    | some c =>
      rcases bind_error.1 h with hn | ⟨nd, _, h⟩
      · exact node_error hn
      · cases h

/-- `closed` compares the pointer of the slot, it does not follow it -/
theorem closed_slotFault (w : Host) (l : ℤ) : ¬ SlotFault w (.closed l) := by
  change espClosed w l ≠ .error .nullSock
  intro h
  rcases bind_error.1 h with hl | ⟨i, _, h⟩
  · unfold linkIdx at hl
    split_ifs at hl
    cases hl
  · rcases disconnect_error h with he | he <;> cases he

theorem recv_safe {l n : ℤ} {data : Bytes} {remote : SockAddrInet} {installed : List Field} {w : Host}
    (hn : (data.length : ℤ) ≤ n) :
    (Entry.call (.recv l data remote) installed n w).Safe ↔ Ready installed .recv ∧ linkSock w l ≠ none := by
  rw [linked_iff]
  constructor
  · rintro ⟨hi, hl, _, hs⟩
    obtain ⟨i, hl⟩ := linkIdx_ok.2 hl
    exact ⟨hi, i, hl, fun h => hs ((recv_slotFault hl data remote).2 h)⟩
  · rintro ⟨hi, i, hl, hs⟩
    exact ⟨hi, linkIdx_ok.1 ⟨i, hl⟩, hn, fun h => hs ((recv_slotFault hl data remote).1 h)⟩

theorem accept_safe {l n : ℤ} {remote : SockAddrInet} {installed : List Field} {w : Host} :
    (Entry.call (.accept l remote) installed n w).Safe ↔ Ready installed .accept ∧ InRange l :=
  ⟨fun h => ⟨h.1, h.2.1⟩, fun h => ⟨h.1, h.2, id⟩⟩

theorem closed_safe {l n : ℤ} {installed : List Field} {w : Host} :
    (Entry.call (.closed l) installed n w).Safe ↔ Ready installed .closed ∧ InRange l :=
  ⟨fun h => ⟨h.1, h.2.1⟩, fun h => ⟨h.1, h.2, closed_slotFault w l⟩⟩

/-! ## One step -/

/-- between two bytes: the calls are delivered, and of a payload as many bytes are missing as the header says -/
structure Prog.Ok (t : Prog) : Prop where
  calls : t.reader.calls = []
  payload : ∀ left got l remote, t.reader.mode = .payload left got l remote →
    0 < left ∧ ((got.length + left : ℕ) : ℤ) = t.declared

theorem allSafe_append (t : Prog) (w : Host) (r : Reader) (fs : List Field) (n : ℤ) (e : Entry) :
    AllSafe ⟨w, r, fs, n, t.log ++ [e]⟩ ↔ AllSafe t ∧ e.Safe := by
  unfold AllSafe
  rw [List.forall_mem_append, List.forall_mem_singleton]

/-- nothing reaches the driver -/
theorem feed_quiet {t : Prog} {r : Reader} (h : Quiet r.calls) :
    feed t r = { t with reader := { r with calls := [] } } := by
  unfold feed
  generalize { t with reader := { r with calls := [] } } = u
  generalize r.calls = cs at h
  induction cs with
  | nil => rfl
  | cons k cs ih =>
    obtain ⟨hk, hcs⟩ := List.forall_mem_cons.1 h
    rw [List.foldl_cons]
    rcases hk with rfl | ⟨line, rfl⟩
    · exact ih hcs
    · exact ih hcs

/-- a delivered call is logged; the reader goes on as it was, or not at all -/
theorem deliver_cases (t : Prog) {k : Call} {f : Field} (hk : handlerOf k = some f) :
    ∃ w r, deliver t k = ⟨w, r, t.installed, t.declared, t.log ++ [.call k t.installed t.declared t.host]⟩ ∧
      (r = t.reader ∨ r = { t.reader with mode := .crashed }) := by
  simp only [deliver, hk]
  split_ifs
  · split
    · exact ⟨_, _, rfl, Or.inl rfl⟩
    · exact ⟨_, _, rfl, Or.inr rfl⟩
  · exact ⟨_, _, rfl, Or.inr rfl⟩

/-- a reader that collects no payload -/
theorem ok_of_mode {t : Prog} (hc : t.reader.calls = [])
    (hm : ∀ left got l remote, t.reader.mode ≠ .payload left got l remote) : t.Ok :=
  ⟨hc, fun left got l remote h => absurd h (hm left got l remote)⟩

/-- one call reaches the driver -/
theorem feed_call {t : Prog} {r : Reader} {k : Call} {f : Field} (h : r.calls = [k]) (hk : handlerOf k = some f)
    (hm : ∀ left got l remote, r.mode ≠ .payload left got l remote) : (feed t r).Ok ∧
    (AllSafe (feed t r) ↔ AllSafe t ∧ (Entry.call k t.installed t.declared t.host).Safe) := by
  obtain ⟨w, r', hd, hr'⟩ := deliver_cases { t with reader := { r with calls := [] } } hk
  have hfeed : feed t r = deliver { t with reader := { r with calls := [] } } k := by rw [feed, h]; rfl
  rw [hfeed, hd, allSafe_append]
  refine ⟨?_, Iff.rfl⟩
  rcases hr' with rfl | rfl
  · exact ok_of_mode rfl hm
  · exact ok_of_mode rfl (by simp)

/-- a step that reaches no handler and is always allowed -/
theorem feed_silent {t : Prog} {r : Reader} (hc : Quiet r.calls)
    (hm : ∀ left got l remote, r.mode ≠ .payload left got l remote) :
    (feed t r).Ok ∧ (AllSafe (feed t r) ↔ AllSafe t) := by
  rw [feed_quiet hc]
  exact ⟨ok_of_mode rfl hm, Iff.rfl⟩

/-- a header is logged with its length; an empty payload reaches the driver with it -/
theorem header_logged (st : Stack) {t : Prog} (h : t.Ok) (hh : EndsHeader t.reader c) :
    let n := (numbers t.reader c).1
    let t' := feed { t with declared := n, log := t.log ++ [Entry.header n] } (lineByte st t.reader c)
    t'.Ok ∧ (AllSafe t' ↔
      AllSafe t ∧ 0 ≤ n ∧ (n = 0 → Ready t.installed .recv ∧ linkSock t.host (numbers t.reader c).2 ≠ none)) := by
  intro n t'
  have hlogged : AllSafe { t with declared := n, log := t.log ++ [Entry.header n] } ↔ AllSafe t ∧ 0 ≤ n :=
    allSafe_append t _ _ _ _ _
  have hcalls : (t.reader.stored c).calls = [] := (stored_keeps _ _).1.trans h.calls
  obtain ⟨line, remote, hrecv⟩ :=
    recvHeader_cases st { t.reader.stored c with line := t.reader.ended c } (t.reader.stored c).i
  have ht : t' = feed { t with declared := n, log := t.log ++ [Entry.header n] } (if n < 0 then
        { t.reader.stored c with line := line, mode := .crashed }
      else if n = 0 then
        { t.reader.stored c with line := line }.done (.recv (numbers t.reader c).2 [] remote)
      else { t.reader.stored c with
        line := line, mode := .payload n.toNat [] (numbers t.reader c).2 remote }) := by
    change feed _ (lineByte st t.reader c) = _
    rw [lineByte_eq, if_pos hh, hrecv]
    rfl
  rw [ht, ← and_assoc, ← hlogged]
  clear ht hrecv t'
  split_ifs with hneg hzero
  · obtain ⟨hok, hsafe⟩ := feed_silent (t := { t with declared := n, log := t.log ++ [Entry.header n] })
      (r := { t.reader.stored c with line := line, mode := .crashed }) (hcalls ▸ quiet_nil) (by simp)
    exact ⟨hok, hsafe.trans (and_iff_left fun hx => absurd hx (by omega)).symm⟩
  · obtain ⟨hok, hsafe⟩ := feed_call (t := { t with declared := n, log := t.log ++ [Entry.header n] })
      (r := { t.reader.stored c with line := line }.done (.recv (numbers t.reader c).2 [] remote))
      (k := .recv (numbers t.reader c).2 [] remote) (by simp [Reader.done, hcalls]) rfl (by simp [Reader.done])
    refine ⟨hok, hsafe.trans (and_congr_right fun _ => (recv_safe ?_).trans ?_)⟩
    · simp [hzero]
    · exact ⟨fun hx _ => hx, fun hx => hx hzero⟩
  · rw [feed_quiet (hcalls ▸ quiet_nil)]
    refine ⟨⟨rfl, fun left got l remote he => ?_⟩, (and_iff_left fun hx => absurd hx hzero).symm⟩
    cases he
    refine ⟨by omega, ?_⟩
    simp only [List.length_nil]
    omega

/-- outside `read_thread` a byte is no header -/
theorem byteStep_other {t : Prog} (hm : t.reader.mode ≠ .line) (c : UInt8) :
    byteStep st t c = feed t (readByte st t.reader c) := by
  rw [byteStep, if_neg fun hx => hm hx.1]

/-- a byte that `read_thread` reads -/
theorem line_logged {t : Prog} (h : t.Ok) (hm : t.reader.mode = .line) (c : UInt8) :
    (byteStep st t c).Ok ∧ (AllSafe (byteStep st t c) ↔ AllSafe t ∧ Allowed st t (.byte c)) := by
  have hread : readByte st t.reader c = lineByte st t.reader c := by rw [readByte, hm]
  rw [byteStep, hread]
  simp only [hm, true_and, Allowed]
  by_cases hh : EndsHeader t.reader c
  · have hnc : ¬ EndsClosed st t.reader c := fun hx => absurd (hx.1.symm.trans hh.1) (by decide)
    obtain ⟨hok, hsafe⟩ := header_logged st h hh
    rw [if_pos hh]
    refine ⟨hok, hsafe.trans (and_congr_right fun _ => ?_)⟩
    exact ⟨fun hx => ⟨fun _ => hx, fun hx => absurd hx hnc⟩, fun hx => hx.1 hh⟩
  · rw [if_neg hh]
    obtain ⟨hmode, ⟨hclosed, hcall⟩ | ⟨hclosed, hquiet⟩⟩ := lineByte_closed st h.calls hm hh
    · obtain ⟨hok, hsafe⟩ := feed_call (t := t) hcall rfl hmode
      refine ⟨hok, hsafe.trans (and_congr_right fun _ => closed_safe.trans ?_)⟩
      exact ⟨fun hx => ⟨fun hx => absurd hx hh, fun _ => hx⟩, fun hx => hx.2 hclosed⟩
    · obtain ⟨hok, hsafe⟩ := feed_silent (t := t) hquiet hmode
      exact ⟨hok, hsafe.trans (and_iff_left ⟨fun hx => absurd hx hh, fun hx => absurd hx hclosed⟩).symm⟩

/-- a byte of a payload: the last one reaches the driver with the others -/
theorem payload_logged {t : Prog} (h : t.Ok) {left : ℕ} {got : Bytes} {l : ℤ} {remote : SockAddrInet}
    (hm : t.reader.mode = .payload left got l remote) (c : UInt8) :
    (byteStep st t c).Ok ∧ (AllSafe (byteStep st t c) ↔ AllSafe t ∧ Allowed st t (.byte c)) := by
  obtain ⟨hpos, hn⟩ := h.payload left got l remote hm
  have hread : readByte st t.reader c = payloadByte t.reader left got l remote c := by rw [readByte, hm]
  rw [byteStep_other (by simp [hm]), hread]
  simp only [Allowed, hm]
  by_cases hlast : left = 1
  · have hdone : payloadByte t.reader left got l remote c = t.reader.done (.recv l (got ++ [c]) remote) :=
      if_pos hlast.le
    obtain ⟨hok, hsafe⟩ := feed_call (t := t) (r := t.reader.done (.recv l (got ++ [c]) remote))
      (k := .recv l (got ++ [c]) remote) (by simp [Reader.done, h.calls]) rfl (by simp [Reader.done])
    rw [hdone]
    refine ⟨hok, hsafe.trans (and_congr_right fun _ => (recv_safe ?_).trans ?_)⟩
    · rw [List.length_append, List.length_singleton, ← hn, hlast]
    · exact ⟨fun hx _ => hx, fun hx => hx hlast⟩
  · have hmore : payloadByte t.reader left got l remote c =
        { t.reader with mode := .payload (left - 1) (got ++ [c]) l remote } := if_neg (by omega)
    rw [hmore, feed_quiet (by simp [h.calls, Quiet])]
    refine ⟨⟨rfl, fun left' got' l' remote' he => ?_⟩, (and_iff_left fun hx => absurd hx hlast).symm⟩
    cases he
    refine ⟨by omega, ?_⟩
    rw [← hn, List.length_append, List.length_singleton]
    congr 1
    omega

/-- a byte of the reply that `accept` reads -/
theorem status_logged {t : Prog} (h : t.Ok) {base : ℕ} {linkId : Bytes} (hm : t.reader.mode = .status base linkId)
    (c : UInt8) : (byteStep st t c).Ok ∧ (AllSafe (byteStep st t c) ↔ AllSafe t ∧ Allowed st t (.byte c)) := by
  have hread : readByte st t.reader c = statusByte st t.reader base linkId c := by rw [readByte, hm]
  rw [byteStep_other (by simp [hm]), hread]
  simp only [Allowed, hm]
  obtain ⟨hmode, ⟨hs, remote, hcall⟩ | ⟨hs, hcall⟩⟩ := statusByte_calls st c h.calls hm
  · obtain ⟨hok, hsafe⟩ := feed_call (t := t) hcall rfl hmode
    exact ⟨hok, hsafe.trans (and_congr_right fun _ => accept_safe.trans ⟨fun hx _ => hx, fun hx => hx hs⟩)⟩
  · obtain ⟨hok, hsafe⟩ := feed_silent (t := t) (hcall ▸ quiet_nil) hmode
    exact ⟨hok, hsafe.trans (and_iff_left fun hx => absurd hx hs).symm⟩

/-- a read that fails: what has come of a payload reaches the driver -/
theorem stop_logged {t : Prog} (h : t.Ok) : (feed t (readEnd t.reader)).Ok ∧
    (AllSafe (feed t (readEnd t.reader)) ↔ AllSafe t ∧ Allowed st t .stop) := by
  cases hm : t.reader.mode with
  | payload left got l remote =>
    obtain ⟨_, hn⟩ := h.payload left got l remote hm
    have hcall : (readEnd t.reader).calls = [.recv l got remote] := by rw [readEnd, hm]; simp [Reader.done, h.calls]
    obtain ⟨hok, hsafe⟩ := feed_call (t := t) hcall rfl (by simp [readEnd, hm, Reader.done])
    refine ⟨hok, hsafe.trans (and_congr_right fun _ => ?_)⟩
    simp only [Allowed, hm]
    exact recv_safe (by omega)
  | _ =>
    obtain ⟨hok, hsafe⟩ := feed_silent (t := t) (r := readEnd t.reader) (by simp [readEnd, hm, h.calls, Quiet])
      (by simp [readEnd, hm])
    exact ⟨hok, hsafe.trans (and_iff_left (by simp [Allowed, hm])).symm⟩

/-- **A byte adds safe entries to the log exactly when it is allowed.** -/
theorem step_logged (t : Prog) (a : Act) (t' : Prog) (h : t.Ok) (hs : progStep st t a = some t') :
    t'.Ok ∧ (AllSafe t' ↔ AllSafe t ∧ Allowed st t a) := by
  cases a with
  | install f =>
    cases hs
    exact ⟨⟨h.calls, h.payload⟩, (and_iff_left trivial).symm⟩
  | rest w =>
    cases hs
    exact ⟨⟨h.calls, h.payload⟩, (and_iff_left trivial).symm⟩
  | stop =>
    cases hs
    exact stop_logged h
  | byte c =>
    cases hs
    cases hm : t.reader.mode with
    | line => exact line_logged h hm c
    | payload left got l remote => exact payload_logged h hm c
    | status base linkId => exact status_logged h hm c
    | _ =>
      have hread : readByte st t.reader c = t.reader := by rw [readByte, hm]
      rw [byteStep_other (by simp [hm]), hread]
      obtain ⟨hok, hsafe⟩ := feed_silent (t := t) (h.calls ▸ quiet_nil) (by simp [hm])
      exact ⟨hok, hsafe.trans (and_iff_left (by simp [Allowed, hm])).symm⟩

/-! ## Every run -/

theorem begin_ok (w : Host) (line : Bytes) : (begin w line).Ok := ok_of_mode rfl (by simp [begin])

/-- **The calls into the driver are safe exactly as long as every byte is allowed**, from the start of the reader on. -/
theorem handler_safe (st : Stack) (w : Host) (line : Bytes) {acts : List Act} {t : Prog}
    (hr : run (progStep st) (begin w line) acts = some t) :
    AllSafe t ↔ Guarded (progStep st) (Allowed st) (begin w line) acts := by
  rw [iff_run (I := Prog.Ok) (P := AllSafe) step_logged (begin_ok w line) hr]
  exact and_iff_right fun _ he => (List.not_mem_nil he).elim

def bytes (s : String) : List Act := (str s).map .byte

/-- `esp01_init` is through -/
def installs : List Act := [.install .recv, .install .accept, .install .closed, .install .dev]

/-- the handlers are there, a socket is connected on link 0; it gets a payload, another one that breaks off, and is
closed -/
def served : List Act :=
  installs ++ .rest (sampleConn .stream) :: bytes "+IPD,0,5,10.0.0.1,80:hello\n+IPD,0,5,10.0.0.1,80:he" ++
    .stop :: bytes "0,CLOSED\n"

theorem handler_safe_sample : ∃ t,
    run (progStep sampleStack) (begin (sampleConn .stream) sampleReader.line) served = some t ∧
      t.log.length = 5 ∧ AllSafe t := by
  have hr : (run (progStep sampleStack) (begin (sampleConn .stream) sampleReader.line) served).map (fun t =>
      (t.log.length, decide (Guarded (progStep sampleStack) (Allowed sampleStack)
        (begin (sampleConn .stream) sampleReader.line) served))) = some (5, true) := by decide +kernel
  obtain ⟨t, ht, he⟩ := Option.map_eq_some_iff.1 hr
  obtain ⟨hlen, hg⟩ := Prod.mk.inj he
  exact ⟨t, ht, hlen, (handler_safe sampleStack _ _ ht).2 (of_decide_eq_true hg)⟩

/-- a payload while `esp01_init` still waits for its answers, and before it has set the device; after it, the close of a
link 7, also when the answer to a status query breaks off before, a payload of -1 bytes, and a payload for a link nobody
is connected on -/
def unserved : List (List Act) :=
  [bytes "+IPD,0,5,10.0.0.1,80:hello", installs.take 3 ++ bytes "+IPD,0,5,10.0.0.1,80:hello",
    installs ++ bytes "7,CLOSED\n", installs ++ bytes "0,CONNECT\n+CIPST" ++ .stop :: bytes "7,CLOSED\n",
    installs ++ bytes "+IPD,0,-1,10.0.0.1,80:", installs ++ bytes "+IPD,0,1,10.0.0.1,80:x"]

/-- the program has come up and opened no socket yet -/
theorem handler_safe_fails : ∃ w, boot (fun _ => true) (fun _ => blankJunk) (fun _ => .ok) true = some w ∧
    ∀ acts ∈ unserved, ∃ t, run (progStep sampleStack) (begin w sampleReader.line) acts = some t ∧ ¬ AllSafe t := by
  have hr : (boot (fun _ => true) (fun _ => blankJunk) (fun _ => .ok) true).map (fun w => unserved.map fun acts =>
      ((run (progStep sampleStack) (begin w sampleReader.line) acts).isSome,
        decide (Guarded (progStep sampleStack) (Allowed sampleStack) (begin w sampleReader.line) acts))) =
      some (List.replicate 6 (true, false)) := by decide +kernel
  obtain ⟨w, hw, he⟩ := Option.map_eq_some_iff.1 hr
  refine ⟨w, hw, fun acts ha => ?_⟩
  have hmem := List.mem_map_of_mem (f := fun acts =>
      ((run (progStep sampleStack) (begin w sampleReader.line) acts).isSome,
        decide (Guarded (progStep sampleStack) (Allowed sampleStack) (begin w sampleReader.line) acts))) ha
  rw [he] at hmem
  obtain ⟨hrun, hg⟩ := Prod.mk.inj (List.eq_of_mem_replicate hmem)
  obtain ⟨t, ht⟩ := Option.isSome_iff_exists.1 hrun
  exact ⟨t, ht, fun hs => of_decide_eq_false hg ((iff_run step_logged (begin_ok w _) ht).1 hs).2⟩

end EspHostdriver.HandlerSafety
