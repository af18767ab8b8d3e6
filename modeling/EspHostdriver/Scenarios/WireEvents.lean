/-
The program on its serial line: bytes that come in between the calls of the program.

The reader thread takes the line apart and calls the handlers of the driver, the other threads call the socket functions.
`Net.System` has the handlers as events; here the bytes themselves are the input, and a handler runs when the byte comes
that makes the reader call it. The query for a new connection is a write of the reader.

- `byte_calls`: a byte makes at most one call.
- `wire_outputs`: the events of a run of bytes are the calls of the reader.
- `bytes_are_events`: for every sequence of bytes and calls, the states that their interleavings lead to are those that
  the interleavings of events and calls lead to; an interleaving that faults is matched by one that faults.
- `wire_events`: for a line that carries whole frames, closed lines, response lines and new connections with their
  replies, the events are those of the pieces, in order; the reader stands between two lines at the start, and its tests
  never match what lies in front of its buffer (`Framing.Quiet`).
-/
import EspHostdriver.Core.Transducer
import EspHostdriver.Net.System
import EspHostdriver.Scenarios.AcceptNested

namespace EspHostdriver.WireEvents

open Machine Transducer
open AcceptNested (Item)
open Framing (Output Quiet)

/-! ## Model -/

/-- what the reader does to the host -/
inductive Event where
  | op (op : Op)
  | query

/-- a call of the reader: a handler, or the query it writes itself; a response only wakes up who waits for it -/
def events : Call → List Event
  | .recv l data remote => [.op (.evRecv l data remote)]
  | .accept l remote => [.op (.evAccept l remote)]
  | .closed l => [.op (.evClosed l)]
  | .response _ => []
  | .query => [.query]

def eventStep (w : Host) : Event → Option Host
  | .op op => step w op
  | .query => some { w with itf := { w.itf with out := w.itf.out ++ [str "AT+CIPSTATUS\n"] } }

/-- the calls that a byte makes -/
def newCalls (st : Stack) (r : Reader) (c : UInt8) : List Call := (readByte st r c).calls.drop r.calls.length

/-- the reader, as what stands between the line and the host -/
def wire (st : Stack) : Transducer Reader UInt8 Event where
  next := readByte st
  out r c := (newCalls st r c).flatMap events

/-- the host and the reader: a byte comes in (`raw`), or the program makes a call (`direct`) -/
def progStep (st : Stack) : Host × Reader → Input UInt8 Event → Option (Host × Reader) := (wire st).step eventStep

/-- what the module puts on the line: one of the pieces of `Framing`, or a connect line and the reply to the query -/
inductive Piece where
  | output (o : Output)
  | connection (l : Fin 5) (lines : List StatusLine) (fits : AcceptNested.Fits l 0 lines)

def Piece.bytes : Piece → Bytes
  | .output o => o.bytes
  | .connection l lines _ => connectBytes l ++ (lines.map Item.status ++ [Item.done]).flatMap Item.bytes

/-- the calls that belong to it -/
def Piece.calls (st : Stack) : Piece → List Call
  | .output o => [o.call st]
  | .connection l lines _ => .query :: lines.flatMap fun s => s.calls st l

/-- the events that belong to it -/
def Piece.events (st : Stack) (p : Piece) : List Event := (p.calls st).flatMap WireEvents.events

/-! ## One byte, one call -/

variable {st : Stack} {r : Reader}

theorem adds_one {r' : Reader} (h : r.Adds r') : ∃ cs, r'.calls = r.calls ++ cs ∧ cs.length ≤ 1 := by
  rcases h with ⟨hc, _⟩ | ⟨c, hc, _⟩
  · exact ⟨[], by rw [hc, List.append_nil], Nat.zero_le 1⟩
  · exact ⟨[c], hc, le_rfl⟩

/-- a byte makes at most one call -/
theorem byte_calls (st : Stack) (r : Reader) (c : UInt8) :
    ∃ cs, (readByte st r c).calls = r.calls ++ cs ∧ cs.length ≤ 1 := by
  have hsame : ∃ cs, r.calls = r.calls ++ cs ∧ cs.length ≤ 1 := ⟨[], (List.append_nil _).symm, Nat.zero_le 1⟩
  cases hm : r.mode with
  | line =>
    rw [readByte, hm]
    exact adds_one (lineByte_adds st hm c)
  | payload left got l remote =>
    simp only [readByte, hm, payloadByte]
    split_ifs
    · exact ⟨_, rfl, le_rfl⟩
    · exact hsame
  | status base linkId =>
    rw [readByte, hm]
    exact adds_one (statusByte_adds st hm c)
  | ended =>
    rw [readByte, hm]
    exact hsame
  | crashed =>
    rw [readByte, hm]
    exact hsame

theorem newCalls_eq {c : UInt8} {cs : List Call} (h : (readByte st r c).calls = r.calls ++ cs) : newCalls st r c = cs := by
  rw [newCalls, h, List.drop_left]

theorem events_one (c : Call) : (events c).length ≤ 1 := by cases c <;> simp [events]

theorem wire_one (st : Stack) (r : Reader) (c : UInt8) : ((wire st).out r c).length ≤ 1 := by
  obtain ⟨cs, hcs, hlen⟩ := byte_calls st r c
  show ((newCalls st r c).flatMap events).length ≤ 1
  rw [newCalls_eq hcs]
  match cs, hlen with
  | [], _ => exact Nat.zero_le 1
  | [k], _ => simpa using events_one k

/-- the reader only ever makes more calls -/
theorem run_calls (st : Stack) (r : Reader) (bs : Bytes) : ∃ cs, (readRun st r bs).calls = r.calls ++ cs ∧
    (wire st).outputs r bs = cs.flatMap events := by
  induction bs generalizing r with
  | nil => exact ⟨[], (List.append_nil _).symm, rfl⟩
  | cons c bs ih =>
    obtain ⟨cs, hcs, _⟩ := byte_calls st r c
    obtain ⟨ds, hds, hout⟩ := ih (readByte st r c)
    refine ⟨cs ++ ds, ?_, ?_⟩
    · rw [readRun_cons, hds, hcs, List.append_assoc]
    · show (newCalls st r c).flatMap events ++ (wire st).outputs (readByte st r c) bs = _
      rw [newCalls_eq hcs, hout, List.flatMap_append]

/-- the events of a run of bytes are the calls of the reader -/
theorem wire_outputs {bs : Bytes} {cs : List Call} (h : (readRun st r bs).calls = r.calls ++ cs) :
    (wire st).outputs r bs = cs.flatMap events := by
  obtain ⟨ds, hds, hout⟩ := run_calls st r bs
  rw [hout, List.append_cancel_left (hds.symm.trans h)]

/-! ## Bytes and events -/

/-- **Bytes are events.** What can become of the host with some bytes on the line and some calls of the program, over
all their interleavings, is what can become of it with the events of the bytes and the same calls. -/
theorem bytes_are_events (st : Stack) (w : Host) (r : Reader) (bs : Bytes) (calls : List Op) (x : Option Host) :
    (∃ is, Interleaved ((calls.map Event.op).map .direct) (bs.map .raw) is ∧
        (run (progStep st) (w, r) is).map Prod.fst = x) ↔
      ∃ evs, Interleaved (calls.map Event.op) ((wire st).outputs r bs) evs ∧ run eventStep w evs = x :=
  results_iff (wire_one st) w r bs (calls.map Event.op) x

/-! ## Whole pieces -/

theorem reads_piece (hq : Quiet st) (p : Piece) : Reads st p.bytes (p.calls st) := by
  cases p with
  | output o => exact Framing.reads_output hq o
  | connection l lines fits =>
    intro r hr
    obtain ⟨hl, hc⟩ := connect_listens st hr l
    obtain ⟨hi, hcs, _⟩ := AcceptNested.reply_read st hl fits
    rw [Piece.bytes, readRun_append]
    exact ⟨hi, by rw [hcs, hc, Piece.calls, List.append_assoc]; rfl⟩

/-- **The line is its events.** Let whole pieces come in, and the program make calls, in any interleaving of bytes and
calls. What can become of the host is what can become of it when the events of the pieces come in, in order, between the
same calls. -/
theorem wire_events (hq : Quiet st) (hr : r.Idle) (w : Host) (pieces : List Piece) (calls : List Op) (x : Option Host) :
    (∃ is, Interleaved ((calls.map Event.op).map .direct) ((pieces.flatMap Piece.bytes).map .raw) is ∧
        (run (progStep st) (w, r) is).map Prod.fst = x) ↔
      ∃ evs, Interleaved (calls.map Event.op) (pieces.flatMap (Piece.events st)) evs ∧ run eventStep w evs = x := by
  have hcalls := (Reads.flatMap (reads_piece hq) pieces r hr).2
  have hout : (wire st).outputs r (pieces.flatMap Piece.bytes) = pieces.flatMap (Piece.events st) := by
    rw [wire_outputs hcalls, List.flatMap_assoc]
    rfl
  rw [bytes_are_events, hout]

/-! ## A sample -/

theorem greeting_size : (str "hi!").length < 2 ^ 31 := by decide

theorem tail_plain : 0 ∉ str "333,0" ∧ 10 ∉ str "333,0" := by decide

def sampleLines (l : Fin 5) : List StatusLine := [.conn l false 0xc0a80005 4000 (str "333,0") tail_plain]

theorem sampleLines_fit : ∀ l : Fin 5, AcceptNested.Fits l 0 (sampleLines l) := by decide +kernel

/-- a frame, a new connection on another link, and the end of the first one -/
def samplePieces (l l' : Fin 5) : List Piece :=
  [.output (.frame l (str "hi!") greeting_size 0x0a000001 80), .connection l' (sampleLines l') (sampleLines_fit l'),
    .output (.closed l)]

/-- a call while the query for the new connection is not yet answered -/
theorem wire_events_sample : ∃ is,
    Interleaved ([Event.op (.recvfrom 1 9 none)].map .direct) (((samplePieces 0 1).flatMap Piece.bytes).map .raw) is ∧
    (run (progStep Framing.sampleStack) (sampleConn .stream, Framing.sampleReader) is).map Prod.fst =
      run eventStep (sampleConn .stream) [.op (.evRecv 0 (str "hi!") (remoteOf Framing.sampleStack 0x0a000001 80)), .query,
        .op (.recvfrom 1 9 none), .op (.evAccept 1 (remoteOf Framing.sampleStack 0xc0a80005 4000)), .op (.evClosed 0)] :=
  (wire_events Framing.sampleStack_quiet ⟨rfl, rfl, by decide⟩ _ (samplePieces 0 1) [.recvfrom 1 9 none] _).2
    ⟨_, .right (.right (.left (.right (.right .nil)))), rfl⟩

end EspHostdriver.WireEvents
