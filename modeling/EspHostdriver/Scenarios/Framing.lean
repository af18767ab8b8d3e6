/-
Frames, closed lines and response lines, one after the other, as the reader sees them.

The reader has no framing but what it finds in the bytes: a header test on every colon, two tests at the end of every
line, and a count of payload bytes. None of its buffers is cleared between two pieces.

- `Output` is a piece of the module's output: a frame with any payload, a closed line, or a response line.
- `Quiet` says that the memory in front of the buffer, which the tests read on a short line, never completes one of
  their words.
- `receive_framing`: from any contents of the buffer, every sequence of pieces is taken apart at exactly its joints, and
  leads to exactly its calls, in order.
-/
import EspHostdriver.Esp01.Wire

namespace EspHostdriver.Framing

/-! ## Model -/

/-- a piece of the module's output -/
inductive Output where
  | frame (link : Fin 5) (data : Bytes) (size : data.length < 2 ^ 31) (addr : UInt32) (port : UInt16)
  | closed (link : Fin 5)
  | line (resp : Response)

def Output.bytes : Output → Bytes
  | .frame l data _ a p => frameBytes l data a p
  | .closed l => closedBytes l
  | .line resp => resp.text ++ [10]

/-- the call that belongs to it -/
def Output.call (st : Stack) : Output → Call
  | .frame l data _ a p => .recv (l : ℕ) data (remoteOf st a p)
  | .closed l => .closed (l : ℕ)
  | .line resp => .response (resp.text ++ [10])

/-- reads of the memory in front of the buffer never match -/
def Quiet (st : Stack) : Prop := ∀ line len,
  (len < 9 → ¬ (str ",CONNECT").isPrefixOf (lineTail st line len 9)) ∧
  (len < 8 → ¬ (str ",CLOSED").isPrefixOf (lineTail st line len 8))

variable {st : Stack}

/-! ## One piece -/

/-- a response line passes both tests, by its text or by the memory in front of it -/
theorem reads_response (hq : Quiet st) (resp : Response) :
    Reads st (resp.text ++ [10]) [.response (resp.text ++ [10])] := by
  apply reads_line resp.size resp.plain resp.noHeader
  · intro m
    by_cases h : resp.text.length + 1 < 9
    · exact (hq _ _).1 h
    · have h8 : (str ",CONNECT").length ≤ resp.text.length := by show 8 ≤ _; omega
      exact (lineTail_suffix st m h8).not.2 resp.noConnect
  · intro m
    by_cases h : resp.text.length + 1 < 8
    · exact (hq _ _).2 h
    · have h7 : (str ",CLOSED").length ≤ resp.text.length := by show 7 ≤ _; omega
      exact (lineTail_suffix st m h7).not.2 resp.noClosed

theorem reads_output (hq : Quiet st) (o : Output) : Reads st o.bytes [o.call st] := by
  cases o with
  | frame l data size a p => exact reads_frame l size a p
  | closed l => exact reads_closed st l
  | line resp => exact reads_response hq resp

/-! ## Every sequence -/

/-- **Receive framing.** From any contents of the buffer, a sequence of frames, closed lines and response lines leads to
exactly its calls, in order; the reader ends at the start of a line, and the end of the input adds no call. -/
theorem receive_framing (hq : Quiet st) {r : Reader} (hr : r.Idle) (outputs : List Output) :
    (readRun st r (outputs.flatMap Output.bytes)).Idle ∧
    (readRun st r (outputs.flatMap Output.bytes)).calls = r.calls ++ outputs.map (Output.call st) ∧
    (readEnd (readRun st r (outputs.flatMap Output.bytes))).calls = r.calls ++ outputs.map (Output.call st) := by
  obtain ⟨hidle, hcalls⟩ := Reads.flatMap (reads_output hq) outputs r hr
  rw [← List.map_eq_flatMap] at hcalls
  have hend : (readEnd (readRun st r (outputs.flatMap Output.bytes))).calls =
      (readRun st r (outputs.flatMap Output.bytes)).calls := by rw [readEnd, hidle.mode]
  exact ⟨hidle, hcalls, hend.trans hcalls⟩

/-! ## A sample -/

/-- zeros in front of the buffer -/
def sampleStack : Stack := ⟨fun _ => 0, [], 0⟩

/-- a reader whose buffer is full of headers -/
def sampleReader : Reader :=
  ⟨((List.range 16).map fun _ => str "+IPD").flatten, 0, .line, []⟩

theorem sampleStack_quiet : Quiet sampleStack := by
  intro line len
  have hzero : ∀ n, len < n → ∀ w : UInt8, w ≠ 0 → ∀ ws : Bytes,
      ¬ (w :: ws).isPrefixOf (lineTail sampleStack line len n) := by
    intro n hn w hw ws
    obtain ⟨k, hk⟩ : ∃ k, n - len = k + 1 := ⟨n - len - 1, by omega⟩
    rw [lineTail, if_neg (by omega), hk, List.range_succ, List.reverse_append]
    simp [sampleStack, hw]
  exact ⟨fun h => hzero 9 h 44 (by decide) (str "CONNECT"), fun h => hzero 8 h 44 (by decide) (str "CLOSED")⟩

/-- a payload that looks like a frame, a closed line and a short response, behind one another -/
theorem receive_framing_sample :
    (readRun sampleStack sampleReader
      (frameBytes 2 (str "+IPD,1:\n3,CLOSED\n") 0x0a000001 80 ++ closedBytes 3 ++ str "OK\n")).calls =
    [.recv 2 (str "+IPD,1:\n3,CLOSED\n") (remoteOf sampleStack 0x0a000001 80), .closed 3, .response (str "OK\n")] := by
  have h := (receive_framing sampleStack_quiet (r := sampleReader) ⟨rfl, rfl, by decide⟩
    [.frame 2 (str "+IPD,1:\n3,CLOSED\n") (by decide) 0x0a000001 80, .closed 3,
      .line ⟨str "OK", by decide, by decide, by decide, by decide, by decide⟩]).2.1
  simpa [Output.bytes, Output.call, sampleReader, str] using h

end EspHostdriver.Framing
