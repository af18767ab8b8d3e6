/-
Queues and what their histories say.

- A bounded queue of capacity `cap` accepts the front of what is offered (`accepted`) and gives up its front.
- `Pipe` is a queue together with its history: everything put in and everything taken out. `Lossless` says that the
  history is exactly what was taken out followed by what is held; then what was taken out is a prefix of what was put
  in (`Lossless.got_prefix`), and everything has been taken out once nothing is held (`Lossless.drained`). Every run of
  a pipe is lossless (`Pipe.run_lossless`).
- `Mailbox` is a queue of messages, each with its sender, that is read piecewise: one read never takes from two
  messages, and a message leaves when its last piece has been read. `readHead_bytes`: reading moves bytes from the
  queue to the reader, in order, without losing or inventing any.
- `valuesOf` is what a history with many keys says of one of them.
-/
import EspHostdriver.Core.Machine

namespace EspHostdriver.Fifo

variable {α β κ : Type*}

/-! ## A bounded queue -/

/-- the part of `l` that a queue holding `q` takes when it may hold at most `cap` -/
def accepted (cap : ℕ) (q l : List α) : List α := l.take (cap - q.length)

theorem accepted_all {cap : ℕ} {q l : List α} (h : q.length + l.length ≤ cap) : accepted cap q l = l :=
  List.take_of_length_le (by omega)

theorem accepted_full {cap : ℕ} {q l : List α} (h : cap ≤ q.length) : accepted cap q l = [] := by
  simp [accepted, Nat.sub_eq_zero_of_le h]

theorem accepted_cons {cap : ℕ} {q : List α} (a : α) (l : List α) (h : q.length < cap) :
    accepted cap q (a :: l) = a :: accepted cap (q ++ [a]) l := by
  obtain ⟨n, hn⟩ : ∃ n, cap - q.length = n + 1 := ⟨cap - q.length - 1, by omega⟩
  have : cap - (q.length + 1) = n := by omega
  simp [accepted, hn, this]

/-- who has fallen behind, or refuses a part of what is offered, does not catch up -/
theorem append_take_iff {a b l : List α} {m : ℕ} (h : b.length ≤ a.length) :
    a ++ l = b ++ l.take m ↔ a = b ∧ l.length ≤ m := by
  constructor
  · intro he
    have hlen := congrArg List.length he
    rw [List.length_append, List.length_append, List.length_take] at hlen
    exact ⟨(List.append_inj he (by omega)).1, by omega⟩
  · rintro ⟨rfl, hm⟩
    rw [List.take_of_length_le hm]

/-! ## A pipe with its history -/

/-- everything put in, everything taken out, and what is held in between -/
structure Pipe (α : Type*) where
  sent : List α
  got : List α
  held : List α

def Pipe.put (p : Pipe α) (l : List α) : Pipe α := { p with sent := p.sent ++ l, held := p.held ++ l }

def Pipe.get (p : Pipe α) (n : ℕ) : Pipe α := { p with got := p.got ++ p.held.take n, held := p.held.drop n }

/-- nothing lost, repeated, reordered or invented so far -/
def Pipe.Lossless (p : Pipe α) : Prop := p.sent = p.got ++ p.held

theorem Pipe.Lossless.put {p : Pipe α} (h : p.Lossless) (l : List α) : (p.put l).Lossless := by
  have h' : p.sent = p.got ++ p.held := h
  simp [Pipe.Lossless, Pipe.put, h']

theorem Pipe.Lossless.get {p : Pipe α} (h : p.Lossless) (n : ℕ) : (p.get n).Lossless := by
  have h' : p.sent = p.got ++ p.held := h
  simp [Pipe.Lossless, Pipe.get, h']

theorem Pipe.Lossless.got_prefix {p : Pipe α} (h : p.Lossless) : p.got <+: p.sent := ⟨p.held, h.symm⟩

theorem Pipe.Lossless.drained {p : Pipe α} (h : p.Lossless) (hh : p.held = []) : p.got = p.sent := by
  have h' : p.sent = p.got ++ p.held := h
  simp [h', hh]

/-- what can happen to a pipe -/
inductive Pipe.Act (α : Type*) where
  | put (l : List α)
  | get (n : ℕ)
  | skip

def Pipe.step (p : Pipe α) : Pipe.Act α → Option (Pipe α)
  | .put l => some (p.put l)
  | .get n => some (p.get n)
  | .skip => some p

theorem Pipe.step_lossless (p : Pipe α) (a : Pipe.Act α) (p' : Pipe α) (h : p.Lossless) (hs : p.step a = some p') :
    p'.Lossless := by
  cases a with
  | put l => cases hs; exact h.put l
  | get n => cases hs; exact h.get n
  | skip => cases hs; exact h

theorem Pipe.run_lossless {p p' : Pipe α} {as : List (Pipe.Act α)} (h : p.Lossless)
    (hr : Machine.run Pipe.step p as = some p') : p'.Lossless := Machine.inv_run Pipe.step_lossless h hr

/-! ## A queue of messages read piecewise -/

/-- messages not fully read yet: the bytes left of each, and its sender -/
abbrev Mailbox (α β : Type*) := List (List α × β)

/-- every byte the mailbox still holds -/
def Mailbox.bytes (q : Mailbox α β) : List α := (q.map Prod.fst).flatten

/-- one read of at most `n` bytes: the piece, its sender, and the mailbox afterwards -/
def Mailbox.readHead (q : Mailbox α β) (n : ℕ) : List α × Option β × Mailbox α β :=
  match q with
  | [] => ([], none, [])
  | (l, r) :: q => (l.take n, some r, if l.drop n = [] then q else (l.drop n, r) :: q)

theorem Mailbox.bytes_append (q : Mailbox α β) (l : List α) (r : β) : bytes (q ++ [(l, r)]) = bytes q ++ l := by
  simp [bytes]

/-- reading moves bytes from the front of the mailbox to the reader -/
theorem Mailbox.readHead_bytes (q : Mailbox α β) (n : ℕ) :
    (readHead q n).1 ++ bytes (readHead q n).2.2 = bytes q := by
  cases q with
  | nil => simp [readHead, bytes]
  | cons m q =>
    obtain ⟨l, r⟩ := m
    by_cases hd : l.drop n = []
    · have : l.take n = l := List.take_of_length_le (List.drop_eq_nil_iff.1 hd)
      simp [readHead, bytes, hd, this]
    · simp [readHead, bytes, hd, ← List.append_assoc]

/-! ## The history of one key -/

/-- the values of the entries with key `k`, in order -/
def valuesOf [DecidableEq κ] (key : α → κ) (value : α → β) (k : κ) (xs : List α) : List β :=
  (xs.filter fun x => key x = k).map value

section Keys

variable [DecidableEq κ] {key : α → κ} {value : α → β} {k : κ} {xs : List α}

@[simp] theorem valuesOf_nil : valuesOf key value k [] = [] := rfl

@[simp] theorem valuesOf_singleton (x : α) : valuesOf key value k [x] = if key x = k then [value x] else [] := by
  by_cases hx : key x = k <;> simp [valuesOf, hx]

end Keys

end EspHostdriver.Fifo
