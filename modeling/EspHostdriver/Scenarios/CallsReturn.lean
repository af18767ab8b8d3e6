/-
Whether every call on the serial line comes back.

A caller holds the mutex from `serial_cmd_start` to `pthread_cond_wait`, and `parse_line` takes it for every line it
checks, so no final line is checked before its caller waits. A final line can be lost all the same: the `response` of a
later caller does not recognise it, or `accept` reads it while it waits for the end of the reply to its own query.

- `step` is the machine: the callers, the module with its queue of commands and of lines, and the reader, which is in
  `parse_line` or in the loop of `accept`. `CommandMatching` has the same callers without new connections.
- `need` counts the calls that no line has woken, and the loop of `accept`; `supply` counts the final lines to come.
- `Heard`: a final line is lost only while more of them are to come than are needed.
- `calls_return`: after every run whose lines are heard, the machine goes on for as long as a call is outstanding, and
  not forever; a step that loses a needed line leaves a call that does not come back, whatever else is called.
- `plain_calls_return`: commands that wait for OK all come back, whenever new connections come in.
- `forget_run`: every run of `CommandMatching` is one of this machine.
-/
import EspHostdriver.Core.Roster
import EspHostdriver.Scenarios.CommandMatching

namespace EspHostdriver.CallsReturn

open Machine Roster
open CommandMatching (Phase respText finalLine parse_expected parse_error)

/-! ## Model -/

/-- a call of `serial_cmd` or `send_cmd` in progress -/
structure Caller where
  tid : ℕ
  resp : Option Response
  phase : Phase
deriving DecidableEq

/-- what the module sends: the final line of a command, or the news of a connection -/
inductive Line where
  | final (resp : Option Response) (ok : Bool)
  | connect
deriving DecidableEq

/-- `asking`: the reader is in the loop of `accept`; the module takes its query for a command that OK answers -/
structure State where
  mtx : Option ℕ
  response : Option Bytes
  asking : Bool
  callers : List Caller
  device : List (Option Response)
  lines : List Line

inductive Act where
  | start (t : ℕ) (resp : Option Response)
  | write (t : ℕ)
  | wait (t : ℕ)
  | answer (ok : Bool)
  | connect
  | read (w : Option ℕ)
  | spurious (t : ℕ)
  | wake (t : ℕ)
deriving DecidableEq

def boot : State := ⟨none, none, false, [], [], []⟩

def State.caller (s : State) (t : ℕ) : Option Caller := lookup Caller.tid s.callers t

def State.callerAt (s : State) (t : ℕ) (p : Phase) : Option Caller := standing Caller.tid Caller.phase s.callers t p

def State.move (s : State) (t : ℕ) (p : Phase) : State :=
  { s with callers := edit Caller.tid s.callers t fun c => { c with phase := p } }

/-- the loop of `accept` ends with a line that is OK or ERROR, without its newline -/
def ends (resp : Option Response) (ok : Bool) : Bool :=
  let line := cstr (finalLine resp ok).dropLast
  line = str "OK" ∨ line = str "ERROR"

/-- `pthread_cond_signal`: one of the waiting callers, if there is one -/
def signal (s : State) (w : Option ℕ) : Option State :=
  (Roster.signal Caller.tid Caller.phase s.callers .waiting (fun c => { c with phase := .woken }) w).map fun cs =>
    { s with callers := cs }

def step (s : State) : Act → Option State
  | .start t resp =>
    if s.mtx = none ∧ s.caller t = none then
      some { s with mtx := some t, response := respText resp, callers := s.callers ++ [⟨t, resp, .writing⟩] }
    else none
  | .write t => (s.callerAt t .writing).map fun c => { s.move t .written with device := s.device ++ [c.resp] }
  | .wait t => (s.callerAt t .written).map fun _ => { s.move t .waiting with mtx := none }
  | .answer ok =>
    match s.device with
    | resp :: d => some { s with device := d, lines := s.lines ++ [.final resp ok] }
    | [] => none
  | .connect => some { s with lines := s.lines ++ [.connect] }
  | .read w =>
    match s.lines with
    | [] => none
    | .connect :: ls =>
      -- `accept` takes a second connection for a line of the reply
      if s.asking then some { s with lines := ls }
      else some { s with lines := ls, asking := true, device := s.device ++ [none] }
    | .final resp ok :: ls =>
      if s.asking then some { s with lines := ls, asking := !ends resp ok }
      else if s.mtx ≠ none then none
      else if parseResponse s.response (finalLine resp ok) = .inval then some { s with lines := ls }
      else signal { s with lines := ls } w
  | .spurious t => (s.callerAt t .waiting).map fun _ => s.move t .woken
  | .wake t =>
    if s.mtx = none then (s.callerAt t .woken).map fun _ => { s with callers := drop Caller.tid s.callers t } else none

/-- a step of the threads and of the module that ends what has begun -/
def Act.finishes : Act → Bool
  | .write _ | .wait _ | .answer _ | .read _ | .wake _ => true
  | .start _ _ | .connect | .spurious _ => false

/-! ## What is needed and what is to come -/

/-- a final line has still to wake it -/
def Caller.need (c : Caller) : ℕ := if c.phase = .woken then 0 else 1

/-- its command has still to reach the module -/
def Caller.supply (c : Caller) : ℕ := if c.phase = .writing then 1 else 0

def Line.supply : Line → ℕ
  | .final _ _ => 1
  | .connect => 0

def need (s : State) : ℕ := total s.callers Caller.need + if s.asking then 1 else 0

def supply (s : State) : ℕ := total s.callers Caller.supply + s.device.length + total s.lines Line.supply

/-- the line neither wakes a caller nor ends the loop of `accept` -/
def unheard (s : State) : Line → Bool
  | .final resp ok => if s.asking then !ends resp ok else parseResponse s.response (finalLine resp ok) = .inval
  | .connect => false

def Act.loses (s : State) : Act → Bool
  | .read _ => s.lines.head?.any (unheard s)
  | .start _ _ | .write _ | .wait _ | .answer _ | .connect | .spurious _ | .wake _ => false

/-- a line that is lost was not needed -/
def Heard (s : State) (a : Act) : Prop := a.loses s = true → need s < supply s

instance decidableHeard (s : State) (a : Act) : Decidable (Heard s a) :=
  inferInstanceAs (Decidable (_ → _))

/-- how much the machine can still do on its own -/
def Caller.work (c : Caller) : ℕ :=
  match c.phase with
  | .writing => 6
  | .written => 3
  | .waiting => 2
  | .woken => 1

def Line.work : Line → ℕ
  | .final _ _ => 1
  | .connect => 3

def work (s : State) : ℕ := total s.callers Caller.work + 2 * s.device.length + total s.lines Line.work

/-- every call comes back; from a step on that loses a needed line, some call does not -/
structure Returns (s : State) : Prop where
  -- on its own, the machine comes to an end
  short : ∀ bs t, (∀ b ∈ bs, b.finishes = true) → run step s bs = some t → bs.length + work t ≤ work s
  -- and not before every call has returned
  all : ∀ bs t, (∀ b ∈ bs, b.finishes = true) → Guarded step Heard s bs → run step s bs = some t →
    t.callers = [] ∨ ∃ b u, b.finishes = true ∧ step t b = some u
  stuck : ∀ a s', step s a = some s' → ¬ Heard s a →
    ∀ bs t, (∀ b ∈ bs, ∀ t, b ≠ .spurious t) → run step s' bs = some t → t.callers ≠ []

/-! ## What a step can do -/

section Steps

variable {s s' : State} {t : ℕ}

theorem start_some {resp : Option Response} (h : step s (.start t resp) = some s') :
    s.mtx = none ∧ s.caller t = none ∧
      s' = { s with mtx := some t, response := respText resp, callers := s.callers ++ [⟨t, resp, .writing⟩] } := by
  simp only [step] at h
  split_ifs at h with hf
  exact ⟨hf.1, hf.2, (Option.some.inj h).symm⟩

theorem answer_some {ok : Bool} (h : step s (.answer ok) = some s') : ∃ resp d, s.device = resp :: d ∧
    s' = { s with device := d, lines := s.lines ++ [.final resp ok] } := by
  simp only [step] at h
  split at h
  · rename_i hd
    exact ⟨_, _, hd, (Option.some.inj h).symm⟩
  · cases h

theorem wake_some (h : step s (.wake t) = some s') : s.mtx = none ∧ ∃ c, s.caller t = some c ∧ c.phase = .woken ∧
    s' = { s with callers := drop Caller.tid s.callers t } := by
  simp only [step] at h
  split_ifs at h with hm
  exact ⟨hm, map_standing h⟩

theorem signal_moves {w : Option ℕ} (h : signal s w = some s') :
    ((∀ c ∈ s.callers, c.phase ≠ .waiting) ∧ s' = s) ∨
      ∃ t c, s.caller t = some c ∧ c.phase = .waiting ∧ s' = s.move t .woken := by
  obtain ⟨cs, hsig, rfl⟩ := Option.map_eq_some_iff.1 h
  rcases signal_some hsig with ⟨hw, rfl⟩ | ⟨t, c, _, hc, hph, rfl⟩
  · exact Or.inl ⟨hw, rfl⟩
  · exact Or.inr ⟨t, c, hc, hph, rfl⟩

/-- the reader drops the line, asks for a connection, ends its loop, or signals -/
theorem read_some {w : Option ℕ} (h : step s (.read w) = some s') : ∃ line ls, s.lines = line :: ls ∧
    ((line.supply = 0 ∧ s.asking = true ∧ s' = { s with lines := ls }) ∨
      (line.supply = 0 ∧ s.asking = false ∧ line = .connect ∧
        s' = { s with lines := ls, asking := true, device := s.device ++ [none] }) ∨
      (unheard s line = true ∧ line.supply = 1 ∧ s' = { s with lines := ls } ∧
        ∀ ok, s.asking = true → line ≠ .final none ok) ∨
      (unheard s line = false ∧ line.supply = 1 ∧ s.asking = true ∧ s' = { s with lines := ls, asking := false }) ∨
      (unheard s line = false ∧ line.supply = 1 ∧ s.asking = false ∧ s.mtx = none ∧
        signal { s with lines := ls } w = some s')) := by
  simp only [step] at h
  split at h
  · cases h
  · rename_i ls hl
    refine ⟨_, _, hl, ?_⟩
    split_ifs at h with hask
    · exact Or.inl ⟨rfl, hask, (Option.some.inj h).symm⟩
    · exact Or.inr (Or.inl ⟨rfl, by simpa using hask, rfl, (Option.some.inj h).symm⟩)
  · rename_i resp ok ls hl
    refine ⟨_, _, hl, Or.inr (Or.inr ?_)⟩
    split_ifs at h with hask hmtx hres
    · cases hends : ends resp ok with
      | true =>
        rw [hends] at h
        exact Or.inr (Or.inl ⟨by simp [unheard, hask, hends], rfl, hask, (Option.some.inj h).symm⟩)
      | false =>
        rw [hends] at h
        refine Or.inl ⟨by simp [unheard, hask, hends], rfl, ?_, fun b _ he => ?_⟩
        · rw [← Option.some.inj h, Bool.not_false, ← hask]
        · cases he
          cases ok <;> exact absurd hends (by decide)
    · exact Or.inl ⟨by simp [unheard, hask, hres], rfl, (Option.some.inj h).symm, fun _ ha => absurd ha hask⟩
    · exact Or.inr (Or.inr ⟨by simp [unheard, hask, hres], rfl, by simpa using hask, not_not.1 hmtx, h⟩)

end Steps

/-! ## The mutex and the query -/

/-- between `serial_cmd_start` and `pthread_cond_wait` -/
def Phase.Holds (p : Phase) : Prop := p = .writing ∨ p = .written

/-- the holder of the mutex is the one caller that writes -/
structure Owned (m : Option ℕ) (cs : List Caller) : Prop where
  keyed : Keyed Caller.tid cs
  owner : ∀ c ∈ cs, Phase.Holds c.phase → m = some c.tid
  owned : ∀ t, m = some t → ∃ c ∈ cs, c.tid = t ∧ Phase.Holds c.phase

section Owned

variable {m : Option ℕ} {cs : List Caller} {t : ℕ} {c : Caller}

theorem Owned.add (h : Owned none cs) {resp : Option Response} (ht : lookup Caller.tid cs t = none) :
    Owned (some t) (cs ++ [⟨t, resp, .writing⟩]) := by
  refine ⟨h.keyed.add (c := ⟨t, resp, .writing⟩) ht, fun d hd hold => ?_, fun u hu => ?_⟩
  · rcases List.mem_append.1 hd with hd | hd
    · cases h.owner d hd hold
    · rw [List.mem_singleton.1 hd]
  · cases hu
    exact ⟨_, List.mem_append_right _ (List.mem_singleton.2 rfl), rfl, Or.inl rfl⟩

/-- a caller goes on and keeps the mutex, or never had it -/
theorem Owned.move (h : Owned m cs) (hc : lookup Caller.tid cs t = some c) {p : Phase}
    (hp : Phase.Holds p ↔ Phase.Holds c.phase) :
    Owned m (edit Caller.tid cs t fun c => { c with phase := p }) := by
  have ht := (lookup_some hc).2
  refine ⟨h.keyed.edit fun _ => rfl, fun d hd hold => ?_, fun u hu => ?_⟩
  · rcases (mem_edit h.keyed hc).1 hd with rfl | ⟨hd, _⟩
    · exact h.owner c (lookup_some hc).1 (hp.1 hold)
    · exact h.owner d hd hold
  · obtain ⟨d, hd, hdu, hold⟩ := h.owned u hu
    by_cases hdt : d.tid = t
    · have hdc := h.keyed.unique hd (lookup_some hc).1 (hdt.trans ht.symm)
      exact ⟨_, (mem_edit h.keyed hc).2 (Or.inl rfl), ht.trans (hdt.symm.trans hdu), hp.2 (hdc ▸ hold)⟩
    · exact ⟨d, (mem_edit h.keyed hc).2 (Or.inr ⟨hd, hdt⟩), hdu, hold⟩

/-- the caller with the mutex begins to wait -/
theorem Owned.release (h : Owned m cs) (hc : lookup Caller.tid cs t = some c) (hold : Phase.Holds c.phase) :
    Owned none (edit Caller.tid cs t fun c => { c with phase := .waiting }) := by
  obtain ⟨hmem, ht⟩ := lookup_some hc
  refine ⟨h.keyed.edit fun _ => rfl, fun d hd hd' => ?_, fun u hu => nomatch hu⟩
  rcases (mem_edit h.keyed hc).1 hd with rfl | ⟨hd, hdt⟩
  · rcases hd' with hw | hw <;> cases hw
  · have hme := h.owner c hmem hold
    rw [h.owner d hd hd', ht] at hme
    exact absurd (Option.some.inj hme) hdt

theorem Owned.drop (h : Owned none cs) : Owned none (Roster.drop Caller.tid cs t) :=
  ⟨h.keyed.drop, fun d hd hold => h.owner d (mem_drop.1 hd).1 hold, fun _ hu => nomatch hu⟩

end Owned

/-- while the reader asks, the end of the reply is still to come -/
def Asked (s : State) : Prop := s.asking = true → none ∈ s.device ∨ ∃ ok, Line.final none ok ∈ s.lines

structure Inv (s : State) : Prop where
  mutex : Owned s.mtx s.callers
  asked : Asked s

theorem boot_inv : Inv boot :=
  ⟨⟨List.nodup_nil, fun _ hc => (List.not_mem_nil hc).elim, fun _ ht => nomatch ht⟩, fun h => nomatch h⟩

/-- what a step does to the lines that are needed and those that are to come -/
def Balance (s : State) (a : Act) (s' : State) : Prop :=
  if a.loses s = true then need s' = need s ∧ supply s' + 1 = supply s
  else need s' + supply s = need s + supply s' ∨ (need s = 0 ∧ need s' = 0) ∨
    ((∃ t, a = .spurious t) ∧ need s' + 1 = need s ∧ supply s' = supply s)

section Balance

variable {s s' : State} {a : Act} {t : ℕ}

/-- only the phase of one caller changes what the callers count for -/
theorem total_move (hi : Inv s) {c : Caller} (hc : s.caller t = some c) (p : Phase) (g : Caller → ℕ) :
    total (s.move t p).callers g + g c = total s.callers g + g { c with phase := p } :=
  total_edit hi.mutex.keyed hc

theorem need_move (hi : Inv s) {c : Caller} (hc : s.caller t = some c) (p : Phase) :
    need (s.move t p) + c.need = need s + ({ c with phase := p } : Caller).need := by
  have h := total_move hi hc p Caller.need
  have hask : (s.move t p).asking = s.asking := rfl
  rw [need, need, hask]
  omega

theorem supply_move (hi : Inv s) {c : Caller} (hc : s.caller t = some c) (p : Phase) :
    supply (s.move t p) + c.supply = supply s + ({ c with phase := p } : Caller).supply := by
  have h := total_move hi hc p Caller.supply
  have hdev : (s.move t p).device = s.device := rfl
  have hlines : (s.move t p).lines = s.lines := rfl
  rw [supply, supply, hdev, hlines]
  omega

theorem work_move (hi : Inv s) {c : Caller} (hc : s.caller t = some c) (p : Phase) :
    work (s.move t p) + c.work = work s + ({ c with phase := p } : Caller).work := by
  have h := total_move hi hc p Caller.work
  have hdev : (s.move t p).device = s.device := rfl
  have hlines : (s.move t p).lines = s.lines := rfl
  rw [work, work, hdev, hlines]
  omega

/-- a command in the queue of the module is a line to come, and two steps -/
theorem queued (s : State) (resp : Option Response) :
    supply { s with device := s.device ++ [resp] } = supply s + 1 ∧
      work { s with device := s.device ++ [resp] } = work s + 2 := by
  simp only [supply, work, List.length_append, List.length_singleton]
  omega

theorem supply_pos (hi : Inv s) (ha : s.asking = true) : 0 < supply s := by
  rcases hi.asked ha with hd | ⟨ok, hl⟩
  · have := List.length_pos_of_mem hd
    rw [supply]
    omega
  · have : 1 ≤ total s.lines Line.supply := le_total (g := Line.supply) hl
    rw [supply]
    omega

/-- more is needed than the loop of `accept`: somebody waits -/
theorem callers_of_short (hi : Inv s) (h : supply s < need s) : s.callers ≠ [] := by
  intro hnil
  have hask : s.asking = true := by
    by_contra hask
    simp [need, hnil, hask, total] at h
  have hpos := supply_pos hi hask
  have hneed : need s = 1 := by simp [need, hnil, hask, total]
  omega

theorem start_balance (hi : Inv s) {resp : Option Response} (h : step s (.start t resp) = some s') :
    Inv s' ∧ need s' = need s + 1 ∧ supply s' = supply s + 1 := by
  obtain ⟨hm, hc, rfl⟩ := start_some h
  refine ⟨⟨Owned.add (hm ▸ hi.mutex) hc, hi.asked⟩, ?_, ?_⟩
  · simp only [need, total_add, Caller.need]
    simp
    omega
  · simp only [supply, total_add, Caller.supply]
    simp
    omega

theorem write_balance (hi : Inv s) (h : step s (.write t) = some s') :
    Inv s' ∧ need s' = need s ∧ supply s' = supply s ∧ work s' < work s := by
  obtain ⟨c, hc, hph, rfl⟩ := map_standing h
  have hn := need_move hi hc .written
  have hs := supply_move hi hc .written
  have hw := work_move hi hc .written
  obtain ⟨hsq, hwq⟩ := queued (s.move t .written) c.resp
  simp [Caller.need, Caller.supply, Caller.work, hph] at hn hs hw
  refine ⟨⟨hi.mutex.move hc ?_, fun ha => ?_⟩, hn, ?_, ?_⟩
  · rw [hph]
    exact ⟨fun _ => Or.inl rfl, fun _ => Or.inr rfl⟩
  · exact (hi.asked ha).imp_left fun hd => List.mem_append_left _ hd
  · rw [← hs, ← hsq]
    rfl
  · have hsame : work { s.move t .written with device := s.device ++ [c.resp] } = work (s.move t .written) + 2 := hwq
    omega

theorem wait_balance (hi : Inv s) (h : step s (.wait t) = some s') :
    Inv s' ∧ need s' = need s ∧ supply s' = supply s ∧ work s' < work s := by
  obtain ⟨c, hc, hph, rfl⟩ := map_standing h
  have hn := need_move hi hc .waiting
  have hs := supply_move hi hc .waiting
  have hw := work_move hi hc .waiting
  simp [Caller.need, Caller.supply, Caller.work, hph] at hn hs hw
  refine ⟨⟨hi.mutex.release hc (Or.inr hph), hi.asked⟩, hn, hs, ?_⟩
  have hsame : work { s.move t .waiting with mtx := none } = work (s.move t .waiting) := rfl
  omega

theorem wake_balance (hi : Inv s) (h : step s (.wake t) = some s') :
    Inv s' ∧ need s' = need s ∧ supply s' = supply s ∧ work s' < work s := by
  obtain ⟨hm, c, hc, hph, rfl⟩ := wake_some h
  have hn := total_drop (g := Caller.need) hi.mutex.keyed hc
  have hs := total_drop (g := Caller.supply) hi.mutex.keyed hc
  have hw := total_drop (g := Caller.work) hi.mutex.keyed hc
  simp [Caller.need, Caller.supply, Caller.work, hph] at hn hs hw
  refine ⟨⟨?_, hi.asked⟩, ?_, ?_, ?_⟩
  · show Owned s.mtx _
    rw [hm]
    exact Owned.drop (hm ▸ hi.mutex)
  · rw [need, hn, need]
  · rw [supply, hs, supply]
  · simp only [work]
    omega

/-- a caller that was waiting is woken -/
theorem woken_balance (hi : Inv s) {c : Caller} (hc : s.caller t = some c) (hph : c.phase = .waiting) :
    Inv (s.move t .woken) ∧ need (s.move t .woken) + 1 = need s ∧ supply (s.move t .woken) = supply s ∧
      work (s.move t .woken) < work s := by
  have hn := need_move hi hc .woken
  have hs := supply_move hi hc .woken
  have hw := work_move hi hc .woken
  simp [Caller.need, Caller.supply, Caller.work, hph] at hn hs hw
  refine ⟨⟨hi.mutex.move hc ?_, hi.asked⟩, hn, hs, by omega⟩
  rw [hph]
  constructor <;> rintro (hp | hp) <;> cases hp

theorem answer_balance (hi : Inv s) {ok : Bool} (h : step s (.answer ok) = some s') :
    Inv s' ∧ need s' = need s ∧ supply s' = supply s ∧ work s' < work s := by
  obtain ⟨resp, d, hd, rfl⟩ := answer_some h
  refine ⟨⟨hi.mutex, fun ha => ?_⟩, rfl, ?_, ?_⟩
  · rcases hi.asked ha with hmem | ⟨b, hl⟩
    · rw [hd] at hmem
      rcases List.mem_cons.1 hmem with rfl | hmem
      · exact Or.inr ⟨ok, List.mem_append_right _ (List.mem_singleton.2 rfl)⟩
      · exact Or.inl hmem
    · exact Or.inr ⟨b, List.mem_append_left _ hl⟩
  · simp only [supply, total_add, hd, List.length_cons, Line.supply]
    omega
  · simp only [work, total_add, hd, List.length_cons, Line.work]
    omega

theorem connect_balance (hi : Inv s) (h : step s .connect = some s') :
    Inv s' ∧ need s' = need s ∧ supply s' = supply s := by
  cases h
  refine ⟨⟨hi.mutex, fun ha => ?_⟩, rfl, ?_⟩
  · exact (hi.asked ha).imp_right fun ⟨ok, hl⟩ => ⟨ok, List.mem_append_left _ hl⟩
  · simp only [supply, total_add, Line.supply]
    omega

/-- what the line at the head of the queue counts for -/
theorem popped {line : Line} {ls : List Line} (hl : s.lines = line :: ls) :
    supply s = supply { s with lines := ls } + line.supply ∧ work s = work { s with lines := ls } + line.work := by
  simp only [supply, work, hl, total, List.map_cons, List.sum_cons]
  omega

theorem Inv.pop (hi : Inv s) {line : Line} {ls : List Line} (hl : s.lines = line :: ls)
    (hne : ∀ ok, s.asking = true → line ≠ .final none ok) : Inv { s with lines := ls } := by
  refine ⟨hi.mutex, fun ha => (hi.asked ha).imp_right fun ⟨ok, hmem⟩ => ⟨ok, ?_⟩⟩
  rw [hl] at hmem
  exact (List.mem_cons.1 hmem).resolve_left (hne ok ha).symm

/-- with the mutex free, whoever is not waiting has been woken -/
theorem need_zero (hi : Inv s) (hm : s.mtx = none) (hask : s.asking = false) (hw : ∀ c ∈ s.callers, c.phase ≠ .waiting) :
    need s = 0 := by
  have hzero : total s.callers Caller.need = 0 := by
    rw [total_eq_zero]
    intro c hc
    have hown := hi.mutex.owner c hc
    rw [hm] at hown
    cases hph : c.phase with
    | writing => exact nomatch hown (Or.inl hph)
    | written => exact nomatch hown (Or.inr hph)
    | waiting => exact absurd hph (hw c hc)
    | woken => simp [Caller.need, hph]
  rw [need, hzero, hask]
  rfl

theorem read_balance (hi : Inv s) {w : Option ℕ} (h : step s (.read w) = some s') :
    Inv s' ∧ Balance s (.read w) s' ∧ work s' < work s := by
  obtain ⟨line, ls, hl, hcase⟩ := read_some h
  obtain ⟨hsup, hwork⟩ := popped hl
  have hpos : 0 < line.work := by cases line <;> simp [Line.work]
  have hloses : Act.loses s (.read w) = unheard s line := by simp [Act.loses, hl]
  have hconn : line.supply = 0 → unheard s line = false ∧ line.work = 3 ∧ ∀ ok, line ≠ .final none ok := by
    cases line <;> simp [Line.supply, Line.work, unheard]
  rw [Balance, hloses]
  rcases hcase with ⟨h0, hask, rfl⟩ | ⟨h0, hask, -, rfl⟩ | ⟨hun, h1, rfl, hne⟩ | ⟨hun, h1, hask, rfl⟩ |
    ⟨hun, h1, hask, hm, hsig⟩
  · -- a second connection in the reply
    obtain ⟨hun, _, hne⟩ := hconn h0
    refine ⟨hi.pop hl fun ok _ => hne ok, ?_, by omega⟩
    rw [hun, if_neg Bool.false_ne_true]
    exact Or.inl (by rw [hsup, h0]; rfl)
  · -- the reader asks
    obtain ⟨hun, hw3, _⟩ := hconn h0
    obtain ⟨hsq, hwq⟩ := queued { s with lines := ls } none
    have hneed : need { s with lines := ls, asking := true, device := s.device ++ [none] } = need s + 1 := by
      simp [need, hask]
    have hsupply : supply { s with lines := ls, asking := true, device := s.device ++ [none] } =
        supply { s with lines := ls } + 1 := hsq
    have hsteps : work { s with lines := ls, asking := true, device := s.device ++ [none] } =
        work { s with lines := ls } + 2 := hwq
    refine ⟨⟨hi.mutex, fun _ => Or.inl (List.mem_append_right _ (List.mem_singleton.2 rfl))⟩, ?_, by omega⟩
    rw [hun, if_neg Bool.false_ne_true]
    exact Or.inl (by omega)
  · -- the line is lost
    refine ⟨hi.pop hl hne, ?_, by omega⟩
    rw [hun, if_pos rfl]
    exact ⟨rfl, by omega⟩
  · -- the end of the loop
    have hneed : need { s with lines := ls, asking := false } + 1 = need s := by simp [need, hask]
    have hsupply : supply { s with lines := ls, asking := false } = supply { s with lines := ls } := rfl
    have hsteps : work { s with lines := ls, asking := false } = work { s with lines := ls } := rfl
    refine ⟨⟨hi.mutex, fun ha => nomatch ha⟩, ?_, by omega⟩
    rw [hun, if_neg Bool.false_ne_true]
    exact Or.inl (by omega)
  · have hi' : Inv { s with lines := ls } := hi.pop hl fun _ ha => by rw [hask] at ha; cases ha
    rw [hun, if_neg Bool.false_ne_true]
    rcases signal_moves hsig with ⟨hw, rfl⟩ | ⟨t, c, hc, hph, rfl⟩
    · exact ⟨hi', Or.inr (Or.inl ⟨need_zero hi hm hask hw, need_zero hi' hm hask hw⟩), by omega⟩
    · obtain ⟨hi2, hneed, hsupply, hsteps⟩ := woken_balance hi' hc hph
      have hsame : need { s with lines := ls } = need s := rfl
      exact ⟨hi2, Or.inl (by omega), by omega⟩

end Balance

/-! ## Steps and runs -/

theorem step_balance (s : State) (a : Act) (s' : State) (hi : Inv s) (h : step s a = some s') :
    Inv s' ∧ Balance s a s' ∧ (a.finishes = true → work s' < work s) := by
  have heven : ∀ {a : Act}, a.loses s = false → need s' = need s → supply s' = supply s → Balance s a s' := by
    intro a hl hn hs
    rw [Balance, hl, if_neg Bool.false_ne_true, hn, hs]
    exact Or.inl rfl
  cases a with
  | start t resp =>
    obtain ⟨hi', hn, hs⟩ := start_balance hi h
    refine ⟨hi', ?_, fun hf => nomatch hf⟩
    rw [Balance, if_neg (by simp [Act.loses])]
    exact Or.inl (by omega)
  | write t =>
    obtain ⟨hi', hn, hs, hw⟩ := write_balance hi h
    exact ⟨hi', heven rfl hn hs, fun _ => hw⟩
  | wait t =>
    obtain ⟨hi', hn, hs, hw⟩ := wait_balance hi h
    exact ⟨hi', heven rfl hn hs, fun _ => hw⟩
  | answer ok =>
    obtain ⟨hi', hn, hs, hw⟩ := answer_balance hi h
    exact ⟨hi', heven rfl hn hs, fun _ => hw⟩
  | connect =>
    obtain ⟨hi', hn, hs⟩ := connect_balance hi h
    exact ⟨hi', heven rfl hn hs, fun hf => nomatch hf⟩
  | read w =>
    obtain ⟨hi', hb, hw⟩ := read_balance hi h
    exact ⟨hi', hb, fun _ => hw⟩
  | spurious t =>
    obtain ⟨c, hc, hph, rfl⟩ := map_standing h
    obtain ⟨hi', hn, hs, _⟩ := woken_balance hi hc hph
    refine ⟨hi', ?_, fun hf => nomatch hf⟩
    rw [Balance, if_neg (by simp [Act.loses])]
    exact Or.inr (Or.inr ⟨⟨t, rfl⟩, hn, hs⟩)
  | wake t =>
    obtain ⟨hi', hn, hs, hw⟩ := wake_balance hi h
    exact ⟨hi', heven rfl hn hs, fun _ => hw⟩

/-- there are as many lines to come as are needed -/
structure Enough (s : State) : Prop where
  inv : Inv s
  le : need s ≤ supply s

theorem enough_boot : Enough boot := ⟨boot_inv, le_refl 0⟩

theorem step_enough (s : State) (a : Act) (s' : State) (hi : Enough s) (hg : Heard s a) (h : step s a = some s') :
    Enough s' := by
  obtain ⟨hi', hb, _⟩ := step_balance s a s' hi.inv h
  have hle := hi.le
  refine ⟨hi', ?_⟩
  rw [Balance] at hb
  split_ifs at hb with hl
  · have := hg hl
    omega
  · rcases hb with hb | ⟨_, hb⟩ | ⟨_, hn, hs⟩ <;> omega

/-- fewer lines are to come than are needed -/
structure Short (s : State) : Prop where
  inv : Inv s
  lt : supply s < need s

/-- only a wait that ends for nothing makes up for a lost line -/
theorem step_short (s : State) (a : Act) (s' : State) (hi : Short s) (ha : ∀ t, a ≠ .spurious t)
    (h : step s a = some s') : Short s' := by
  obtain ⟨hi', hb, _⟩ := step_balance s a s' hi.inv h
  have hlt := hi.lt
  refine ⟨hi', ?_⟩
  rw [Balance] at hb
  split_ifs at hb with hl
  · omega
  · rcases hb with hb | ⟨hb, _⟩ | ⟨⟨t, ht⟩, _⟩
    · omega
    · omega
    · exact absurd ht (ha t)

theorem short_of_lost {s s' : State} {a : Act} (hi : Enough s) (hn : ¬ Heard s a) (h : step s a = some s') :
    Short s' := by
  obtain ⟨hi', hb, _⟩ := step_balance s a s' hi.inv h
  have hle := hi.le
  obtain ⟨hl, hlt⟩ := Classical.not_imp.1 hn
  rw [Balance, if_pos hl] at hb
  exact ⟨hi', by omega⟩

/-- the reader can read any line while a caller waits -/
theorem read_possible {s : State} (hm : s.mtx = none) {t : ℕ} {c : Caller} (hc : s.caller t = some c)
    (hph : c.phase = .waiting) {line : Line} {ls : List Line} (hl : s.lines = line :: ls) :
    ∃ s', step s (.read (some t)) = some s' := by
  have hat : standing Caller.tid Caller.phase s.callers t .waiting = some c := standing_some.2 ⟨hc, hph⟩
  have hsig : signal { s with lines := ls } (some t) = some (State.move { s with lines := ls } t .woken) := by
    rw [signal, Roster.signal, hat]
    rfl
  cases line with
  | connect =>
    simp only [step, hl]
    split_ifs <;> exact ⟨_, rfl⟩
  | final resp ok =>
    simp only [step, hl, hsig]
    split_ifs with _ hmtx
    · exact ⟨_, rfl⟩
    · exact absurd hm hmtx
    · exact ⟨_, rfl⟩
    · exact ⟨_, rfl⟩

/-- with enough lines to come, somebody brings an outstanding call on -/
theorem goes_on {s : State} (hi : Enough s) (hc : s.callers ≠ []) : ∃ a s', a.finishes = true ∧ step s a = some s' := by
  have hmutex := hi.inv.mutex
  have hlook : ∀ c ∈ s.callers, s.caller c.tid = some c := fun c => lookup_of_mem hmutex.keyed
  have hat : ∀ c ∈ s.callers, s.callerAt c.tid c.phase = some c := fun c hmem => standing_some.2 ⟨hlook c hmem, rfl⟩
  cases hm : s.mtx with
  | some t =>
    obtain ⟨⟨tid, resp, ph⟩, hmem, rfl, hold⟩ := hmutex.owned t hm
    have hcall := hat _ hmem
    rcases hold with rfl | rfl
    · exact ⟨.write tid, _, rfl, by simp only [step, hcall]; rfl⟩
    · exact ⟨.wait tid, _, rfl, by simp only [step, hcall]; rfl⟩
  | none =>
    by_cases hwoken : ∃ c ∈ s.callers, c.phase = .woken
    · obtain ⟨⟨tid, resp, ph⟩, hmem, rfl⟩ := hwoken
      exact ⟨.wake tid, _, rfl, by simp only [step, hm, if_true, hat _ hmem]; rfl⟩
    -- everybody waits
    have hwait : ∀ c ∈ s.callers, c.phase = .waiting := by
      intro c hmem
      have hown := hmutex.owner c hmem
      rw [hm] at hown
      cases hph : c.phase with
      | writing => exact nomatch hown (Or.inl hph)
      | written => exact nomatch hown (Or.inr hph)
      | waiting => rfl
      | woken => exact absurd ⟨c, hmem, hph⟩ hwoken
    obtain ⟨c, hmem⟩ := List.exists_mem_of_ne_nil _ hc
    have hneed : 1 ≤ total s.callers Caller.need := by
      have := le_total (g := Caller.need) hmem
      simpa [Caller.need, hwait c hmem] using this
    have hnone : total s.callers Caller.supply = 0 :=
      total_eq_zero.2 fun d hd => by simp [Caller.supply, hwait d hd]
    cases hdev : s.device with
    | cons resp d => exact ⟨.answer true, _, rfl, by simp only [step, hdev]; rfl⟩
    | nil =>
      cases hl : s.lines with
      | cons line ls =>
        obtain ⟨s', hs'⟩ := read_possible hm (hlook c hmem) (hwait c hmem) hl
        exact ⟨_, s', rfl, hs'⟩
      | nil =>
        have hzero : supply s = 0 := by rw [supply, hnone, hdev, hl]; rfl
        have hpos : 1 ≤ need s := hneed.trans (Nat.le_add_right _ _)
        have hle := hi.le
        omega

theorem Enough.returns {s : State} (hi : Enough s) : Returns s where
  short bs t hb hr :=
    length_run (I := Inv) (p := fun b => b.finishes = true) (fun s a s' hi ha h =>
      let hb := step_balance s a s' hi h
      ⟨hb.1, hb.2.2 ha⟩) hi.inv hb hr
  all bs t _ hg hr := by
    have ht : Enough t := guarded_inv_run step_enough hi hg hr
    by_cases hnil : t.callers = []
    · exact Or.inl hnil
    · exact Or.inr (goes_on ht hnil)
  stuck a s' h hn bs t hb hr := by
    have hg := (guarded_true s' bs : Guarded step _ s' bs).and hb
    have ht : Short t := guarded_inv_run (fun s a s' hs ha h => step_short s a s' hs ha.1 h) (short_of_lost hi hn h) hg hr
    exact callers_of_short ht.inv ht.lt

/-- **Calls come back.** After every run that loses no needed line, the machine ends on its own, with every call
returned; from a step on that loses a needed line, some call is outstanding until a wait ends for nothing. -/
theorem calls_return {acts : List Act} {s : State} (hg : Guarded step Heard boot acts)
    (hr : run step boot acts = some s) : Returns s :=
  (guarded_inv_run step_enough enough_boot hg hr : Enough s).returns

/-- a response that is not OK -/
def sendOk : Response := ⟨str "SEND OK", by decide, by decide, by decide, by decide, by decide⟩

/-- a payload has been sent, a client has come in, and the reader has asked who it is -/
def interrupted : List Act :=
  [.start 1 (some sendOk), .write 1, .wait 1, .connect, .read none, .answer true, .answer true]

/-- the reader takes SEND OK for a line of the reply: the call never returns -/
theorem calls_return_sample : ∃ s s', run step boot interrupted = some s ∧ step s (.read none) = some s' ∧
    ∀ bs t, (∀ b ∈ bs, ∀ t, b ≠ .spurious t) → run step s' bs = some t → t.callers ≠ [] := by
  have hr : (run step boot interrupted).map (fun s => (s.asking, s.lines, need s, supply s)) =
      some (true, [.final (some sendOk) true, .final none true], 2, 2) := by decide +kernel
  obtain ⟨s, hs, he⟩ := Option.map_eq_some_iff.1 hr
  simp only [Prod.mk.injEq] at he
  obtain ⟨hask, hl, hn, hsup⟩ := he
  have hends : ends (some sendOk) true = false := by decide
  have hread : step s (.read none) = some { s with lines := [.final none true] } := by
    simp [step, hl, hask, hends]
  have hlost : ¬ Heard s (.read none) := by simp [Heard, Act.loses, hl, unheard, hask, hends, hn, hsup]
  exact ⟨s, _, hs, hread, (calls_return (by decide +kernel) hs).stuck _ _ hread hlost⟩

/-! ## Commands that wait for OK -/

/-- every final line to come is OK or ERROR, and OK is what everybody waits for -/
structure Plain (s : State) : Prop where
  callers : ∀ c ∈ s.callers, c.resp = none
  response : s.response = none
  device : ∀ resp ∈ s.device, resp = none
  lines : ∀ resp ok, .final resp ok ∈ s.lines → resp = none

def Act.Plain : Act → Prop
  | .start _ resp => resp = none
  | .write _ | .wait _ | .answer _ | .connect | .read _ | .spurious _ | .wake _ => True

instance decidablePlain : ∀ a, Decidable (Act.Plain a)
  | .start _ resp => inferInstanceAs (Decidable (resp = none))
  | .write _ | .wait _ | .answer _ | .connect | .read _ | .spurious _ | .wake _ => inferInstanceAs (Decidable True)

theorem plain_ends (ok : Bool) : ends none ok = true := by cases ok <;> decide

theorem plain_parse (ok : Bool) : parseResponse none (finalLine none ok) ≠ .inval := by cases ok <;> decide

theorem Plain.move {s : State} (h : Plain s) (t : ℕ) (p : Phase) : Plain (s.move t p) :=
  ⟨forall_edit h.callers fun _ hc => hc, h.response, h.device, h.lines⟩

theorem Plain.ask {s : State} (h : Plain s) {resp : Option Response} (hr : resp = none) :
    Plain { s with device := s.device ++ [resp] } := by
  refine ⟨h.callers, h.response, fun r hmem => ?_, h.lines⟩
  rcases List.mem_append.1 hmem with hmem | hmem
  · exact h.device r hmem
  · rw [List.mem_singleton.1 hmem, hr]

theorem Plain.pop {s : State} (h : Plain s) {line : Line} {ls : List Line} (hl : s.lines = line :: ls) :
    Plain { s with lines := ls } :=
  ⟨h.callers, h.response, h.device, fun r ok hmem => h.lines r ok (hl ▸ List.mem_cons_of_mem line hmem)⟩

theorem step_plain (s : State) (a : Act) (s' : State) (hp : Plain s) (ha : a.Plain) (h : step s a = some s') :
    Plain s' := by
  cases a with
  | start t resp =>
    obtain ⟨_, _, rfl⟩ := start_some h
    refine ⟨fun c hc => ?_, congrArg respText ha, hp.device, hp.lines⟩
    rcases List.mem_append.1 hc with hc | hc
    · exact hp.callers c hc
    · rw [List.mem_singleton.1 hc]
      exact ha
  | write t =>
    obtain ⟨c, hc, _, rfl⟩ := map_standing h
    exact (hp.move t .written).ask (hp.callers c (lookup_some hc).1)
  | wait t =>
    obtain ⟨c, _, _, rfl⟩ := map_standing h
    exact { hp.move t .waiting with }
  | answer ok =>
    obtain ⟨resp, d, hdev, rfl⟩ := answer_some h
    have hd := hp.device
    rw [hdev] at hd
    refine ⟨hp.callers, hp.response, fun r hmem => hd r (List.mem_cons_of_mem _ hmem), fun r b hmem => ?_⟩
    rcases List.mem_append.1 hmem with hmem | hmem
    · exact hp.lines r b hmem
    · cases List.mem_singleton.1 hmem
      exact hd resp List.mem_cons_self
  | connect =>
    cases h
    refine ⟨hp.callers, hp.response, hp.device, fun r b hmem => ?_⟩
    rcases List.mem_append.1 hmem with hmem | hmem
    · exact hp.lines r b hmem
    · cases List.mem_singleton.1 hmem
  | read w =>
    obtain ⟨line, ls, hl, hcase⟩ := read_some h
    have hpop := hp.pop hl
    rcases hcase with ⟨_, _, rfl⟩ | ⟨_, _, _, rfl⟩ | ⟨_, _, rfl, _⟩ | ⟨_, _, _, rfl⟩ | ⟨_, _, _, _, hsig⟩
    · exact hpop
    · exact { hpop.ask rfl with }
    · exact hpop
    · exact { hpop with }
    · rcases signal_moves hsig with ⟨_, rfl⟩ | ⟨t, c, _, _, rfl⟩
      · exact hpop
      · exact hpop.move t .woken
  | spurious t =>
    obtain ⟨c, _, _, rfl⟩ := map_standing h
    exact hp.move t .woken
  | wake t =>
    obtain ⟨_, c, _, _, rfl⟩ := wake_some h
    exact ⟨fun d hd => hp.callers d (mem_drop.1 hd).1, hp.response, hp.device, hp.lines⟩

theorem heard_of_plain (s : State) (a : Act) (hp : Plain s) : Heard s a := by
  intro hl
  exfalso
  cases a with
  | read w =>
    rw [Act.loses] at hl
    cases hlines : s.lines with
    | nil =>
      rw [hlines] at hl
      cases hl
    | cons line ls =>
      rw [hlines] at hl
      have hun : unheard s line = true := hl
      cases line with
      | connect => cases hun
      | final resp ok =>
        obtain rfl := hp.lines resp ok (hlines ▸ List.mem_cons_self)
        rw [unheard, hp.response] at hun
        split_ifs at hun
        · rw [plain_ends] at hun
          cases hun
        · exact plain_parse ok (of_decide_eq_true hun)
  | start t resp => cases hl
  | write t => cases hl
  | wait t => cases hl
  | answer ok => cases hl
  | connect => cases hl
  | spurious t => cases hl
  | wake t => cases hl

theorem plain_boot : Plain boot :=
  ⟨fun _ hc => (List.not_mem_nil hc).elim, rfl, fun _ hr => (List.not_mem_nil hr).elim,
    fun _ _ hl => (List.not_mem_nil hl).elim⟩

/-- **Commands that wait for OK always come back**, whichever threads make them, whenever connections come in, and
whatever the module answers. -/
theorem plain_calls_return {acts : List Act} {s : State} (hp : ∀ a ∈ acts, a.Plain) (hr : run step boot acts = some s)
    {bs : List Act} {t : State} (hb : ∀ b ∈ bs, b.finishes = true) (ht : run step s bs = some t) :
    bs.length + work t ≤ work s ∧ (t.callers = [] ∨ ∃ b u, b.finishes = true ∧ step t b = some u) := by
  have hplain : Plain s := guarded_inv_run step_plain plain_boot ((guarded_true boot acts).and hp |>.mono fun _ _ h => h.1) hr
  have hheard : Guarded step Heard boot acts := inv_guarded step_plain (fun s a hs _ => heard_of_plain s a hs) plain_boot hp
  have hret : Returns s := (guarded_inv_run step_enough enough_boot hheard hr : Enough s).returns
  have hrest : ∀ b ∈ bs, b.Plain := by
    intro b hmem
    have hfin := hb b hmem
    cases b with
    | start t resp => cases hfin
    | _ => trivial
  exact ⟨hret.short bs t hb ht,
    hret.all bs t hb (inv_guarded step_plain (fun s a hs _ => heard_of_plain s a hs) hplain hrest) ht⟩

/-- two callers wait, and the first OK ends the loop of `accept` -/
def crossed : List Act :=
  [.start 1 none, .write 1, .wait 1, .connect, .read none, .start 2 none, .write 2, .wait 2, .answer true, .answer false,
    .answer true]

theorem plain_calls_return_sample : ∃ s t, run step boot crossed = some s ∧
    run step s [.read none, .read (some 2), .read (some 1), .wake 1, .wake 2] = some t ∧ t.callers = [] ∧
    5 + work t ≤ work s := by
  have hr : (run step boot (crossed ++ [.read none, .read (some 2), .read (some 1), .wake 1, .wake 2])).map
      State.callers = some [] := by decide +kernel
  obtain ⟨t, ht, hc⟩ := Option.map_eq_some_iff.1 hr
  rw [run_append] at ht
  obtain ⟨s, hs, ht⟩ := Option.bind_eq_some_iff.1 ht
  exact ⟨s, t, hs, ht, hc, (plain_calls_return (by decide) hs (by decide) ht).1⟩

/-! ## The machine without new connections -/

/-- a call without what tells its command apart -/
def forgetCaller (c : CommandMatching.Caller) : Caller := ⟨c.tid, c.resp, c.phase⟩

def forget (s : CommandMatching.State) : State :=
  ⟨s.mtx, s.response, false, s.callers.map forgetCaller, s.device.map Prod.snd, s.lines.map fun l => .final l.2.1 l.2.2⟩

def forgetAct : CommandMatching.Act → Act
  | .start t resp => .start t resp
  | .write t => .write t
  | .wait t => .wait t
  | .answer ok => .answer ok
  | .parse w => .read w
  | .spurious t => .spurious t
  | .wake t => .wake t

theorem forget_caller (s : CommandMatching.State) (t : ℕ) :
    (forget s).caller t = (s.caller t).map forgetCaller := lookup_map fun _ => rfl

theorem forget_callerAt (s : CommandMatching.State) (t : ℕ) (p : Phase) :
    (forget s).callerAt t p = (s.callerAt t p).map forgetCaller := standing_map (fun _ => rfl) fun _ => rfl

theorem forget_move (s : CommandMatching.State) (t : ℕ) (p : Phase) : (forget s).move t p = forget (s.move t p) := by
  have hedit : edit Caller.tid (forget s).callers t (fun c => { c with phase := p }) = (forget (s.move t p)).callers :=
    edit_map (fun _ => rfl) fun _ => rfl
  rw [State.move, hedit]
  rfl

theorem forget_signal {s s' : CommandMatching.State} {w : Option ℕ} (h : CommandMatching.signal s w = some s') :
    signal (forget s) w = some (forget s') := by
  obtain ⟨cs, hsig, rfl⟩ := Option.map_eq_some_iff.1 h
  have hmap : Roster.signal Caller.tid Caller.phase (forget s).callers .waiting (fun c => { c with phase := .woken }) w =
      (Roster.signal CommandMatching.Caller.tid CommandMatching.Caller.phase s.callers .waiting
        (fun c => { c with phase := .woken }) w).map (List.map forgetCaller) := by
    apply signal_map
    all_goals exact fun _ => rfl
  rw [signal, hmap, hsig]
  rfl

theorem step_forget (s : CommandMatching.State) (a : CommandMatching.Act) (s' : CommandMatching.State)
    (h : CommandMatching.step s a = some s') : step (forget s) (forgetAct a) = some (forget s') := by
  cases a with
  | start t resp =>
    simp only [CommandMatching.step] at h
    split_ifs at h with hfree
    cases h
    have hfree' : (forget s).mtx = none ∧ (forget s).caller t = none := ⟨hfree.1, by rw [forget_caller, hfree.2]; rfl⟩
    simp only [forgetAct, step]
    rw [if_pos hfree']
    simp [forget, forgetCaller]
  | write t =>
    obtain ⟨c, hc, rfl⟩ := Option.map_eq_some_iff.1 h
    simp only [forgetAct, step, forget_callerAt, hc, Option.map_some, forget_move]
    simp [forget, forgetCaller, CommandMatching.State.move]
  | wait t =>
    obtain ⟨c, hc, rfl⟩ := Option.map_eq_some_iff.1 h
    simp only [forgetAct, step, forget_callerAt, hc, Option.map_some, forget_move]
    rfl
  | answer ok =>
    simp only [CommandMatching.step] at h
    split at h
    · rename_i hd
      cases h
      simp [forgetAct, step, forget, hd]
    · cases h
  | parse w =>
    simp only [CommandMatching.step] at h
    split at h
    · rename_i n resp ok ls hm hl
      have hlines : (forget s).lines = .final resp ok :: ls.map fun l => .final l.2.1 l.2.2 := by rw [forget, hl]; rfl
      have hmtx : ¬ (forget s).mtx ≠ none := not_not.2 hm
      have hresp : (forget s).response = s.response := rfl
      simp only [forgetAct, step, hlines, hresp]
      rw [if_neg (by simp [forget]), if_neg hmtx]
      split_ifs at h ⊢ with hres hw
      · cases h
        rfl
      · exact forget_signal h
    · cases h
  | spurious t =>
    obtain ⟨c, hc, rfl⟩ := Option.map_eq_some_iff.1 h
    simp only [forgetAct, step, forget_callerAt, hc, Option.map_some, forget_move]
  | wake t =>
    simp only [CommandMatching.step] at h
    split_ifs at h with hm
    obtain ⟨c, hc, rfl⟩ := Option.map_eq_some_iff.1 h
    have hmtx : (forget s).mtx = none := hm
    have hdrop : drop Caller.tid (forget s).callers t = (drop CommandMatching.Caller.tid s.callers t).map forgetCaller :=
      drop_map fun _ => rfl
    simp only [forgetAct, step, hmtx, if_true, forget_callerAt, hc, Option.map_some, hdrop]
    simp [forget, hm]

/-- every run of `CommandMatching` is one of this machine -/
theorem forget_run {acts : List CommandMatching.Act} {s : CommandMatching.State}
    (hr : run CommandMatching.step CommandMatching.boot acts = some s) :
    run step boot (acts.map forgetAct) = some (forget s) := by
  obtain ⟨t, ht, rfl⟩ := sim_run (R := fun s t => t = forget s) (f := forgetAct) (g := fun _ _ => True)
    (fun s a s' t ht _ h => ⟨_, ht ▸ step_forget s a s' h, rfl⟩) (t := boot) rfl (guarded_true _ acts) hr
  exact ht

end EspHostdriver.CallsReturn
