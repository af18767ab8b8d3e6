/-
Several threads issue commands; the reader tells them apart by nothing.

`result` and `response` exist once, one condition variable serves all callers, and `serial_cmd_wait` takes the first
wake-up for its own answer. The mutex orders the commands, but it is released while a caller waits, so the next caller
overwrites both variables, and a signal may wake any of the waiting callers.

- `step` is the machine: callers with the four parts of a call (`serial_cmd_start`, the writes, `pthread_cond_wait`, the
  wake-up), the device with its queues of commands and of lines, and the reader's `parse_line`. The schedule picks the
  caller that a signal wakes, and may wake a waiting caller for nothing.
- `Matched`: every call that has returned did so after its own final line was parsed, and returned 0 just when that line
  was the expected response.
- `command_matching`: a run stays matched as long as a command is started only when no other call is outstanding and with
  a response that ERROR does not start with, and no caller is woken for nothing. Any other step can be continued to a
  mix-up.
- `command_matching_fails`: two callers, two OK lines, and the first one wakes the wrong caller.
-/
import EspHostdriver.Core.Roster
import EspHostdriver.Esp01.Command
import EspHostdriver.Esp01.Wire

namespace EspHostdriver.CommandMatching

open Machine Roster

/-! ## Model -/

/-- where a call stands: in its writes, before `pthread_cond_wait`, in it, or woken and on its way to the mutex -/
inductive Phase where
  | writing
  | written
  | waiting
  | woken
deriving DecidableEq

/-- a call of `serial_cmd` or `send_cmd` in progress -/
structure Caller where
  tid : ℕ
  cmd : ℕ
  resp : Option Response
  phase : Phase
deriving DecidableEq

/-- a call that has returned; `seen` is its own final line, if the reader had parsed it by then -/
structure Return where
  cmd : ℕ
  value : ℤ
  seen : Option Bool
deriving DecidableEq

/-- `device` holds the commands received and not answered, `lines` the final lines not parsed; commands are numbered -/
structure State where
  mtx : Option ℕ
  result : Res
  response : Option Bytes
  callers : List Caller
  device : List (ℕ × Option Response)
  lines : List (ℕ × Option Response × Bool)
  parsed : ℕ → Option Bool
  returns : List Return
  next : ℕ

inductive Act where
  | start (t : ℕ) (resp : Option Response)
  | write (t : ℕ)
  | wait (t : ℕ)
  | answer (ok : Bool)
  | parse (w : Option ℕ)
  | spurious (t : ℕ)
  | wake (t : ℕ)

def boot : State := ⟨none, .inval, none, [], [], [], fun _ => none, [], 0⟩

def State.caller (s : State) (t : ℕ) : Option Caller := lookup Caller.tid s.callers t

def State.callerAt (s : State) (t : ℕ) (p : Phase) : Option Caller := standing Caller.tid Caller.phase s.callers t p

def State.move (s : State) (t : ℕ) (p : Phase) : State :=
  { s with callers := edit Caller.tid s.callers t fun c => { c with phase := p } }

/-- what `serial_cmd_start` keeps of the expected response -/
def respText (resp : Option Response) : Option Bytes := resp.map Response.text

/-- the device's final line for a command: the expected response, or ERROR -/
def finalLine (resp : Option Response) (ok : Bool) : Bytes :=
  (if ok then (respText resp).getD (str "OK") else str "ERROR") ++ [10]

/-- `pthread_cond_signal`: one of the waiting callers, if there is one -/
def signal (s : State) (w : Option ℕ) : Option State :=
  (Roster.signal Caller.tid Caller.phase s.callers .waiting (fun c => { c with phase := .woken }) w).map fun cs =>
    { s with callers := cs }

def step (s : State) : Act → Option State
  | .start t resp =>
    if s.mtx = none ∧ s.caller t = none then
      some { s with
        mtx := some t, result := .inval, response := respText resp,
        callers := s.callers ++ [⟨t, s.next, resp, .writing⟩], next := s.next + 1 }
    else none
  | .write t =>
    (s.callerAt t .writing).map fun c => { s.move t .written with device := s.device ++ [(c.cmd, c.resp)] }
  | .wait t => (s.callerAt t .written).map fun _ => { s.move t .waiting with mtx := none }
  | .answer ok =>
    match s.device with
    | (n, resp) :: d => some { s with device := d, lines := s.lines ++ [(n, resp, ok)] }
    | [] => none
  | .parse w =>
    match s.mtx, s.lines with
    | none, (n, resp, ok) :: ls =>
      let r := parseResponse s.response (finalLine resp ok)
      let s := { s with lines := ls, parsed := Function.update s.parsed n (some ok) }
      if r = .inval then (if w = none then some s else none) else signal { s with result := r } w
    | _, _ => none
  | .spurious t => (s.callerAt t .waiting).map fun _ => s.move t .woken
  | .wake t =>
    if s.mtx = none then
      (s.callerAt t .woken).map fun c =>
        { s with
          callers := drop Caller.tid s.callers t, returns := s.returns ++ [⟨c.cmd, s.result.ret, s.parsed c.cmd⟩] }
    else none

/-- every call that has returned saw its own final line, and returned 0 just when it was the expected response -/
def Matched (s : State) : Prop := ∀ e ∈ s.returns, ∃ ok, e.seen = some ok ∧ (e.value = 0 ↔ ok = true)

/-- ERROR does not start with the expected response -/
def Distinct (resp : Option Response) : Prop := parseResponse (respText resp) (finalLine resp false) = .err

instance decidableDistinct (resp : Option Response) : Decidable (Distinct resp) := inferInstanceAs (Decidable (_ = _))

/-- no other call is outstanding when one starts, and no caller is woken for nothing -/
def Alone (s : State) : Act → Prop
  | .start _ resp => s.callers = [] ∧ Distinct resp
  | .spurious _ => False
  | _ => True

instance decidableAlone (s : State) : ∀ a, Decidable (Alone s a)
  | .start _ resp => inferInstanceAs (Decidable (s.callers = [] ∧ Distinct resp))
  | .spurious _ => inferInstanceAs (Decidable False)
  | .write _ => inferInstanceAs (Decidable True)
  | .wait _ => inferInstanceAs (Decidable True)
  | .answer _ => inferInstanceAs (Decidable True)
  | .parse _ => inferInstanceAs (Decidable True)
  | .wake _ => inferInstanceAs (Decidable True)

/-! ## One caller at a time -/

/-- the command is with the device, or its final line is on the way -/
def Pending (s : State) (c : Caller) : Prop :=
  s.parsed c.cmd = none ∧
  ((s.device = [(c.cmd, c.resp)] ∧ s.lines = []) ∨ ∃ ok, s.device = [] ∧ s.lines = [(c.cmd, c.resp, ok)])

/-- where the mutex, the command and its answer are in each part of the only call -/
def Turn (s : State) (c : Caller) : Prop :=
  match c.phase with
  | .writing => s.mtx = some c.tid ∧ s.device = [] ∧ s.lines = [] ∧ s.parsed c.cmd = none
  | .written => s.mtx = some c.tid ∧ Pending s c
  | .waiting => s.mtx = none ∧ Pending s c
  | .woken =>
    s.mtx = none ∧ s.device = [] ∧ s.lines = [] ∧
      ∃ ok, s.parsed c.cmd = some ok ∧ s.result = if ok then .ok else .err

structure Inv (s : State) : Prop where
  matched : Matched s
  fresh : ∀ n, s.next ≤ n → s.parsed n = none
  turn : (s.callers = [] ∧ s.mtx = none ∧ s.device = [] ∧ s.lines = []) ∨
    ∃ c, s.callers = [c] ∧ c.cmd < s.next ∧ s.response = respText c.resp ∧ Distinct c.resp ∧ Turn s c

theorem boot_inv : Inv boot := ⟨fun _ h => (List.not_mem_nil h).elim, fun _ _ => rfl, Or.inl ⟨rfl, rfl, rfl, rfl⟩⟩

/-- the expected response always passes the check it was given for -/
theorem parse_expected (resp : Option Response) : parseResponse (respText resp) (finalLine resp true) = .ok := by
  cases resp with
  | none => rfl
  | some r =>
    have hp : r.text.isPrefixOf (r.text ++ [10]) = true := List.isPrefixOf_iff_prefix.2 (List.prefix_append _ _)
    simp [parseResponse, respText, finalLine, hp]

theorem parse_own {resp : Option Response} (hd : Distinct resp) (ok : Bool) :
    parseResponse (respText resp) (finalLine resp ok) = if ok then .ok else .err := by
  cases ok with
  | false => exact hd
  | true => exact parse_expected resp

section Steps

variable {s s' : State} {c : Caller}

theorem caller_single (h : s.callers = [c]) (t : ℕ) : s.caller t = if c.tid = t then some c else none := by
  by_cases ht : c.tid = t <;> simp [State.caller, lookup, h, ht]

theorem caller_none (h : s.callers = []) (t : ℕ) : s.caller t = none := by simp [State.caller, lookup, h]

/-- the only caller, found by its thread -/
theorem caller_eq (h : s.callers = [c]) {t : ℕ} {d : Caller} (hd : s.caller t = some d) : d = c ∧ c.tid = t := by
  rw [caller_single h] at hd
  split_ifs at hd with ht
  exact ⟨(Option.some.inj hd).symm, ht⟩

/-- whoever calls is the only one -/
theorem Inv.only (hi : Inv s) {t : ℕ} (hc : s.caller t = some c) :
    s.callers = [c] ∧ c.tid = t ∧ c.cmd < s.next ∧ s.response = respText c.resp ∧ Distinct c.resp ∧ Turn s c := by
  rcases hi.turn with ⟨h0, _⟩ | ⟨d, hd, hturn⟩
  · rw [caller_none h0] at hc
    cases hc
  · obtain ⟨rfl, ht⟩ := caller_eq hd hc
    exact ⟨hd, ht, hturn⟩

theorem move_single (h : s.callers = [c]) (p : Phase) :
    s.move c.tid p = { s with callers := [{ c with phase := p }] } := by
  simp [State.move, edit, h]

theorem start_inv (hi : Inv s) {t : ℕ} {resp : Option Response} (hc : s.callers = []) (hd : Distinct resp)
    (h : step s (.start t resp) = some s') : Inv s' := by
  obtain ⟨hmt, hfresh, hturn⟩ := hi
  obtain ⟨_, _, hdev, hlines⟩ : s.callers = [] ∧ s.mtx = none ∧ s.device = [] ∧ s.lines = [] := by
    rcases hturn with h0 | ⟨c, hcs, _⟩
    · exact h0
    · rw [hc] at hcs; cases hcs
  simp only [step] at h
  split_ifs at h
  cases h
  refine ⟨hmt, fun n hn => hfresh n (Nat.le_of_succ_le hn), Or.inr ⟨⟨t, s.next, resp, .writing⟩, ?_⟩⟩
  exact ⟨by simp [hc], Nat.lt_succ_self _, rfl, hd, rfl, hdev, hlines, hfresh _ (le_refl _)⟩

theorem write_inv (hi : Inv s) {t : ℕ} (h : step s (.write t) = some s') : Inv s' := by
  obtain ⟨c, hcall, hph, rfl⟩ := map_standing h
  obtain ⟨hcs, rfl, hlt, hresp, hdis, hT⟩ := hi.only hcall
  simp only [Turn, hph] at hT
  obtain ⟨hmtx, hdev, hlines, hp⟩ := hT
  refine ⟨hi.matched, hi.fresh, Or.inr ⟨{ c with phase := .written }, ?_, hlt, hresp, hdis, hmtx, hp, Or.inl ⟨?_, hlines⟩⟩⟩
  · show (s.move _ _).callers = _
    rw [move_single hcs]
  · show (s.device ++ _) = _
    rw [hdev]
    rfl

theorem wait_inv (hi : Inv s) {t : ℕ} (h : step s (.wait t) = some s') : Inv s' := by
  obtain ⟨c, hcall, hph, rfl⟩ := map_standing h
  obtain ⟨hcs, rfl, hlt, hresp, hdis, hT⟩ := hi.only hcall
  simp only [Turn, hph] at hT
  refine ⟨hi.matched, hi.fresh, Or.inr ⟨{ c with phase := .waiting }, ?_, hlt, hresp, hdis, rfl, hT.2⟩⟩
  show (s.move _ _).callers = _
  rw [move_single hcs]

/-- the device only ever holds the command of the only call, so its answer belongs to that call -/
theorem answer_inv (hi : Inv s) {ok : Bool} (h : step s (.answer ok) = some s') : Inv s' := by
  obtain ⟨hmt, hfresh, hturn⟩ := hi
  simp only [step] at h
  split at h
  · rename_i n resp d hdev
    cases h
    refine ⟨hmt, hfresh, ?_⟩
    rcases hturn with ⟨_, _, hdev', _⟩ | ⟨c, hcs, hlt, hresp, hdis, hT⟩
    · rw [hdev'] at hdev; cases hdev
    have hpend : Pending s c → Pending { s with device := d, lines := s.lines ++ [(n, resp, ok)] } c := by
      rintro ⟨hp, ⟨hdev', hlines⟩ | ⟨_, hdev', _⟩⟩
      · rw [hdev'] at hdev
        cases hdev
        exact ⟨hp, Or.inr ⟨ok, rfl, by simp [hlines]⟩⟩
      · rw [hdev'] at hdev; cases hdev
    refine Or.inr ⟨c, hcs, hlt, hresp, hdis, ?_⟩
    unfold Turn at hT ⊢
    cases hph : c.phase with
    | writing => simp only [hph] at hT; rw [hT.2.1] at hdev; cases hdev
    | written => simp only [hph] at hT; exact ⟨hT.1, hpend hT.2⟩
    | waiting => simp only [hph] at hT; exact ⟨hT.1, hpend hT.2⟩
    | woken => simp only [hph] at hT; rw [hT.2.1] at hdev; cases hdev
  · cases h

/-- the only final line there can be wakes the only caller there is -/
theorem parse_inv (hi : Inv s) {w : Option ℕ} (h : step s (.parse w) = some s') : Inv s' := by
  obtain ⟨hmt, hfresh, hturn⟩ := hi
  simp only [step] at h
  split at h
  · rename_i n resp ok ls hmtx hlines
    rcases hturn with ⟨_, _, _, hlines'⟩ | ⟨c, hcs, hlt, hresp, hdis, hT⟩
    · rw [hlines'] at hlines; cases hlines
    unfold Turn at hT
    cases hph : c.phase with
    | writing => simp only [hph] at hT; rw [hT.2.2.1] at hlines; cases hlines
    | written => simp only [hph] at hT; rw [hT.1] at hmtx; cases hmtx
    | woken => simp only [hph] at hT; rw [hT.2.2.1] at hlines; cases hlines
    | waiting =>
      simp only [hph] at hT
      obtain ⟨_, hp, ⟨_, hlines'⟩ | ⟨b, hdev, hlines'⟩⟩ := hT
      · rw [hlines'] at hlines; cases hlines
      rw [hlines'] at hlines
      cases hlines
      rw [hresp, parse_own hdis] at h
      have hne : (if ok = true then Res.ok else Res.err) ≠ .inval := by cases ok <;> decide
      rw [if_neg hne] at h
      obtain ⟨cs, hsig, rfl⟩ := Option.map_eq_some_iff.1 h
      rcases signal_some hsig with ⟨hnone, _⟩ | ⟨t, d, _, hd, _, rfl⟩
      · -- the caller is waiting, so the signal cannot go by unnoticed
        exact absurd hph (hnone c (by simp [hcs]))
      · obtain ⟨_, rfl⟩ := caller_eq hcs hd
        refine ⟨hmt, ?_, Or.inr ⟨{ c with phase := .woken }, ?_, hlt, rfl, hdis, hmtx, hdev, rfl, ok, ?_, rfl⟩⟩
        · intro m hm
          show Function.update s.parsed c.cmd (some ok) m = none
          rw [Function.update_of_ne (by have : s.next ≤ m := hm; omega)]
          exact hfresh m hm
        · show (s.move c.tid .woken).callers = _
          rw [move_single hcs]
        · exact Function.update_self _ _ _
  · cases h

theorem wake_inv (hi : Inv s) {t : ℕ} (h : step s (.wake t) = some s') : Inv s' := by
  simp only [step] at h
  split_ifs at h with hmtx
  obtain ⟨c, hcall, hph, rfl⟩ := map_standing h
  obtain ⟨hcs, rfl, hlt, hresp, hdis, hT⟩ := hi.only hcall
  simp only [Turn, hph] at hT
  obtain ⟨_, hdev, hlines, ok, hp, hres⟩ := hT
  refine ⟨?_, hi.fresh, Or.inl ⟨by simp [drop, hcs], hmtx, hdev, hlines⟩⟩
  intro e he
  rcases List.mem_append.1 he with he | he
  · exact hi.matched e he
  · rw [List.mem_singleton] at he
    subst he
    refine ⟨ok, hp, ?_⟩
    rw [Res.ret_eq_zero, hres]
    cases ok <;> simp

end Steps

theorem step_inv (s : State) (a : Act) (s' : State) (hi : Inv s) (hg : Alone s a) (h : step s a = some s') :
    Inv s' := by
  cases a with
  | start t resp => exact start_inv hi hg.1 hg.2 h
  | write t => exact write_inv hi h
  | wait t => exact wait_inv hi h
  | answer ok => exact answer_inv hi h
  | parse w => exact parse_inv hi h
  | spurious t => exact hg.elim
  | wake t => exact wake_inv hi h

/-! ## Two callers at a time -/

/-- the machine can go on to a state that is not matched -/
def Mixed (s : State) : Prop := ∃ bs t, run step s bs = some t ∧ ¬ Matched t

section Mixed

variable {s s' : State}

theorem Mixed.before {a : Act} (h : step s a = some s') (hm : Mixed s') : Mixed s := by
  obtain ⟨bs, t, hr, ht⟩ := hm
  exact ⟨a :: bs, t, run_cons_some.2 ⟨s', h, hr⟩, ht⟩

/-- a woken caller whose own line was not parsed, or does not agree with `result` -/
theorem mixed_wake {t : ℕ} {d : Caller} (hm : s.mtx = none) (hc : s.caller t = some d) (hd : d.phase = .woken)
    (hbad : ∀ ok, s.parsed d.cmd = some ok → ¬ (s.result = .ok ↔ ok = true)) : Mixed s := by
  have hat : s.callerAt t .woken = some d := standing_some.2 ⟨hc, hd⟩
  refine ⟨[.wake t], _, by simp only [run_cons, step, hm, if_true, hat]; rfl, fun hmatch => ?_⟩
  obtain ⟨ok, hseen, hval⟩ := hmatch _ (List.mem_append_right _ (List.mem_singleton.2 rfl))
  rw [Res.ret_eq_zero] at hval
  exact hbad ok hseen hval

/-- a final line that is recognised wakes whichever waiting caller the schedule picks -/
theorem step_parse {t n : ℕ} {resp : Option Response} {ok : Bool} {ls : List (ℕ × Option Response × Bool)} {d : Caller}
    {r : Res} (hm : s.mtx = none) (hl : s.lines = (n, resp, ok) :: ls)
    (hr : parseResponse s.response (finalLine resp ok) = r) (hne : r ≠ .inval) (hc : s.caller t = some d)
    (hd : d.phase = .waiting) :
    step s (.parse (some t)) = some
      (State.move { s with lines := ls, parsed := Function.update s.parsed n (some ok), result := r } t .woken) := by
  have hat : standing Caller.tid Caller.phase s.callers t .waiting = some d := standing_some.2 ⟨hc, hd⟩
  simp only [step, hm, hl, hr, hne, if_false, signal, Roster.signal, hat, Option.map_some]
  rfl

theorem caller_move {t : ℕ} {d : Caller} (h : s.caller t = some d) (p : Phase) :
    (s.move t p).caller t = some { d with phase := p } := by
  have hmap : (s.move t p).caller t = (s.caller t).map fun c => { c with phase := p } := lookup_edit fun _ => rfl
  rw [hmap, h]
  rfl

/-- a waiting caller is woken by a final line that is not its own, or not what its own one says -/
theorem mixed_parse {t n : ℕ} {resp : Option Response} {ok : Bool} {ls : List (ℕ × Option Response × Bool)} {d : Caller}
    {r : Res} (hm : s.mtx = none) (hl : s.lines = (n, resp, ok) :: ls)
    (hr : parseResponse s.response (finalLine resp ok) = r) (hne : r ≠ .inval) (hc : s.caller t = some d)
    (hd : d.phase = .waiting)
    (hbad : ∀ b, Function.update s.parsed n (some ok) d.cmd = some b → ¬ (r = .ok ↔ b = true)) : Mixed s := by
  have hw := caller_move (s := { s with lines := ls, parsed := Function.update s.parsed n (some ok), result := r }) hc
    .woken
  exact Mixed.before (step_parse hm hl hr hne hc hd) (mixed_wake hm hw rfl hbad)

/-- the state once a caller that starts now waits for its answer -/
def joined (s : State) (t : ℕ) (resp : Option Response) : State :=
  { s with
    mtx := none, result := .inval, response := respText resp, callers := s.callers ++ [⟨t, s.next, resp, .waiting⟩],
    device := s.device ++ [(s.next, resp)], next := s.next + 1 }

theorem mixed_start {t : ℕ} {resp : Option Response} (h : step s (.start t resp) = some s')
    (hm : Mixed (joined s t resp)) : Mixed s' := by
  simp only [step] at h
  split_ifs at h with hfree
  cases h
  have hfind : lookup Caller.tid s.callers t = none := hfree.2
  have hat : ∀ p, standing Caller.tid Caller.phase (s.callers ++ [⟨t, s.next, resp, p⟩]) t p =
      some ⟨t, s.next, resp, p⟩ := fun p => standing_some.2 ⟨lookup_last (c := (⟨t, s.next, resp, p⟩ : Caller)) hfind, rfl⟩
  have hmove : ∀ p q, edit Caller.tid (s.callers ++ [⟨t, s.next, resp, p⟩]) t (fun c => { c with phase := q }) =
      s.callers ++ [⟨t, s.next, resp, q⟩] := fun p q => edit_last (c := (⟨t, s.next, resp, p⟩ : Caller)) hfind
  have h1 : step { s with
        mtx := some t, result := .inval, response := respText resp,
        callers := s.callers ++ [⟨t, s.next, resp, .writing⟩], next := s.next + 1 } (.write t) = some { s with
      mtx := some t, result := .inval, response := respText resp, callers := s.callers ++ [⟨t, s.next, resp, .written⟩],
      device := s.device ++ [(s.next, resp)], next := s.next + 1 } := by
    simp only [step, State.callerAt, hat, State.move, hmove, Option.map_some]
  have h2 : step { s with
      mtx := some t, result := .inval, response := respText resp, callers := s.callers ++ [⟨t, s.next, resp, .written⟩],
      device := s.device ++ [(s.next, resp)], next := s.next + 1 } (.wait t) = some (joined s t resp) := by
    simp only [step, State.callerAt, hat, State.move, hmove, joined, Option.map_some]
  exact (hm.before h2).before h1

/-- the line ERROR is always recognised -/
theorem parse_error (r : Option Bytes) (resp : Option Response) :
    parseResponse r (finalLine resp false) = .ok ∨ parseResponse r (finalLine resp false) = .err := by
  have herr : (str "ERROR").isPrefixOf (finalLine resp false) = true := rfl
  cases r with
  | none => right; rfl
  | some r =>
    by_cases hr : r.isPrefixOf (finalLine resp false) = true
    · left; simp [parseResponse, hr]
    · right; simp [parseResponse, hr, herr]

theorem joined_new {t : ℕ} {resp : Option Response} (hf : s.caller t = none) :
    (joined s t resp).caller t = some ⟨t, s.next, resp, .waiting⟩ :=
  have hfind : lookup Caller.tid s.callers t = none := hf
  lookup_last (c := (⟨t, s.next, resp, .waiting⟩ : Caller)) hfind

theorem joined_old {t : ℕ} {resp : Option Response} {c : Caller} (hc : s.callers = [c]) :
    (joined s t resp).caller c.tid = some c := by simp [State.caller, lookup, joined, hc]

/-- the device answers ERROR to the only command, and its caller takes that for the expected response -/
theorem mixed_alone {t : ℕ} {resp : Option Response} (hf : s.caller t = none) (hdev : s.device = [])
    (hl : s.lines = []) (hd : ¬ Distinct resp) : Mixed (joined s t resp) := by
  have hok : parseResponse (respText resp) (finalLine resp false) = .ok :=
    (parse_error (respText resp) resp).resolve_right hd
  have hans : step (joined s t resp) (.answer false) =
      some { joined s t resp with device := [], lines := [(s.next, resp, false)] } := by
    simp [step, joined, hdev, hl]
  refine Mixed.before hans (mixed_parse rfl rfl hok (by decide) (joined_new hf) rfl ?_)
  intro b hb
  rw [Function.update_self] at hb
  cases hb
  simp

/-- the first caller's final line is still to come, and wakes the second caller; or the second one's `response` does not
recognise it, and the second caller's ERROR answers one of the two -/
theorem mixed_waiting {t : ℕ} {resp : Option Response} {c : Caller} (hf : s.caller t = none) (hc : s.callers = [c])
    (hph : c.phase = .waiting) (hlt : c.cmd < s.next) (hfresh : s.parsed s.next = none) (hp : Pending s c) :
    Mixed (joined s t resp) := by
  have hne : s.next ≠ c.cmd := by omega
  -- a recognised line of the first command wakes the second caller
  have htaken : ∀ ok d, parseResponse (respText resp) (finalLine c.resp ok) ≠ .inval →
      Mixed { joined s t resp with device := d, lines := [(c.cmd, c.resp, ok)] } := by
    intro ok d hrec
    refine mixed_parse rfl rfl rfl hrec (joined_new hf) rfl ?_
    intro b hb
    rw [Function.update_of_ne hne] at hb
    rw [show (joined s t resp).parsed s.next = none from hfresh] at hb
    cases hb
  obtain ⟨hpc, ⟨hdev, hl⟩ | ⟨ok, hdev, hl⟩⟩ := hp
  · have hans : step (joined s t resp) (.answer false) =
        some { joined s t resp with device := [(s.next, resp)], lines := [(c.cmd, c.resp, false)] } := by
      simp [step, joined, hdev, hl]
    refine Mixed.before hans (htaken false _ ?_)
    rcases parse_error (respText resp) c.resp with h | h <;> rw [h] <;> decide
  · by_cases hrec : parseResponse (respText resp) (finalLine c.resp ok) = .inval
    · -- the line is lost; the ERROR for the second command is taken for both answers
      have hpass : step (joined s t resp) (.parse none) = some { joined s t resp with
          lines := [], parsed := Function.update s.parsed c.cmd (some ok) } := by
        simp [step, joined, hl, hrec]
      have hans : step { joined s t resp with lines := [], parsed := Function.update s.parsed c.cmd (some ok) }
          (.answer false) = some { joined s t resp with
            device := [], lines := [(s.next, resp, false)], parsed := Function.update s.parsed c.cmd (some ok) } := by
        simp [step, joined, hdev]
      have hok : ok = true := by
        by_contra h
        rw [Bool.not_eq_true] at h
        rw [h] at hrec
        rcases parse_error (respText resp) c.resp with h | h <;> rw [h] at hrec <;> cases hrec
      refine Mixed.before hpass (Mixed.before hans ?_)
      rcases parse_error (respText resp) resp with h | h
      · refine mixed_parse (t := t) rfl rfl h (by decide) (joined_new hf) rfl ?_
        intro b hb
        rw [Function.update_self] at hb
        cases hb
        simp
      · refine mixed_parse (t := c.tid) rfl rfl h (by decide) (joined_old hc) hph ?_
        intro b hb
        rw [Function.update_of_ne hne.symm] at hb
        have hb' : Function.update s.parsed c.cmd (some ok) c.cmd = some b := hb
        rw [Function.update_self] at hb'
        cases hb'
        simp [hok]
    · have hsame : joined s t resp = { joined s t resp with
          device := (joined s t resp).device, lines := [(c.cmd, c.resp, ok)] } := by
        simp [joined, hl]
      rw [hsame]
      exact htaken ok _ hrec

/-- the first caller's answer is overwritten before it has read it -/
theorem mixed_woken {t : ℕ} {resp : Option Response} {c : Caller} {ok : Bool} (hf : s.caller t = none)
    (hc : s.callers = [c]) (hph : c.phase = .woken) (hlt : c.cmd < s.next) (hdev : s.device = []) (hl : s.lines = [])
    (hp : s.parsed c.cmd = some ok) : Mixed (joined s t resp) := by
  obtain ⟨tid, n, cresp, ph⟩ := c
  cases hph
  cases ok with
  | true =>
    refine mixed_wake rfl (joined_old hc) rfl ?_
    intro b hb
    rw [show (joined s t resp).parsed n = some true from hp] at hb
    cases hb
    simp [joined]
  | false =>
    have hans : step (joined s t resp) (.answer true) =
        some { joined s t resp with device := [], lines := [(s.next, resp, true)] } := by
      simp [step, joined, hdev, hl]
    refine Mixed.before hans (Mixed.before (step_parse rfl rfl (parse_expected resp) (by decide) (joined_new hf) rfl) ?_)
    have htid : tid ≠ t := by
      intro h
      rw [caller_single hc, if_pos h] at hf
      cases hf
    refine mixed_wake (t := tid) (d := ⟨tid, n, cresp, .woken⟩) rfl ?_ rfl ?_
    · simp [State.caller, State.move, lookup, edit, joined, hc, htid]
    · intro b hb
      have hne : n ≠ s.next := by have : n < s.next := hlt; omega
      have hb' : Function.update s.parsed s.next (some true) n = some b := hb
      rw [Function.update_of_ne hne, hp] at hb'
      cases hb'
      simp [State.move]

end Mixed

/-- a step against the condition can be continued to a mix-up -/
theorem mixed_of_not_alone (s : State) (a : Act) (s' : State) (hi : Inv s) (h : step s a = some s') (hn : ¬ Alone s a) :
    Mixed s' := by
  obtain ⟨_, hfresh, hturn⟩ := hi
  cases a with
  | write t => exact absurd trivial hn
  | wait t => exact absurd trivial hn
  | answer ok => exact absurd trivial hn
  | parse w => exact absurd trivial hn
  | wake t => exact absurd trivial hn
  | spurious t =>
    obtain ⟨d, hcall, hph, rfl⟩ := map_standing h
    rcases hturn with ⟨hc, _⟩ | ⟨c, hcs, _, _, _, hT⟩
    · exact absurd ((caller_none hc t).symm.trans hcall) (by simp)
    obtain ⟨rfl, rfl⟩ := caller_eq hcs hcall
    simp only [Turn, hph] at hT
    refine mixed_wake hT.1 (caller_move hcall .woken) rfl ?_
    intro b hb
    rw [show (s.move d.tid .woken).parsed d.cmd = none from hT.2.1] at hb
    cases hb
  | start t resp =>
    apply mixed_start h
    simp only [step] at h
    split_ifs at h with hfree
    rcases hturn with ⟨hc, _, hdev, hl⟩ | ⟨c, hcs, hlt, _, _, hT⟩
    · exact mixed_alone hfree.2 hdev hl (fun hd => hn ⟨hc, hd⟩)
    · unfold Turn at hT
      cases hph : c.phase with
      | writing => simp only [hph] at hT; rw [hT.1] at hfree; cases hfree.1
      | written => simp only [hph] at hT; rw [hT.1] at hfree; cases hfree.1
      | waiting =>
        simp only [hph] at hT
        exact mixed_waiting hfree.2 hcs hph hlt (hfresh _ (le_refl _)) hT.2
      | woken =>
        simp only [hph] at hT
        obtain ⟨_, hdev, hl, ok, hp, _⟩ := hT
        exact mixed_woken hfree.2 hcs hph hlt hdev hl hp

/-! ## When the answers match -/

/-- **Command/response matching.** Calls return after their own final line, and 0 just for the expected one, as long as
commands do not overlap, ERROR does not start with an expected response, and no wait ends early; each step without this
can lead to a call that does not. -/
theorem command_matching {acts : List Act} {s : State} (hg : Guarded step Alone boot acts)
    (hr : run step boot acts = some s) : Exact step Alone Matched s :=
  exact_run step_inv (fun _ hi => hi.matched) mixed_of_not_alone boot_inv hg hr

/-- two threads take turns; the second command is refused -/
def turns : List Act :=
  [.start 1 none, .write 1, .answer true, .wait 1, .parse (some 1), .wake 1,
    .start 2 none, .write 2, .wait 2, .answer false, .parse (some 2), .wake 2]

theorem command_matching_sample : ∃ s, run step boot turns = some s ∧ s.returns.map Return.value = [0, -1] ∧
    Exact step Alone Matched s := by
  have hr : (run step boot turns).map (fun s => s.returns.map Return.value) = some [0, -1] := by decide +kernel
  obtain ⟨s, hs, hv⟩ := Option.map_eq_some_iff.1 hr
  exact ⟨s, hs, hv, command_matching (by decide +kernel) hs⟩

/-- two threads wait; the OK for the first one wakes the second one -/
def mixup : List Act :=
  [.start 1 none, .write 1, .wait 1, .start 2 none, .write 2, .wait 2, .answer true, .parse (some 2), .wake 2]

/-- the second call returns 0 before the device has answered its command -/
theorem command_matching_fails : ∃ s, run step boot mixup = some s ∧ s.device = [(1, none)] ∧ ¬ Matched s := by
  have hr : (run step boot mixup).map (fun s => (s.returns, s.device)) = some ([⟨1, 0, none⟩], [(1, none)]) := by
    decide +kernel
  obtain ⟨s, hs, hv⟩ := Option.map_eq_some_iff.1 hr
  obtain ⟨hret, hdev⟩ := Prod.mk.inj hv
  refine ⟨s, hs, hdev, fun hm => ?_⟩
  obtain ⟨ok, hseen, _⟩ := hm ⟨1, 0, none⟩ (by rw [hret]; exact List.mem_singleton.2 rfl)
  cases hseen

end EspHostdriver.CommandMatching
