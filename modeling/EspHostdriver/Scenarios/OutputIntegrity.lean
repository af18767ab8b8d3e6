/-
What reaches the device when several threads and the reader write to it.

A command is many small writes under the mutex. Two things are not under it: `send` gives the mutex back between the
announcement and the payload it announces, and the reader writes `AT+CIPSTATUS` without asking for it.

- `Op` is a call of `connect`, `listen`, `close` or `send` that has chosen its command; `Op.line` and `Op.payload` are its
  writes.
- A unit is what one call or one query writes: a command line with its newline, and behind an announcement the payload.
  A refused announcement is a unit without payload.
- `Whole`: the writes so far are whole units, one behind the other, and then the beginning of one more.
- `output_integrity`: the writes stay whole as long as the reader asks, and a call starts, only when no unit has been
  written in part (an announcement that waits for its answer or its payload is such a part). Any other step leads to a
  broken unit.
- `output_integrity_fails`: a query inside a command, and a command between an announcement and its payload.
-/
import EspHostdriver.Core.Roster
import EspHostdriver.Esp01.Driver

namespace EspHostdriver.OutputIntegrity

open Machine Roster

/-! ## Model -/

/-- a call that has looked up its link and is about to write; an empty send returns before that -/
inductive Op where
  | connect (l : Fin 5) (type : SockType) (addr : SockAddrInet)
  | listen (port : UInt16)
  | unlisten
  | close (l : Fin 5)
  | send (k : Socket) (l : Fin 5) (mem : Bytes) (len : ℕ) (pos : len ≠ 0)

/-- the format and the arguments its command is rendered from -/
def Op.command : Op → Bytes × List Arg
  | .connect l type addr => (str "AT+CIPSTART=%d,\"%s\",\"%a\",%d",
      [.word l, .ptr (str (if type = .dgram then "UDP" else "TCP")), .ptr (remoteAddr addr), .word addr.data.port.toNat])
  | .listen port => (str "AT+CIPSERVER=1,%d", [.word port.toNat])
  | .unlisten => (str "AT+CIPSERVER=0", [])
  | .close l => (str "AT+CIPCLOSE=%d", [.word l])
  | .send k l _ len _ => cipsend k l len

/-- the writes of the command line: those of `send_cmd` and the newline of `serial_cmd_wait` -/
def Op.line (op : Op) : List Bytes :=
  match render op.command.1 op.command.2 with
  | .ok ws => ws ++ [[10]]
  | .error _ => [[10]]

/-- the writes of the payload -/
def Op.payload : Op → Option (List Bytes)
  | .send _ _ mem _ _ => some (serialCmdSend (some mem) ++ [[10]])
  | _ => none

/-- a call holds the mutex and writes up to `goal`, waits for an answer, or (`send`) is about to take the mutex again -/
inductive Phase where
  | writing (goal : ℕ)
  | waiting
  | between
deriving DecidableEq

/-- a call in progress, which has made `sent` of its writes; `unit` is its number -/
structure Caller where
  tid : ℕ
  unit : ℕ
  line : List Bytes
  payload : Option (List Bytes)
  sent : ℕ
  phase : Phase
deriving DecidableEq

/-- everything it is to write -/
def Caller.pieces (c : Caller) : List Bytes := c.line ++ c.payload.getD []

/-- `out` holds the writes, each with the number of its unit; `units` says what each unit consists of -/
structure State where
  mtx : Option ℕ
  callers : List Caller
  out : List (ℕ × Bytes)
  units : ℕ → List Bytes
  next : ℕ

inductive Act where
  | start (t : ℕ) (op : Op)
  | write (t : ℕ)
  | wait (t : ℕ)
  | wake (t : ℕ) (ok : Bool)
  | resume (t : ℕ)
  | query

def boot : State := ⟨none, [], [], fun _ => [], 0⟩

def queryText : Bytes := str "AT+CIPSTATUS\n"

def step (s : State) : Act → Option State
  | .start t op =>
    if s.mtx = none ∧ lookup Caller.tid s.callers t = none then
      let c : Caller := ⟨t, s.next, op.line, op.payload, 0, .writing op.line.length⟩
      some { s with
        mtx := some t, callers := s.callers ++ [c], units := Function.update s.units s.next c.pieces, next := s.next + 1 }
    else none
  | .write t =>
    match lookup Caller.tid s.callers t with
    | some c =>
      match c.phase, c.pieces[c.sent]? with
      | .writing goal, some b =>
        if c.sent < goal then some { s with
          callers := edit Caller.tid s.callers t fun c => { c with sent := c.sent + 1 }, out := s.out ++ [(c.unit, b)] }
        else none
      | _, _ => none
    | none => none
  | .wait t =>
    match lookup Caller.tid s.callers t with
    | some c =>
      match c.phase with
      | .writing goal =>
        if goal ≤ c.sent then some { s with
          mtx := none, callers := edit Caller.tid s.callers t fun c => { c with phase := .waiting } }
        else none
      | _ => none
    | none => none
  | .wake t ok =>
    match lookup Caller.tid s.callers t with
    | some c =>
      if s.mtx = none ∧ c.phase = .waiting then
        if c.sent < c.pieces.length then
          if ok then some { s with callers := edit Caller.tid s.callers t fun c => { c with phase := .between } }
          -- the announcement was refused: there is no payload
          else some { s with
            callers := drop Caller.tid s.callers t, units := Function.update s.units c.unit c.line }
        else some { s with callers := drop Caller.tid s.callers t }
      else none
    | none => none
  | .resume t =>
    match lookup Caller.tid s.callers t with
    | some c =>
      if s.mtx = none ∧ c.phase = .between then some { s with
        mtx := some t, callers := edit Caller.tid s.callers t fun c => { c with phase := .writing c.pieces.length } }
      else none
    | none => none
  -- the reader does not look at the mutex
  | .query => some { s with
      out := s.out ++ [(s.next, queryText)], units := Function.update s.units s.next [queryText], next := s.next + 1 }

def tag (u : ℕ) (ws : List Bytes) : List (ℕ × Bytes) := ws.map fun b => (u, b)

/-- whole units -/
def texts (s : State) (us : List ℕ) : List (ℕ × Bytes) := us.flatMap fun u => tag u (s.units u)

/-- whole units, each once, and then the beginning of one more -/
def Whole (s : State) : Prop :=
  ∃ us v k, us.Nodup ∧ v ∉ us ∧ s.out = texts s us ++ tag v ((s.units v).take k)

/-- its unit has been written in part -/
def Mid (c : Caller) : Prop := 0 < c.sent ∧ c.sent < c.pieces.length

instance decidableMid (c : Caller) : Decidable (Mid c) := inferInstanceAs (Decidable (_ ∧ _))

/-- no unit has been written in part when the reader asks or a call starts -/
def Clear (s : State) : Act → Prop
  | .start _ _ => ∀ c ∈ s.callers, ¬ Mid c
  | .query => ∀ c ∈ s.callers, ¬ Mid c
  | _ => True

instance decidableClear (s : State) : ∀ a, Decidable (Clear s a)
  | .start _ _ => inferInstanceAs (Decidable (∀ c ∈ s.callers, ¬ Mid c))
  | .query => inferInstanceAs (Decidable (∀ c ∈ s.callers, ¬ Mid c))
  | .write _ => inferInstanceAs (Decidable True)
  | .wait _ => inferInstanceAs (Decidable True)
  | .wake _ _ => inferInstanceAs (Decidable True)
  | .resume _ => inferInstanceAs (Decidable True)

/-! ## The driver writes these units -/

theorem line_ok (op : Op) : ∃ ws, render op.command.1 op.command.2 = .ok ws ∧ op.line = ws ++ [[10]] := by
  have hok : ∃ ws, render op.command.1 op.command.2 = .ok ws := by
    cases op with
    | connect l type addr => exact render_connect _ _ _ _
    | listen port => exact render_listen _
    | unlisten => exact render_unlisten
    | close l => exact render_close _
    | send k l mem len pos => exact render_cipsend k l len
  obtain ⟨ws, hws⟩ := hok
  exact ⟨ws, hws, by rw [Op.line, hws]⟩

/-- a command of the driver is the line of a unit -/
theorem sendCmd_line {itf itf' : Serial} {resp : Option Bytes} {r : ℤ} (op : Op)
    (h : sendCmd itf resp op.command.1 op.command.2 = .ok (r, itf')) : itf'.out = itf.out ++ op.line := by
  obtain ⟨ws, hws, hline⟩ := line_ok op
  obtain ⟨ws', hws', _, rfl⟩ := sendCmd_ok h
  rw [hws] at hws'
  cases hws'
  rw [hline, ← List.append_assoc]

theorem espConnect_writes {w w' : Host} {s : Addr} {r : ℤ} (h : espConnect w s = .ok (r, w')) :
    w'.itf.out = w.itf.out ∨ ∃ (l : Fin 5) (k : Socket), w'.itf.out = w.itf.out ++ (Op.connect l k.type k.addr).line := by
  obtain ⟨⟨s, k⟩, _, h⟩ := bind_ok.1 h
  obtain ⟨_, _, h⟩ := bind_ok.1 h
  cases hl : getLinkId w.esp none with
  | none =>
    simp only [hl] at h
    obtain ⟨_, rfl⟩ := ok_pair.1 h
    exact Or.inl rfl
  | some l =>
    simp only [hl] at h
    obtain ⟨⟨r', itf⟩, hcmd, h⟩ := bind_ok.1 h
    have hout := sendCmd_line (.connect l k.type k.addr) hcmd
    right
    split_ifs at h <;> obtain ⟨_, rfl⟩ := ok_pair.1 h <;> exact ⟨l, k, hout⟩

theorem espListen_writes {w w' : Host} {s : Addr} {backlog r : ℤ} (h : espListen w s backlog = .ok (r, w')) :
    w'.itf.out = w.itf.out ∨ ∃ port, w'.itf.out = w.itf.out ++ (Op.listen port).line := by
  obtain ⟨⟨s, k⟩, _, h⟩ := bind_ok.1 h
  obtain ⟨_, _, h⟩ := bind_ok.1 h
  dsimp only at h
  split_ifs at h with hb ht
  · obtain ⟨_, rfl⟩ := ok_pair.1 h; exact Or.inl rfl
  · obtain ⟨_, rfl⟩ := ok_pair.1 h; exact Or.inl rfl
  · obtain ⟨⟨r', itf⟩, hcmd, h⟩ := bind_ok.1 h
    have hout := sendCmd_line (.listen k.addr.data.port) hcmd
    right
    split_ifs at h <;> obtain ⟨_, rfl⟩ := ok_pair.1 h <;> exact ⟨_, hout⟩

theorem espClose_writes {w w' : Host} {s : Addr} {r : ℤ} (h : espClose w s = .ok (r, w')) :
    w'.itf.out = w.itf.out ∨ w'.itf.out = w.itf.out ++ Op.unlisten.line ∨
      ∃ l, w'.itf.out = w.itf.out ++ (Op.close l).line := by
  obtain ⟨⟨s, k⟩, _, h⟩ := bind_ok.1 h
  obtain ⟨_, _, h⟩ := bind_ok.1 h
  dsimp only at h
  split_ifs at h with ht
  · obtain ⟨⟨r', itf⟩, hcmd, h⟩ := bind_ok.1 h
    have hout := sendCmd_line .unlisten hcmd
    right; left
    split_ifs at h <;> obtain ⟨_, rfl⟩ := ok_pair.1 h <;> exact hout
  · cases hl : getLinkId w.esp (some s) with
    | none =>
      simp only [hl] at h
      obtain ⟨_, rfl⟩ := ok_pair.1 h
      exact Or.inl rfl
    | some l =>
      simp only [hl] at h
      obtain ⟨⟨r', itf⟩, hcmd, h⟩ := bind_ok.1 h
      have hout := sendCmd_line (.close l) hcmd
      right; right
      split_ifs at h <;> obtain ⟨_, rfl⟩ := ok_pair.1 h <;> exact ⟨l, hout⟩

/-- a send that is refused writes its line, and one that is not writes its payload behind it -/
theorem espSend_writes {w w' : Host} {s : Addr} {mem : Bytes} {len : ℕ} {r : ℤ}
    (h : espSend w s mem len = .ok (r, w')) :
    w'.itf.out = w.itf.out ∨ ∃ k l pos, w'.itf.out = w.itf.out ++ (Op.send k l mem len pos).line ∨
      w'.itf.out = w.itf.out ++ (Op.send k l mem len pos).line ++ ((Op.send k l mem len pos).payload.getD []) := by
  unfold espSend at h
  split_ifs at h with h0
  · obtain ⟨_, rfl⟩ := ok_pair.1 h; exact Or.inl rfl
  obtain ⟨⟨s, k⟩, _, h⟩ := bind_ok.1 h
  obtain ⟨_, _, h⟩ := bind_ok.1 h
  cases hl : getLinkId w.esp (some s) with
  | none =>
    simp only [hl] at h
    obtain ⟨_, rfl⟩ := ok_pair.1 h
    exact Or.inl rfl
  | some l =>
    simp only [hl] at h
    obtain ⟨⟨r', itf⟩, hcmd, h⟩ := bind_ok.1 h
    have hout := sendCmd_line (.send k l mem len h0) hcmd
    right
    refine ⟨k, l, h0, ?_⟩
    dsimp only at h
    by_cases hr : r' ≠ 0
    · rw [if_pos hr] at h
      obtain ⟨_, rfl⟩ := ok_pair.1 h
      exact Or.inl hout
    · rw [if_neg hr] at h
      obtain ⟨_, rfl⟩ := ok_pair.1 h
      right
      rw [← hout]
      simp [serialCmdWait, serialCmdStart, Op.payload]

/-! ## Calls and their progress -/

theorem line_pos (op : Op) : 0 < op.line.length := by
  unfold Op.line
  split <;> simp

theorem payload_pos {op : Op} {ws : List Bytes} (h : op.payload = some ws) : 0 < ws.length := by
  cases op <;> simp [Op.payload] at h
  subst h
  simp

/-- how far a call can be in each phase -/
structure Shape (c : Caller) : Prop where
  line : 0 < c.line.length
  payload : ∀ ws, c.payload = some ws → 0 < ws.length
  progress :
    match c.phase with
    | .writing goal =>
      (goal = c.line.length ∧ c.sent ≤ goal) ∨ (goal = c.pieces.length ∧ c.line.length ≤ c.sent ∧ c.sent ≤ goal)
    | .waiting => c.sent = c.line.length ∨ c.sent = c.pieces.length
    | .between => c.sent = c.line.length ∧ c.sent < c.pieces.length

theorem Caller.line_le (c : Caller) : c.line.length ≤ c.pieces.length := by simp [Caller.pieces]

/-- a call that has written nothing holds the mutex -/
theorem Shape.writing_of_zero {c : Caller} (h : Shape c) (h0 : c.sent = 0) : ∃ goal, c.phase = .writing goal := by
  have hpos := h.line
  have hle := c.line_le
  have hp := h.progress
  cases hph : c.phase with
  | writing goal => exact ⟨goal, rfl⟩
  | waiting => simp only [hph] at hp; omega
  | between => simp only [hph] at hp; omega

/-! ## The writes so far -/

theorem tag_append (u : ℕ) (as bs : List Bytes) : tag u (as ++ bs) = tag u as ++ tag u bs := List.map_append

theorem texts_concat (s : State) (us : List ℕ) (u : ℕ) : texts s (us ++ [u]) = texts s us ++ tag u (s.units u) := by
  simp [texts]

/-- units that keep their text keep their writes -/
theorem texts_congr {s s' : State} {us : List ℕ} (h : ∀ u ∈ us, s'.units u = s.units u) : texts s' us = texts s us := by
  unfold texts
  induction us with
  | nil => rfl
  | cons u us ih =>
    rw [List.flatMap_cons, List.flatMap_cons, h u (by simp), ih fun v hv => h v (by simp [hv])]

/-- the writes are the units `us`, and then what the call that is in the middle of its unit has written -/
def Text (s : State) (us : List ℕ) : Prop :=
  ((∀ c ∈ s.callers, ¬ Mid c) ∧ s.out = texts s us) ∨
  ∃ c ∈ s.callers, Mid c ∧ (∀ d ∈ s.callers, Mid d → d = c) ∧ s.out = texts s us ++ tag c.unit (c.pieces.take c.sent)

structure Inv (s : State) : Prop where
  keyed : Keyed Caller.tid s.callers
  numbered : Keyed Caller.unit s.callers
  units : ∀ c ∈ s.callers, c.unit < s.next ∧ s.units c.unit = c.pieces
  shape : ∀ c ∈ s.callers, Shape c
  lock : ∀ c ∈ s.callers, ∀ goal, c.phase = .writing goal → s.mtx = some c.tid
  fresh : ∀ c ∈ s.callers, c.sent = 0 → ∀ d ∈ s.callers, ¬ Mid d
  text : ∃ us, us.Nodup ∧ (∀ u ∈ us, u < s.next) ∧ (∀ c ∈ s.callers, c.unit ∈ us ↔ c.sent = c.pieces.length) ∧ Text s us

theorem boot_inv : Inv boot where
  keyed := List.nodup_nil
  numbered := List.nodup_nil
  units _ h := (List.not_mem_nil h).elim
  shape _ h := (List.not_mem_nil h).elim
  lock _ h := (List.not_mem_nil h).elim
  fresh _ h := (List.not_mem_nil h).elim
  text := ⟨[], List.nodup_nil, by simp, fun _ h => (List.not_mem_nil h).elim, Or.inl ⟨by simp [boot], rfl⟩⟩

theorem Inv.whole {s : State} (hi : Inv s) : Whole s := by
  obtain ⟨us, hnd, hlt, hdone, ⟨_, hout⟩ | ⟨c, hc, hmid, _, hout⟩⟩ := hi.text
  · exact ⟨us, s.next, 0, hnd, fun h => lt_irrefl _ (hlt _ h), by simpa [tag] using hout⟩
  · refine ⟨us, c.unit, c.sent, hnd, fun h => ?_, by rw [hout, (hi.units c hc).2]⟩
    exact hmid.2.ne ((hdone c hc).1 h)

/-! ## What each step keeps -/

section Steps

variable {s s' : State} {t : ℕ} {c : Caller}

/-- a call that moves on without writing -/
theorem phase_inv (hi : Inv s) (hl : lookup Caller.tid s.callers t = some c) {m : Option ℕ} {q : Caller → Phase}
    (hshape : Shape { c with phase := q c }) (hown : ∀ goal, q c = .writing goal → m = some t)
    (hothers : ∀ d ∈ s.callers, d.tid ≠ t → ∀ goal, d.phase = .writing goal → m = some d.tid) :
    Inv { s with mtx := m, callers := edit Caller.tid s.callers t fun c => { c with phase := q c } } := by
  obtain ⟨hc, ht⟩ := lookup_some hl
  have hmem : ∀ d, d ∈ edit Caller.tid s.callers t (fun c => { c with phase := q c }) ↔
      d = { c with phase := q c } ∨ (d ∈ s.callers ∧ d.tid ≠ t) := fun d => mem_edit hi.keyed hl
  -- every call is one of the old ones, but for its phase
  have hold : ∀ d ∈ edit Caller.tid s.callers t (fun c => { c with phase := q c }),
      ∃ e ∈ s.callers, d.unit = e.unit ∧ d.sent = e.sent ∧ d.pieces = e.pieces := by
    intro d hd
    rcases (hmem d).1 hd with rfl | ⟨hd, _⟩
    · exact ⟨c, hc, rfl, rfl, rfl⟩
    · exact ⟨d, hd, rfl, rfl, rfl⟩
  have hnew : ∀ e ∈ s.callers, ∃ d ∈ edit Caller.tid s.callers t (fun c => { c with phase := q c }),
      d.unit = e.unit ∧ d.sent = e.sent ∧ d.pieces = e.pieces := by
    intro e he
    by_cases het : e.tid = t
    · rw [hi.keyed.unique he hc (het.trans ht.symm)]
      exact ⟨_, (hmem _).2 (Or.inl rfl), rfl, rfl, rfl⟩
    · exact ⟨e, (hmem e).2 (Or.inr ⟨he, het⟩), rfl, rfl, rfl⟩
  have hmid : ∀ d e : Caller, d.sent = e.sent → d.pieces = e.pieces → (Mid d ↔ Mid e) := by
    intro d e h1 h2
    rw [Mid, Mid, h1, h2]
  have hnum : Keyed Caller.unit (edit Caller.tid s.callers t fun c => { c with phase := q c }) :=
    hi.numbered.edit fun _ => rfl
  refine ⟨hi.keyed.edit fun _ => rfl, hnum, ?_, ?_, ?_, ?_, ?_⟩
  · intro d hd
    obtain ⟨e, he, hu, _, hp⟩ := hold d hd
    rw [hu, hp]
    exact hi.units e he
  · intro d hd
    rcases (hmem d).1 hd with rfl | ⟨hd, _⟩
    · exact hshape
    · exact hi.shape d hd
  · intro d hd goal hph
    rcases (hmem d).1 hd with rfl | ⟨hd, hdt⟩
    · rw [show ({ c with phase := q c } : Caller).tid = t from ht]
      exact hown goal hph
    · exact hothers d hd hdt goal hph
  · intro d hd h0 d' hd'
    obtain ⟨e, he, _, hs, _⟩ := hold d hd
    obtain ⟨e', he', _, hs', hp'⟩ := hold d' hd'
    rw [hmid d' e' hs' hp']
    exact hi.fresh e he (hs ▸ h0) e' he'
  · obtain ⟨us, hnd, hlt, hdone, htext⟩ := hi.text
    refine ⟨us, hnd, hlt, ?_, ?_⟩
    · intro d hd
      obtain ⟨e, he, hu, hs, hp⟩ := hold d hd
      rw [hu, hs, hp]
      exact hdone e he
    · rcases htext with ⟨hquiet, hout⟩ | ⟨e, he, hmide, huniq, hout⟩
      · refine Or.inl ⟨fun d hd => ?_, hout⟩
        obtain ⟨e, he, _, hs, hp⟩ := hold d hd
        rw [hmid d e hs hp]
        exact hquiet e he
      · obtain ⟨d, hd, hu, hs, hp⟩ := hnew e he
        refine Or.inr ⟨d, hd, (hmid d e hs hp).2 hmide, fun d' hd' hmid' => ?_, by rw [hu, hs, hp]; exact hout⟩
        obtain ⟨e', he', hu', hs', hp'⟩ := hold d' hd'
        have heq : e' = e := huniq e' he' ((hmid d' e' hs' hp').1 hmid')
        exact hnum.unique hd' hd (by rw [hu', hu, heq])

theorem start_inv (hi : Inv s) {op : Op} (hclear : ∀ c ∈ s.callers, ¬ Mid c) (h : step s (.start t op) = some s') :
    Inv s' := by
  simp only [step] at h
  split_ifs at h with hfree
  cases h
  set c : Caller := ⟨t, s.next, op.line, op.payload, 0, .writing op.line.length⟩ with hcdef
  have hmem : ∀ d, d ∈ s.callers ++ [c] ↔ d ∈ s.callers ∨ d = c := by simp
  have hnomid : ∀ d ∈ s.callers ++ [c], ¬ Mid d := by
    intro d hd
    rcases (hmem d).1 hd with hd | rfl
    · exact hclear d hd
    · exact fun h => lt_irrefl _ h.1
  have hunit : ∀ d ∈ s.callers, d.unit ≠ s.next := fun d hd => (hi.units d hd).1.ne
  refine ⟨hi.keyed.add hfree.2, hi.numbered.add (lookup_none.2 hunit), ?_, ?_, ?_, fun _ _ _ => hnomid, ?_⟩
  · intro d hd
    rcases (hmem d).1 hd with hd | rfl
    · exact ⟨Nat.lt_succ_of_lt (hi.units d hd).1, (Function.update_of_ne (hunit d hd) _ _).trans (hi.units d hd).2⟩
    · exact ⟨Nat.lt_succ_self _, Function.update_self _ _ _⟩
  · intro d hd
    rcases (hmem d).1 hd with hd | rfl
    · exact hi.shape d hd
    · exact ⟨line_pos op, fun ws => payload_pos, Or.inl ⟨rfl, Nat.zero_le _⟩⟩
  · intro d hd goal hph
    rcases (hmem d).1 hd with hd | rfl
    · have hm := hi.lock d hd goal hph
      rw [hfree.1] at hm
      cases hm
    · rfl
  · obtain ⟨us, hnd, hlt, hdone, htext⟩ := hi.text
    have hfresh : ∀ u ∈ us, u ≠ s.next := fun u hu => (hlt u hu).ne
    refine ⟨us, hnd, fun u hu => Nat.lt_succ_of_lt (hlt u hu), ?_, Or.inl ⟨hnomid, ?_⟩⟩
    · intro d hd
      rcases (hmem d).1 hd with hd | rfl
      · exact hdone d hd
      · have hpos := line_pos op
        have hle := c.line_le
        constructor
        · exact fun hu => absurd rfl (hfresh _ hu)
        · intro h0
          have : c.line.length = op.line.length := rfl
          have : c.sent = 0 := rfl
          omega
    · rw [texts_congr (s := s) fun u hu => Function.update_of_ne (hfresh u hu) _ _]
      rcases htext with ⟨_, hout⟩ | ⟨e, he, hmid, _⟩
      · exact hout
      · exact absurd hmid (hclear e he)

/-- a call with something left to write: nothing behind its own writes, and no other call is in the middle -/
theorem Inv.writing (hi : Inv s) (hc : c ∈ s.callers) (hlt : c.sent < c.pieces.length) (hw : c.sent = 0 ∨ Mid c) :
    ∃ us, us.Nodup ∧ (∀ u ∈ us, u < s.next) ∧ (∀ d ∈ s.callers, d.unit ∈ us ↔ d.sent = d.pieces.length) ∧
      c.unit ∉ us ∧ s.out = texts s us ++ tag c.unit (c.pieces.take c.sent) ∧ ∀ d ∈ s.callers, Mid d → d = c := by
  obtain ⟨us, hnd, hbound, hdone, htext⟩ := hi.text
  have hnot : c.unit ∉ us := fun h => hlt.ne ((hdone c hc).1 h)
  refine ⟨us, hnd, hbound, hdone, hnot, ?_⟩
  rcases hw with h0 | hmid
  · have hno := hi.fresh c hc h0
    rcases htext with ⟨_, hout⟩ | ⟨e, he, hmide, _⟩
    · exact ⟨by rw [hout, h0]; simp [tag], fun d hd hm => absurd hm (hno d hd)⟩
    · exact absurd hmide (hno e he)
  · rcases htext with ⟨hquiet, _⟩ | ⟨e, he, hmide, huniq, hout⟩
    · exact absurd hmid (hquiet c hc)
    · rw [huniq c hc hmid]
      exact ⟨hout, huniq⟩

/-- a call has made one more write -/
def Caller.wrote (c : Caller) : Caller := { c with sent := c.sent + 1 }

theorem mem_wrote (hi : Inv s) (hl : lookup Caller.tid s.callers t = some c) (d : Caller) :
    d ∈ edit Caller.tid s.callers t Caller.wrote ↔ d = c.wrote ∨ (d ∈ s.callers ∧ d.tid ≠ t) := mem_edit hi.keyed hl

/-- the write ends the unit, or is one more of its beginning -/
theorem write_text (hi : Inv s) (hl : lookup Caller.tid s.callers t = some c) {b : Bytes}
    (hb : c.pieces[c.sent]? = some b) :
    ∃ us, us.Nodup ∧ (∀ u ∈ us, u < s.next) ∧
      (∀ d ∈ edit Caller.tid s.callers t Caller.wrote, d.unit ∈ us ↔ d.sent = d.pieces.length) ∧
      Text { s with callers := edit Caller.tid s.callers t Caller.wrote, out := s.out ++ [(c.unit, b)] } us := by
  obtain ⟨hc, ht⟩ := lookup_some hl
  obtain ⟨hlt, _⟩ := List.getElem?_eq_some_iff.1 hb
  have hother : ∀ d ∈ s.callers, d.tid ≠ t → d.unit ≠ c.unit := by
    intro d hd hdt hu
    exact hdt ((hi.numbered.unique hd hc hu) ▸ ht)
  obtain ⟨us, hnd, hbound, hdone, hnot, hout, huniq⟩ := hi.writing hc hlt (by unfold Mid; omega)
  have hnomid : ∀ d ∈ s.callers, d.tid ≠ t → ¬ Mid d := fun d hd hdt hm => hdt ((huniq d hd hm) ▸ ht)
  have hout' : s.out ++ [(c.unit, b)] = texts s us ++ tag c.unit (c.pieces.take (c.sent + 1)) := by
    calc s.out ++ [(c.unit, b)] = texts s us ++ (tag c.unit (c.pieces.take c.sent) ++ tag c.unit [b]) := by
          rw [hout, List.append_assoc]
          rfl
      _ = texts s us ++ tag c.unit (c.pieces.take (c.sent + 1)) := by
          rw [← tag_append, List.take_add_one, hb]
          rfl
  by_cases hfull : c.sent + 1 = c.pieces.length
  · refine ⟨us ++ [c.unit], hnd.append (List.nodup_singleton _) (by simpa using hnot), ?_, ?_, Or.inl ⟨?_, ?_⟩⟩
    · intro u hu
      rcases List.mem_append.1 hu with hu | hu
      · exact hbound u hu
      · rw [List.mem_singleton.1 hu]; exact (hi.units c hc).1
    · intro d hd
      rw [List.mem_append, List.mem_singleton]
      rcases (mem_wrote hi hl d).1 hd with rfl | ⟨hd, hdt⟩
      · exact ⟨fun _ => hfull, fun _ => Or.inr rfl⟩
      · rw [← hdone d hd]
        exact ⟨fun hu => hu.resolve_right (hother d hd hdt), Or.inl⟩
    · intro d hd
      rcases (mem_wrote hi hl d).1 hd with rfl | ⟨hd, hdt⟩
      · exact fun hm => absurd hfull hm.2.ne
      · exact hnomid d hd hdt
    · calc s.out ++ [(c.unit, b)] = texts s us ++ tag c.unit c.pieces := by rw [hout', hfull, List.take_length]
        _ = texts s (us ++ [c.unit]) := by rw [texts_concat, (hi.units c hc).2]
  · refine ⟨us, hnd, hbound, ?_, Or.inr ⟨c.wrote, (mem_wrote hi hl _).2 (Or.inl rfl), ⟨Nat.succ_pos _, ?_⟩, ?_, hout'⟩⟩
    · intro d hd
      rcases (mem_wrote hi hl d).1 hd with rfl | ⟨hd, _⟩
      · exact ⟨fun hu => absurd hu hnot, fun he => absurd he hfull⟩
      · exact hdone d hd
    · show c.sent + 1 < c.pieces.length
      omega
    · intro d hd hm
      rcases (mem_wrote hi hl d).1 hd with rfl | ⟨hd, hdt⟩
      · rfl
      · exact absurd hm (hnomid d hd hdt)

theorem Shape.wrote (h : Shape c) {goal : ℕ} (hph : c.phase = .writing goal) (hgoal : c.sent < goal) : Shape c.wrote := by
  obtain ⟨hline, hpay, hprog⟩ := h
  refine ⟨hline, hpay, ?_⟩
  rw [hph] at hprog
  have hprog' : (goal = c.line.length ∧ c.sent + 1 ≤ goal) ∨
      (goal = c.pieces.length ∧ c.line.length ≤ c.sent + 1 ∧ c.sent + 1 ≤ goal) := by
    simp only at hprog
    omega
  simpa only [Caller.wrote, hph, Caller.pieces] using hprog'

theorem write_inv (hi : Inv s) (h : step s (.write t) = some s') : Inv s' := by
  simp only [step] at h
  split at h
  case h_2 => cases h
  rename_i c hl
  split at h
  case h_2 => cases h
  rename_i goal b hph hb
  split_ifs at h with hgoal
  cases h
  obtain ⟨hc, ht⟩ := lookup_some hl
  have hmtx : s.mtx = some t := ht ▸ hi.lock c hc goal hph
  refine ⟨hi.keyed.edit fun _ => rfl, hi.numbered.edit fun _ => rfl, ?_, ?_, ?_, ?_, write_text hi hl hb⟩
  · intro d hd
    rcases (mem_wrote hi hl d).1 hd with rfl | ⟨hd, _⟩
    · exact hi.units c hc
    · exact hi.units d hd
  · intro d hd
    rcases (mem_wrote hi hl d).1 hd with rfl | ⟨hd, _⟩
    · exact (hi.shape c hc).wrote hph hgoal
    · exact hi.shape d hd
  · intro d hd g hg
    rcases (mem_wrote hi hl d).1 hd with rfl | ⟨hd, _⟩
    · exact hi.lock c hc g hg
    · exact hi.lock d hd g hg
  · -- a call that has written nothing would hold the mutex as well
    intro d hd h0
    rcases (mem_wrote hi hl d).1 hd with rfl | ⟨hd, hdt⟩
    · cases h0
    · obtain ⟨g, hg⟩ := (hi.shape d hd).writing_of_zero h0
      have hm := hi.lock d hd g hg
      rw [hmtx] at hm
      exact absurd (Option.some.inj hm).symm hdt

/-- a call that has ended its unit returns -/
theorem return_inv (hi : Inv s) (hl : lookup Caller.tid s.callers t = some c) (hend : ¬ c.sent < c.pieces.length) :
    Inv { s with callers := drop Caller.tid s.callers t } := by
  obtain ⟨hc, ht⟩ := lookup_some hl
  have hsub : ∀ d ∈ drop Caller.tid s.callers t, d ∈ s.callers := fun d hd => (mem_drop.1 hd).1
  obtain ⟨us, hnd, hbound, hdone, htext⟩ := hi.text
  refine ⟨hi.keyed.drop, hi.numbered.drop, fun d hd => hi.units d (hsub d hd), fun d hd => hi.shape d (hsub d hd),
    fun d hd => hi.lock d (hsub d hd), fun d hd h0 e he => hi.fresh d (hsub d hd) h0 e (hsub e he),
    us, hnd, hbound, fun d hd => hdone d (hsub d hd), ?_⟩
  rcases htext with ⟨hquiet, hout⟩ | ⟨e, he, hmid, huniq, hout⟩
  · exact Or.inl ⟨fun d hd => hquiet d (hsub d hd), hout⟩
  · have het : e.tid ≠ t := by
      intro h
      rw [hi.keyed.unique he hc (h.trans ht.symm)] at hmid
      exact hend hmid.2
    exact Or.inr ⟨e, mem_drop.2 ⟨he, het⟩, hmid, fun d hd => huniq d (hsub d hd), hout⟩

/-- the unit of a refused announcement is complete without payload -/
theorem refuse_inv (hi : Inv s) (hl : lookup Caller.tid s.callers t = some c) (hph : c.phase = .waiting)
    (hmore : c.sent < c.pieces.length) :
    Inv { s with callers := drop Caller.tid s.callers t, units := Function.update s.units c.unit c.line } := by
  obtain ⟨hc, ht⟩ := lookup_some hl
  have hsub : ∀ d ∈ drop Caller.tid s.callers t, d ∈ s.callers := fun d hd => (mem_drop.1 hd).1
  have hsent : c.sent = c.line.length := by
    have hprog := (hi.shape c hc).progress
    simp only [hph] at hprog
    omega
  have hmid : Mid c := ⟨by rw [hsent]; exact (hi.shape c hc).line, hmore⟩
  have hother : ∀ d ∈ drop Caller.tid s.callers t, d.unit ≠ c.unit := by
    intro d hd hu
    exact (mem_drop.1 hd).2 (hi.numbered.unique (hsub d hd) hc hu ▸ ht)
  obtain ⟨us, hnd, hbound, hdone, hnot, hout, huniq⟩ := hi.writing hc hmore (Or.inr hmid)
  have hnomid : ∀ d ∈ drop Caller.tid s.callers t, ¬ Mid d := by
    intro d hd hm
    exact (mem_drop.1 hd).2 (huniq d (hsub d hd) hm ▸ ht)
  refine ⟨hi.keyed.drop, hi.numbered.drop, ?_, fun d hd => hi.shape d (hsub d hd),
    fun d hd => hi.lock d (hsub d hd), fun d _ _ e he => hnomid e he, us ++ [c.unit], ?_, ?_, ?_, Or.inl ⟨hnomid, ?_⟩⟩
  · intro d hd
    exact ⟨(hi.units d (hsub d hd)).1, (Function.update_of_ne (hother d hd) _ _).trans (hi.units d (hsub d hd)).2⟩
  · exact hnd.append (List.nodup_singleton _) (by simpa using hnot)
  · intro u hu
    rcases List.mem_append.1 hu with hu | hu
    · exact hbound u hu
    · rw [List.mem_singleton.1 hu]; exact (hi.units c hc).1
  · intro d hd
    rw [List.mem_append, List.mem_singleton, ← hdone d (hsub d hd)]
    exact ⟨fun hu => hu.resolve_right (hother d hd), Or.inl⟩
  · have hline : c.pieces.take c.line.length = c.line := List.take_left
    have hkeep : ∀ u ∈ us, Function.update s.units c.unit c.line u = s.units u :=
      fun u hu => Function.update_of_ne (fun h => hnot (by rw [← h]; exact hu)) _ _
    rw [texts_concat, texts_congr (s := s) hkeep, hout, hsent, hline]
    show _ = _ ++ tag c.unit (Function.update s.units c.unit c.line c.unit)
    rw [Function.update_self]

theorem query_inv (hi : Inv s) (hclear : ∀ c ∈ s.callers, ¬ Mid c) (h : step s .query = some s') : Inv s' := by
  cases h
  obtain ⟨us, hnd, hbound, hdone, htext⟩ := hi.text
  have hout : s.out = texts s us := by
    rcases htext with ⟨_, hout⟩ | ⟨e, he, hmid, _⟩
    · exact hout
    · exact absurd hmid (hclear e he)
  have hkeep : ∀ u, u < s.next → Function.update s.units s.next [queryText] u = s.units u :=
    fun u hu => Function.update_of_ne hu.ne _ _
  refine ⟨hi.keyed, hi.numbered, ?_, hi.shape, hi.lock, hi.fresh, us ++ [s.next], ?_, ?_, ?_, Or.inl ⟨hclear, ?_⟩⟩
  · intro d hd
    exact ⟨Nat.lt_succ_of_lt (hi.units d hd).1, (hkeep _ (hi.units d hd).1).trans (hi.units d hd).2⟩
  · exact hnd.append (List.nodup_singleton _) (by simpa using fun h => lt_irrefl _ (hbound _ h))
  · intro u hu
    rcases List.mem_append.1 hu with hu | hu
    · exact Nat.lt_succ_of_lt (hbound u hu)
    · rw [List.mem_singleton.1 hu]; exact Nat.lt_succ_self _
  · intro d hd
    rw [List.mem_append, List.mem_singleton, ← hdone d hd]
    exact ⟨fun hu => hu.resolve_right (hi.units d hd).1.ne, Or.inl⟩
  · rw [texts_concat, texts_congr (s := s) fun u hu => hkeep u (hbound u hu), hout]
    show _ = _ ++ tag s.next (Function.update s.units s.next [queryText] s.next)
    rw [Function.update_self]
    rfl

theorem wait_inv (hi : Inv s) (h : step s (.wait t) = some s') : Inv s' := by
  simp only [step] at h
  split at h
  case h_2 => cases h
  rename_i c hl
  split at h
  case h_2 => cases h
  rename_i goal hph
  split_ifs at h with hgoal
  cases h
  obtain ⟨hc, ht⟩ := lookup_some hl
  have hmtx : s.mtx = some t := ht ▸ hi.lock c hc goal hph
  obtain ⟨hline, hpay, hprog⟩ := hi.shape c hc
  refine phase_inv hi hl (q := fun _ => .waiting) ⟨hline, hpay, ?_⟩ (fun g hg => by cases hg) ?_
  · simp only [hph] at hprog
    show c.sent = c.line.length ∨ c.sent = c.pieces.length
    omega
  · intro d hd hdt g hg
    have hm := hi.lock d hd g hg
    rw [hmtx] at hm
    exact absurd (Option.some.inj hm).symm hdt

theorem wake_inv (hi : Inv s) {ok : Bool} (h : step s (.wake t ok) = some s') : Inv s' := by
  simp only [step] at h
  split at h
  case h_2 => cases h
  rename_i c hl
  split_ifs at h with hfree hmore hok
  · cases h
    obtain ⟨hc, ht⟩ := lookup_some hl
    obtain ⟨hline, hpay, hprog⟩ := hi.shape c hc
    refine phase_inv hi hl (q := fun _ => .between) ⟨hline, hpay, ?_⟩ (fun g hg => by cases hg)
      (fun d hd _ g hg => hi.lock d hd g hg)
    simp only [hfree.2] at hprog
    show c.sent = c.line.length ∧ c.sent < c.pieces.length
    omega
  · cases h
    exact refuse_inv hi hl hfree.2 hmore
  · cases h
    exact return_inv hi hl hmore

theorem resume_inv (hi : Inv s) (h : step s (.resume t) = some s') : Inv s' := by
  simp only [step] at h
  split at h
  case h_2 => cases h
  rename_i c hl
  split_ifs at h with hfree
  cases h
  obtain ⟨hc, ht⟩ := lookup_some hl
  obtain ⟨hline, hpay, hprog⟩ := hi.shape c hc
  refine phase_inv hi hl (q := fun c => .writing c.pieces.length) ⟨hline, hpay, ?_⟩ (fun _ _ => rfl) ?_
  · simp only [hfree.2] at hprog
    exact Or.inr ⟨rfl, hprog.1.ge, hprog.2.le⟩
  · intro d hd _ g hg
    have hm := hi.lock d hd g hg
    rw [hfree.1] at hm
    cases hm

end Steps

theorem step_inv (s : State) (a : Act) (s' : State) (hi : Inv s) (hg : Clear s a) (h : step s a = some s') :
    Inv s' := by
  cases a with
  | start t op => exact start_inv hi hg h
  | write t => exact write_inv hi h
  | wait t => exact wait_inv hi h
  | wake t ok => exact wake_inv hi h
  | resume t => exact resume_inv hi h
  | query => exact query_inv hi hg h

/-! ## A write into the middle of a unit -/

/-- how many of the writes are of unit `u` -/
def writesOf (u : ℕ) (out : List (ℕ × Bytes)) : ℕ := out.countP fun p => p.1 = u

theorem writesOf_append (u : ℕ) (as bs : List (ℕ × Bytes)) : writesOf u (as ++ bs) = writesOf u as + writesOf u bs :=
  List.countP_append

theorem writesOf_tag (u : ℕ) (ws : List Bytes) : writesOf u (tag u ws) = ws.length := by
  simp [writesOf, tag, List.countP_map, Function.comp_def]

theorem writesOf_tag_ne {u v : ℕ} (h : v ≠ u) (ws : List Bytes) : writesOf u (tag v ws) = 0 := by
  simp [writesOf, tag, List.countP_map, Function.comp_def, h]

theorem writesOf_texts {s : State} {us : List ℕ} {u : ℕ} :
    (u ∉ us → writesOf u (texts s us) = 0) ∧ (u ∈ us → (s.units u).length ≤ writesOf u (texts s us)) := by
  induction us with
  | nil => exact ⟨fun _ => rfl, fun h => (List.not_mem_nil h).elim⟩
  | cons v us ih =>
    have hcons : texts s (v :: us) = tag v (s.units v) ++ texts s us := rfl
    rw [hcons, writesOf_append]
    constructor
    · intro h
      rw [List.mem_cons, not_or] at h
      rw [writesOf_tag_ne (Ne.symm h.1), ih.1 h.2]
    · intro h
      rcases List.mem_cons.1 h with rfl | h
      · rw [writesOf_tag]
        exact Nat.le_add_right _ _
      · exact le_trans (ih.2 h) (Nat.le_add_left _ _)

/-- a unit that has begun and is not complete is the last one -/
theorem not_whole {s : State} {pre : List (ℕ × Bytes)} {u v : ℕ} {b : Bytes} (hout : s.out = pre ++ [(v, b)])
    (hv : v ≠ u) (h0 : 0 < writesOf u pre) (hlt : writesOf u pre < (s.units u).length) : ¬ Whole s := by
  rintro ⟨us, w, k, _, hw, heq⟩
  have hcount : writesOf u pre = writesOf u (texts s us) + writesOf u (tag w ((s.units w).take k)) := by
    have h1 : writesOf u s.out = writesOf u pre := by
      rw [hout, writesOf_append, show writesOf u [(v, b)] = 0 from writesOf_tag_ne hv [b]]
      rfl
    rw [← h1, heq, writesOf_append]
  by_cases hu : u ∈ us
  · have := (writesOf_texts (s := s)).2 hu
    omega
  · rw [(writesOf_texts (s := s)).1 hu] at hcount
    by_cases hwu : w = u
    · -- then the last write would be one of `u`
      rw [hwu] at hcount heq
      have hne : tag u ((s.units u).take k) ≠ [] := by
        intro h
        rw [h] at hcount
        exact h0.ne' hcount
      have hlast := congrArg List.getLast? (hout.symm.trans heq)
      rw [List.getLast?_append_of_ne_nil _ hne, List.getLast?_concat] at hlast
      obtain ⟨_, _, hp⟩ := List.mem_map.1 (List.mem_of_getLast? hlast.symm)
      exact hv (Prod.mk.inj hp).1.symm
    · rw [writesOf_tag_ne hwu] at hcount
      omega

/-- what a call in the middle of its unit has written -/
theorem Inv.writesOf_mid {s : State} {c : Caller} (hi : Inv s) (hc : c ∈ s.callers) (hm : Mid c) :
    writesOf c.unit s.out = c.sent := by
  obtain ⟨us, _, _, _, hnot, hout, _⟩ := hi.writing hc hm.2 (Or.inr hm)
  calc writesOf c.unit s.out = writesOf c.unit (texts s us) + writesOf c.unit (tag c.unit (c.pieces.take c.sent)) := by
        rw [hout, writesOf_append]
    _ = 0 + (c.pieces.take c.sent).length := by rw [writesOf_texts.1 hnot, writesOf_tag]
    _ = c.sent := by rw [List.length_take_of_le hm.2.le, Nat.zero_add]

/-- a step against the condition writes, at once or next, into the middle of a unit -/
theorem broken_of_not_clear (s : State) (a : Act) (s' : State) (hi : Inv s) (h : step s a = some s')
    (hn : ¬ Clear s a) : ∃ bs t, run step s' bs = some t ∧ ¬ Whole t := by
  -- the next unit is none of those in the middle, and they keep their text
  have hbroken : ∀ c ∈ s.callers, Mid c → ∀ (t : State) (b : Bytes) (ws : List Bytes),
      t.out = s.out ++ [(s.next, b)] → t.units = Function.update s.units s.next ws → ¬ Whole t := by
    intro c hc hm t b ws hout hunits
    obtain ⟨hlt, htext⟩ := hi.units c hc
    have hkeep : t.units c.unit = c.pieces := by rw [hunits, Function.update_of_ne hlt.ne, htext]
    have hcount := hi.writesOf_mid hc hm
    refine not_whole hout hlt.ne' ?_ ?_
    · rw [hcount]; exact hm.1
    · rw [hcount, hkeep]; exact hm.2
  cases a with
  | write t => exact absurd trivial hn
  | wait t => exact absurd trivial hn
  | wake t ok => exact absurd trivial hn
  | resume t => exact absurd trivial hn
  | query =>
    obtain ⟨c, hc, hm⟩ : ∃ c ∈ s.callers, Mid c := by simpa [Clear] using hn
    cases h
    exact ⟨[], _, rfl, hbroken c hc hm _ _ _ rfl rfl⟩
  | start t op =>
    obtain ⟨c, hc, hm⟩ : ∃ c ∈ s.callers, Mid c := by simpa [Clear] using hn
    simp only [step] at h
    split_ifs at h with hfree
    cases h
    set d : Caller := ⟨t, s.next, op.line, op.payload, 0, .writing op.line.length⟩ with hd
    have hl : lookup Caller.tid (s.callers ++ [d]) t = some d := lookup_last (c := d) hfree.2
    obtain ⟨b, hb⟩ : ∃ b, d.pieces[0]? = some b := by
      have hpos : 0 < d.pieces.length := lt_of_lt_of_le (line_pos op) d.line_le
      exact ⟨_, List.getElem?_eq_getElem hpos⟩
    refine ⟨[.write t], { s with
      mtx := some t, callers := edit Caller.tid (s.callers ++ [d]) t fun c => { c with sent := c.sent + 1 },
      out := s.out ++ [(s.next, b)], units := Function.update s.units s.next d.pieces, next := s.next + 1 }, ?_,
      hbroken c hc hm _ b _ rfl rfl⟩
    rw [run_cons_some]
    refine ⟨_, ?_, rfl⟩
    simp only [step, hl]
    have hb0 : d.pieces[d.sent]? = some b := hb
    rw [hb0]
    exact if_pos (line_pos op)

/-! ## When the output is whole -/

/-- **Output integrity.** The writes are whole units, each announcement followed by its payload, as long as the reader
asks for the status, and a call starts, only when no unit has been written in part; each step without this can lead to a
broken unit. -/
theorem output_integrity {acts : List Act} {s : State} (hg : Guarded step Clear boot acts)
    (hr : run step boot acts = some s) : Exact step Clear Whole s :=
  exact_run step_inv (fun _ hi => hi.whole) broken_of_not_clear boot_inv hg hr

/-! ## Samples -/

/-- a send whose announcement is accepted; after it, the reader asks for the status -/
def sampleSend (l : Fin 5) : Op :=
  .send ⟨some 6, ringbufInit [] 0, [], [], .stream, ⟨.afInet, ⟨0, 0, 0⟩⟩⟩ l (str "hi" ++ [0]) 2 (by decide)

def sampleActs (l : Fin 5) : List Act :=
  [.start 1 (sampleSend l)] ++ List.replicate 15 (.write 1) ++
    [.wait 1, .wake 1 true, .resume 1, .write 1, .write 1, .wait 1, .query]

theorem output_integrity_sample : ∃ s, run step boot (sampleActs 0) = some s ∧
    (s.out.map Prod.snd).flatten = str "AT+CIPSEND=0,2\nhi\nAT+CIPSTATUS\n" ∧ Exact step Clear Whole s := by
  have hr : (run step boot (sampleActs 0)).map (fun s => (s.out.map Prod.snd).flatten) =
      some (str "AT+CIPSEND=0,2\nhi\nAT+CIPSTATUS\n") := by decide +kernel
  obtain ⟨s, hs, hout⟩ := Option.map_eq_some_iff.1 hr
  exact ⟨s, hs, hout, output_integrity (by decide +kernel) hs⟩

/-- the reader asks for the status inside a command; another thread's command comes between announcement and payload -/
theorem output_integrity_fails :
    (∃ s, run step boot [.start 1 (.close 0), .write 1, .query] = some s ∧ ¬ Whole s) ∧
    (∃ s, run step boot ([.start 1 (sampleSend 0)] ++ List.replicate 15 (.write 1) ++
      [.wait 1, .wake 1 true, .start 2 (.close 3), .write 2]) = some s ∧ ¬ Whole s) := by
  have hbroken : ∀ (acts : List Act) (m n : ℕ) (b : Bytes), 0 < m → m < n →
      (run step boot acts).map (fun s => (s.out.getLast?, writesOf 0 s.out.dropLast, (s.units 0).length)) =
        some (some (1, b), m, n) → ∃ s, run step boot acts = some s ∧ ¬ Whole s := by
    intro acts m n b h0 hlt hr
    obtain ⟨s, hs, hv⟩ := Option.map_eq_some_iff.1 hr
    simp only [Prod.mk.injEq] at hv
    obtain ⟨hlast, hcount, hlen⟩ := hv
    have hout : s.out = s.out.dropLast ++ [(1, b)] := (List.dropLast_append_getLast? _ hlast).symm
    refine ⟨s, hs, not_whole hout (u := 0) (by decide) ?_ ?_⟩
    · rw [hcount]; exact h0
    · rw [hcount, hlen]; exact hlt
  constructor
  · exact hbroken _ 1 14 queryText (by decide) (by decide) (by decide +kernel)
  · exact hbroken _ 15 17 (str "A") (by decide) (by decide) (by decide +kernel)

end EspHostdriver.OutputIntegrity
