/-
Calls that fail: what they have changed by then.

`bos_net_configure` stores the configuration and `assign_netdev` the device and the address before the module is asked,
and nobody takes them back when it refuses. A socket that has a device is not connected a second time, so a
`bos_connect` that the module refused once fails for ever.

- `configure_atomic`, `connect_atomic`, `bind_atomic`, `listen_atomic`, `sendto_atomic`: exactly when a call that fails
  has left everything as it was. `bos_bind` and `bos_listen` always do.
- `fail_atomic_iff`: the five together.
- `fail_atomic_fails`: a refused `bos_connect`, and the second attempt.
-/
import EspHostdriver.Net.Effects

namespace EspHostdriver.FailAtomic

/-! ## Model -/

/-- what one of the five calls returns and leaves behind -/
def answer (w : Host) : Op → Option (ℤ × Host)
  | .configure strs cfg n => (bosNetConfigure w strs cfg n).toOption
  | .connect fdId addr n => (bosConnect w fdId addr n).toOption
  | .bind fdId addr n => (bosBind w fdId addr n).toOption
  | .listen fdId backlog => (bosListen w fdId backlog).toOption
  | .sendto fdId mem n addr addrLen => (bosSendto w fdId mem n addr addrLen).toOption
  | _ => none

def Failed (r : ℤ) : Op → Prop
  | .configure _ _ _ => r ≠ 0
  | _ => r < 0

/-- the configurations, the device and the address of every socket, the links and the server are as they were -/
structure Unchanged (w w' : Host) : Prop where
  devLst : w'.devLst = w.devLst
  socks : ∀ s k, w.socks s = some k → ∃ k', w'.socks s = some k' ∧ k'.dev = k.dev ∧ k'.addr = k.addr
  links : w'.esp.links = w.esp.links
  server : w'.esp.tcpServer = w.esp.tcpServer

/-- the same connect does the same again, whatever the line is like by then -/
def Retries (w w' : Host) : Op → Prop
  | .connect fdId addr n =>
    ∀ itf, bosConnect { w' with itf := itf } fdId addr n = bosConnect { w with itf := itf } fdId addr n
  | _ => True

def Atomic (w : Host) (op : Op) : Prop :=
  ∀ r w', answer w op = some (r, w') → Failed r op → Unchanged w w' ∧ Retries w w' op

/-! ## When it holds -/

/-- the device that `assign_netdev` finds -/
def matchDev (w : Host) (addr : SockAddrInet) (addrLen : ℕ) : Option Netdev :=
  w.devLst.find? fun v => v.domain = addr.domain ∧ inetMatchAddr v.cfg addr addrLen

/-- the driver's `send` fails: no link, or the module refuses the command or the data, or the length does not fit -/
def sendFails (w : Host) (s : Addr) (n : ℕ) : Prop :=
  n ≠ 0 ∧ (getLinkId w.esp (some s) = none ∨ w.itf.ans w.itf.waits = .err ∨ w.itf.ans w.itf.waits = .busy ∨
    w.itf.ans w.itf.waits = .ok ∧ (w.itf.ans (w.itf.waits + 1) ≠ .ok ∨ 2 ^ 31 ≤ n % 2 ^ 32))

/-- configure: the size is wrong, or the configuration is the one stored, or it is valid and the module answers every
command with OK. connect: a socket that gets a device finds a free link and an OK. sendto: a datagram that changes the
device or the address of its socket is sent -/
def Clean (w : Host) : Op → Prop
  | .configure strs cfg n => ∀ v ∈ w.devLst.head?, n = domainCfgSize v.domain → cfg ≠ v.cfg →
      cfg.devMode ≠ none ∧ ∀ i < (configureCmds strs cfg).length, w.itf.ans (w.itf.waits + i) = .ok
  | .connect fdId addr n => ∀ p ∈ w.fdSock fdId, p.2.dev = none → n = domainAddrLen p.2.addr.domain →
      matchDev w addr n ≠ none → getLinkId w.esp none ≠ none ∧ w.itf.ans w.itf.waits = .ok
  | .sendto fdId _ n addr addrLen => ∀ a ∈ addr, ∀ p ∈ w.fdSock fdId, p.2.type = .dgram →
      addrLen = domainAddrLen p.2.addr.domain → ∀ v ∈ matchDev w a addrLen,
        p.2.dev ≠ some v.self ∨ p.2.addr ≠ a → ¬ sendFails w p.1 n
  | _ => True

instance decidableSendFails (w : Host) (s : Addr) (n : ℕ) : Decidable (sendFails w s n) :=
  inferInstanceAs (Decidable (_ ∧ (_ ∨ _ ∨ _ ∨ _ ∧ (_ ∨ _))))

instance decidableClean (w : Host) : (op : Op) → Decidable (Clean w op)
  | .configure _ _ _ => by unfold Clean; infer_instance
  | .connect _ _ _ => by unfold Clean; infer_instance
  | .sendto _ _ _ _ _ => by unfold Clean; infer_instance
  | .socket _ _ | .bind _ _ _ | .listen _ _ | .accept _ _ | .recvfrom _ _ _ | .close _ | .evRecv _ _ _ | .evAccept _ _
  | .evClosed _ => isTrue trivial

variable {w w' : Host}

/-! ## What stays -/

theorem Unchanged.line (h : SameButLine w w') : Unchanged w w' := by
  rw [h]
  exact ⟨rfl, fun _ k hk => ⟨k, hk, rfl, rfl⟩, rfl, rfl⟩

theorem Retries.line (h : SameButLine w w') (op : Op) : Retries w w' op := by
  cases op with
  | connect fdId addr n =>
    intro itf
    rw [h]
  | _ => trivial

/-- a call that at most wrote to the line is atomic -/
theorem atomic_of_line {op : Op} (h : ∀ r w', answer w op = some (r, w') → Failed r op → SameButLine w w') :
    Atomic w op := fun r w' ha hf => ⟨.line (h r w' ha hf), .line (h r w' ha hf) op⟩

/-- and so is one that comes back with the state it found -/
theorem atomic_of_same {op : Op} {r : ℤ} (h : answer w op = some (r, w)) : Atomic w op :=
  atomic_of_line fun r' w' ha _ => by
    rw [h] at ha
    cases ha
    rfl

/-- a socket that got another device or another address is not as it was -/
theorem not_unchanged {s : Addr} {k k' : Socket} (hk : w.socks s = some k) (hk' : w'.socks s = some k')
    (hne : k'.dev ≠ k.dev ∨ k'.addr ≠ k.addr) : ¬ Unchanged w w' := by
  intro h
  obtain ⟨x, hx, hd, ha⟩ := h.socks s k hk
  obtain rfl := Option.some.inj (hk'.symm.trans hx)
  exact hne.elim (fun hn => hn hd) fun hn => hn ha

/-! ## bos_net_configure -/

theorem ofInt_ret_eq_zero {r : Res} : BitVec.ofInt 32 r.ret = 0 ↔ r = .ok := by cases r <;> decide

/-- the results of a list of commands are or-ed: 0 when every answer is OK -/
theorem sendCmds_cases {cs : List (Bytes × List Arg)} (hcs : ∀ c ∈ cs, ∃ ws, render c.1 c.2 = .ok ws) (s : Serial)
    {r : ℤ} (hr : BitVec.ofInt 32 r = 0 → r = 0) : ∃ r' s', sendCmds s r cs = .ok (r', s') ∧
      (r' = 0 ↔ r = 0 ∧ ∀ i < cs.length, s.ans (s.waits + i) = .ok) := by
  induction cs generalizing s r with
  | nil => exact ⟨r, s, rfl, by simp⟩
  | cons c cs ih =>
    obtain ⟨ws, hws⟩ := hcs c List.mem_cons_self
    have hor : intOr r (s.ans s.waits).ret = 0 ↔ r = 0 ∧ s.ans s.waits = .ok := by
      rw [intOr_eq_zero, ofInt_ret_eq_zero]
      exact and_congr_left fun _ => ⟨hr, fun h => by rw [h]; rfl⟩
    obtain ⟨r', s', he, hz⟩ := ih (fun c hc => hcs c (List.mem_cons_of_mem _ hc)) (s.sent ws)
      (r := intOr r (s.ans s.waits).ret) (fun h => by
        rw [intOr, BitVec.ofInt_toInt] at h
        rw [intOr, h]
        rfl)
    refine ⟨r', s', ?_, hz.trans ?_⟩
    · simp only [sendCmds, sendCmd_sent hws]
      exact he
    · rw [hor, Serial.sent_ans, Serial.sent_waits, and_assoc]
      refine and_congr_right fun _ => ⟨?_, ?_⟩
      · intro h i hi
        cases i with
        | zero => exact h.1
        | succ i =>
          have := h.2 i (by simpa using hi)
          rwa [Nat.add_right_comm] at this
      · intro h
        refine ⟨h 0 (by simp), fun i hi => ?_⟩
        have := h (i + 1) (by simpa using hi)
        rwa [Nat.add_right_comm]

/-- every command of `configure` is written: its directives match its arguments -/
theorem render_configure (strs : Addr → Bytes) (cfg : InetDevCfg) :
    ∀ c ∈ configureCmds strs cfg, ∃ ws, render c.1 c.2 = .ok ws := by
  unfold configureCmds
  generalize cfg.devMode = mode
  obtain ⟨_, ssid, _, dhcp, _, _, _, _, password⟩ := cfg
  rcases mode with _ | ⟨_ | _⟩ <;> cases dhcp <;> cases ssid <;> cases password <;>
    repeat first
      | exact fun _ h => (List.not_mem_nil h).elim
      | refine List.forall_mem_cons.2 ⟨⟨_, rfl⟩, ?_⟩

theorem configure_atomic (w : Host) (strs : Addr → Bytes) (cfg : InetDevCfg) (n : ℕ) :
    Atomic w (.configure strs cfg n) ↔ Clean w (.configure strs cfg n) := by
  cases hv : w.devLst with
  | nil =>
    refine iff_of_true (fun r w' ha => ?_) fun v hx => by rw [hv] at hx; cases hx
    simp [answer, bosNetConfigure, hv, Except.toOption] at ha
  | cons v vs =>
    simp only [Clean, hv, List.head?_cons, Option.mem_some_iff, forall_eq']
    by_cases hn : n = domainCfgSize v.domain
    swap
    · refine iff_of_true (atomic_of_line fun r w' ha _ => ?_) fun hx => absurd hx hn
      simp only [answer, bosNetConfigure, hv, hn, ne_eq, not_false_iff, if_true] at ha
      cases ha
      rfl
    obtain ⟨r, s, hsend, hz⟩ := sendCmds_cases (render_configure strs cfg) w.itf (r := 0) fun _ => rfl
    have hcall : answer w (.configure strs cfg n) = some (if cfg.devMode = none then -1 else r,
        { w with devLst := { v with cfg := cfg } :: vs, itf := s }) := by
      simp only [answer, bosNetConfigure, hv, hn, ne_eq, not_true_eq_false, if_false, espConfigure, hsend, bind,
        Except.bind]
      rfl
    -- it fails unless the mode is valid and every answer is OK
    have hfail : Failed (if cfg.devMode = none then -1 else r) (.configure strs cfg n) ↔
        ¬ (cfg.devMode ≠ none ∧ ∀ i < (configureCmds strs cfg).length, w.itf.ans (w.itf.waits + i) = .ok) := by
      simp only [Failed]
      split_ifs with hm
      · simp [hm]
      · rw [ne_eq, hz]
        simp [hm]
    constructor
    · intro h _ hcfg
      by_contra hno
      have hdev := (h _ _ hcall (hfail.2 hno)).1.devLst
      rw [hv] at hdev
      exact hcfg (congrArg Netdev.cfg (List.cons.inj hdev).1)
    · intro h r' w' ha hf
      rw [hcall] at ha
      obtain ⟨rfl, rfl⟩ := Prod.mk.inj (Option.some.inj ha)
      have hcfg : cfg = v.cfg := by
        by_contra hne
        exact hfail.1 hf (h hn hne)
      refine ⟨⟨?_, fun _ k hk => ⟨k, hk, rfl, rfl⟩, rfl, rfl⟩, trivial⟩
      rw [hv, hcfg]

/-! ## bos_connect -/

variable {fdId : ℤ} {s : Addr} {k : Socket}

theorem assignNetdev_eq (hk : w.socks s = some k) (addr : SockAddrInet) (n : ℕ) : assignNetdev w (some s) addr n =
    .ok (if n = domainAddrLen k.addr.domain then
      match matchDev w addr n with
      | none => (-1, w)
      | some v => (0, w.setSock s { k with dev := some v.self, addr := addr })
    else (-1, w)) := by
  unfold assignNetdev
  rw [sock_of_live hk]
  change (if n ≠ domainAddrLen k.addr.domain then Except.ok (-1, w)
    else match matchDev w addr n with
      | none => .ok (-1, w)
      | some v => .ok (0, w.setSock s { k with dev := some v.self, addr := addr })) = _
  by_cases hn : n = domainAddrLen k.addr.domain
  · rw [if_neg (not_not.2 hn), if_pos hn]
    cases matchDev w addr n <;> rfl
  · rw [if_pos hn, if_neg hn]

/-- a socket without a device that matches one gets it, and is then connected by the driver -/
theorem bosConnect_eq (h : w.Inv) (hs : w.fdSock fdId = some (s, k)) (addr : SockAddrInet) (n : ℕ) :
    bosConnect w fdId addr n =
      if k.dev = none ∧ n = domainAddrLen k.addr.domain then
        match matchDev w addr n with
        | none => .ok (-1, w)
        | some v => espConnect (w.setSock s { k with dev := some v.self, addr := addr }) s
      else .ok (-1, w) := by
  obtain ⟨fd, nd, hf, hn, hd, hk⟩ := Host.fdSock_some.1 hs
  simp only [bosConnect, hf, Host.fdData_some hn, hd, sock_of_live hk, bind, Except.bind, assignNetdev_eq hk]
  by_cases hdev : k.dev = none
  swap
  · simp [hdev]
  by_cases hlen : n = domainAddrLen k.addr.domain
  swap
  · simp [hdev, hlen]
  cases hm : matchDev w addr n with
  | none => simp [hdev, hlen]
  | some v =>
    have hv : v ∈ w.devLst := List.mem_of_find?_eq_some hm
    have hset := w.setSock_self s { k with dev := some v.self, addr := addr }
    obtain ⟨v', hv'⟩ := Host.dev_of_mem (w := w.setSock s { k with dev := some v.self, addr := addr }) hv
    have hops : v'.ops.connect = true := by rw [h.full v' (Host.dev_ok hv').1]
    simp [hdev, hlen, sock_of_live hset, hv', hops]

theorem connect_atomic (h : w.Inv) (fdId : ℤ) (addr : SockAddrInet) (n : ℕ) :
    Atomic w (.connect fdId addr n) ↔ Clean w (.connect fdId addr n) := by
  -- without a socket the call returns -1, or never returns
  have hnone : w.fdSock fdId = none → (∀ r w', bosConnect w fdId addr n = .ok (r, w') → w' = w) →
      (Atomic w (.connect fdId addr n) ↔ Clean w (.connect fdId addr n)) := by
    intro hs hsame
    refine iff_of_true (atomic_of_line fun r w' ha _ => ?_) fun p hp => by rw [hs] at hp; cases hp
    exact hsame r w' (toOption_some ha) ▸ rfl
  rcases h.fd_cases fdId with hf | ⟨fd, nd, hf, hn, hd⟩ | ⟨s, k, hs⟩
  · refine hnone (by simp [Host.fdSock, hf]) fun r w' hc => ?_
    simp only [bosConnect, hf] at hc
    cases hc
    rfl
  · refine hnone (fdSock_none_of_data hf hn hd) fun r w' hc => ?_
    simp [bosConnect, hf, Host.fdData_some hn, hd, Host.sock, bind, Except.bind] at hc
  have heq := bosConnect_eq h hs addr n
  have hclean : Clean w (.connect fdId addr n) ↔ (k.dev = none → n = domainAddrLen k.addr.domain →
      matchDev w addr n ≠ none → getLinkId w.esp none ≠ none ∧ w.itf.ans w.itf.waits = .ok) := by
    simp only [Clean, hs, Option.mem_some_iff, forall_eq']
  rw [hclean]
  have hstays : bosConnect w fdId addr n = .ok (-1, w) → Atomic w (.connect fdId addr n) := fun hc =>
    atomic_of_same (r := -1) (by simp only [answer, hc]; rfl)
  by_cases hcond : k.dev = none ∧ n = domainAddrLen k.addr.domain
  swap
  · rw [if_neg hcond] at heq
    exact iff_of_true (hstays heq) fun h1 h2 => absurd ⟨h1, h2⟩ hcond
  rw [if_pos hcond] at heq
  cases hm : matchDev w addr n with
  | none =>
    rw [hm] at heq
    exact iff_of_true (hstays heq) fun _ _ h3 => absurd rfl h3
  | some v =>
    simp only [hm] at heq
    have hv : v ∈ w.devLst := List.mem_of_find?_eq_some hm
    have hset := w.setSock_self s { k with dev := some v.self, addr := addr }
    obtain ⟨v', hv'⟩ := Host.dev_of_mem (w := w.setSock s { k with dev := some v.self, addr := addr }) hv
    -- the socket has the device by now, so a failure is never atomic
    have hbroken : ∀ w', bosConnect w fdId addr n = .ok (-1, w') →
        w'.socks s = some { k with dev := some v.self, addr := addr } → ¬ Atomic w (.connect fdId addr n) := by
      intro w' hc hs' ha
      refine not_unchanged (sock_of_fdSock hs) hs' (Or.inl ?_) (ha (-1) w' ?_ (by simp [Failed])).1
      · rw [hcond.1]
        exact Option.some_ne_none _
      · simp only [answer, hc]
        rfl
    rcases espConnect_cases hset hv' with ⟨hl, he⟩ | ⟨l, ws, hl, he⟩
    · refine iff_of_false (hbroken _ (heq.trans he) hset) fun hx => ?_
      exact (hx hcond.1 hcond.2 (Option.some_ne_none _)).1 hl
    · by_cases hans : w.itf.ans w.itf.waits = .ok
      · have hl' : getLinkId w.esp none = some l := hl
        refine iff_of_true (fun r w' ha hf => ?_) fun _ _ _ => ⟨by rw [hl']; exact Option.some_ne_none _, hans⟩
        have hc := heq.trans (he.trans (congrArg Except.ok (if_pos hans)))
        rw [toOption_some ha] at hc
        cases hc
        exact absurd hf (by simp [Failed])
      · refine iff_of_false (hbroken _ (heq.trans (he.trans (congrArg Except.ok (if_neg hans)))) hset) fun hx => ?_
        exact hans (hx hcond.1 hcond.2 (Option.some_ne_none _)).2

/-! ## bos_bind and bos_listen -/

theorem bind_atomic (w : Host) (fdId : ℤ) (addr : SockAddrInet) (n : ℕ) : Atomic w (.bind fdId addr n) := by
  refine atomic_of_line fun r w' ha hf => ?_
  obtain ⟨d, _, hb⟩ := bind_ok.1 (toOption_some ha)
  obtain ⟨s, k, _, _, hx⟩ := assignNetdev_ok hb
  rcases hx with ⟨_, rfl⟩ | ⟨_, _, rfl, _⟩
  · rfl
  · exact absurd hf (by simp [Failed])

theorem listen_atomic (w : Host) (fdId backlog : ℤ) : Atomic w (.listen fdId backlog) := by
  refine atomic_of_line fun r w' ha hf => ?_
  obtain ⟨s, k, _, ⟨_, rfl | ⟨ws, rfl⟩⟩ | ⟨rfl, _⟩⟩ := bosListen_ok (toOption_some ha)
  · rfl
  · rfl
  · exact absurd hf (by simp [Failed])

/-! ## bos_sendto -/

/-- the driver's `send` changes the line only, and fails as said -/
theorem espSend_neg {v : Netdev} (hk : w.socks s = some k) (hd : w.dev k.dev = .ok v) (mem : Bytes) (n : ℕ) :
    ∃ r w', espSend w s mem n = .ok (r, w') ∧ SameButLine w w' ∧ (toInt32 r < 0 ↔ sendFails w s n) := by
  by_cases h0 : n = 0
  · refine ⟨0, w, by simp [espSend, h0], rfl, iff_of_false (by decide) fun hx => hx.1 h0⟩
  simp only [sendFails, ne_eq, h0, not_false_iff, true_and]
  rcases espSend_cases hk hd mem h0 with ⟨hl, he⟩ | ⟨l, ws, hl, _, he⟩
  · exact ⟨-1, w, he, rfl, iff_of_true (by decide) (Or.inl hl)⟩
  · simp only [hl, reduceCtorEq, false_or]
    cases hans : w.itf.ans w.itf.waits with
    | ok =>
      rw [hans, if_pos rfl] at he
      by_cases hans' : w.itf.ans (w.itf.waits + 1) = .ok
      · rw [if_pos hans'] at he
        refine ⟨_, _, he, rfl, ?_⟩
        rw [toInt32_toInt64, toInt32_neg_iff]
        simp [hans']
      · rw [if_neg hans'] at he
        exact ⟨_, _, he, rfl, iff_of_true (by decide) (by simp [hans'])⟩
    | inval =>
      rw [hans, if_neg (by decide)] at he
      exact ⟨_, _, he, rfl, iff_of_false (by decide) (by simp)⟩
    | err =>
      rw [hans, if_neg (by decide)] at he
      exact ⟨_, _, he, rfl, iff_of_true (by decide) (by simp)⟩
    | busy =>
      rw [hans, if_neg (by decide)] at he
      exact ⟨_, _, he, rfl, iff_of_true (by decide) (by simp)⟩

/-- a datagram with an address: the socket that matches a device gets it, and the driver sends -/
theorem bosSendto_eq (h : w.Inv) (hs : w.fdSock fdId = some (s, k)) (ht : k.type = .dgram) (mem : Bytes) (n : ℕ)
    (addr : SockAddrInet) (addrLen : ℕ) : bosSendto w fdId mem n (some addr) addrLen =
      if addrLen = domainAddrLen k.addr.domain then
        match matchDev w addr addrLen with
        | none => .ok (-1, w)
        | some v => (espSend (w.setSock s { k with dev := some v.self, addr := addr }) s mem n).map
            fun p => (toInt32 p.1, p.2)
      else .ok (-1, w) := by
  have hk := sock_of_fdSock hs
  by_cases hlen : addrLen = domainAddrLen k.addr.domain
  swap
  · simp [bosSendto, fdData_of_fdSock hs, sock_of_live hk, sendtoDev, ht, bind, Except.bind, hlen]
  cases hm : matchDev w addr addrLen with
  | none =>
    simp [bosSendto, fdData_of_fdSock hs, sock_of_live hk, sendtoDev, ht, bind, Except.bind, hlen, assignNetdev_eq hk,
      hlen ▸ hm]
  | some v =>
    obtain ⟨k1, hk1⟩ : ∃ k1 : Socket, k1 = { k with dev := some v.self, addr := addr } := ⟨_, rfl⟩
    have hassign : assignNetdev w (some s) addr addrLen = .ok (0, w.setSock s k1) := by
      rw [assignNetdev_eq hk, if_pos hlen, hm, hk1]
    have hdev : k1.dev = some v.self := by rw [hk1]
    obtain ⟨v', hv'⟩ := Host.dev_of_mem (w := w.setSock s k1) (List.mem_of_find?_eq_some hm)
    have hops : v'.ops.send = true := by rw [h.full v' (Host.dev_ok hv').1]
    rw [if_pos hlen]
    simp only [← hk1]
    simp only [bosSendto, fdData_of_fdSock hs, reduceCtorEq, if_false, sock_of_live hk, sendtoDev, ht, bind,
      Except.bind, if_neg (not_not.2 hlen), hassign, ne_eq, not_true_eq_false, sock_of_live (w.setSock_self s k1), hdev,
      hv', hops, if_true]
    cases espSend (w.setSock s k1) s mem n <;> rfl

/-- without an address, and on a stream, at most the line changes -/
theorem sendto_line {mem : Bytes} {n addrLen : ℕ} {addr : Option SockAddrInet} {r : ℤ}
    (hno : ∀ a ∈ addr, ∀ p ∈ w.fdSock fdId, p.2.type ≠ .dgram) (hs : bosSendto w fdId mem n addr addrLen = .ok (r, w')) :
    SameButLine w w' := by
  rcases bosSendto_ok hs with rfl | ⟨s, k, dev, w1, hfs, hdev, hgo⟩
  · rfl
  have hw1 : w1 = w := by
    rcases sendtoDev_ok (sock_of_fdSock hfs) hdev with hx | ⟨a, v, rfl, _, _⟩
    · exact hx
    · have ht := hno a rfl _ hfs
      cases htype : k.type with
      | dgram => exact absurd htype ht
      | stream =>
        simp only [sendtoDev, htype] at hdev
        cases hdev
        rfl
  subst hw1
  rcases hgo with rfl | ⟨r1, he⟩
  · rfl
  · exact sendDev_line he

theorem sendto_atomic (h : w.Inv) (fdId : ℤ) (mem : Bytes) (n : ℕ) (addr : Option SockAddrInet) (addrLen : ℕ) :
    Atomic w (.sendto fdId mem n addr addrLen) ↔ Clean w (.sendto fdId mem n addr addrLen) := by
  by_cases hno : ∀ a ∈ addr, ∀ p ∈ w.fdSock fdId, p.2.type ≠ .dgram
  · exact iff_of_true (atomic_of_line fun r w' ha _ => sendto_line hno (toOption_some ha)) fun a ha p hp ht =>
      absurd ht (hno a ha p hp)
  simp only [not_forall, not_not] at hno
  obtain ⟨a, ha, ⟨s, k⟩, hs, ht⟩ := hno
  rw [Option.mem_def] at ha hs
  subst ha
  have hk := sock_of_fdSock hs
  have heq := bosSendto_eq h hs ht mem n a addrLen
  have hclean : Clean w (.sendto fdId mem n (some a) addrLen) ↔ (addrLen = domainAddrLen k.addr.domain →
      ∀ v ∈ matchDev w a addrLen, k.dev ≠ some v.self ∨ k.addr ≠ a → ¬ sendFails w s n) := by
    simp only [Clean, hs, Option.mem_some_iff, forall_eq']
    exact ⟨fun hx => hx ht, fun hx _ => hx⟩
  rw [hclean]
  have hstays : bosSendto w fdId mem n (some a) addrLen = .ok (-1, w) →
      Atomic w (.sendto fdId mem n (some a) addrLen) := fun hc =>
    atomic_of_same (r := -1) (by simp only [answer, hc]; rfl)
  by_cases hlen : addrLen = domainAddrLen k.addr.domain
  swap
  · rw [if_neg hlen] at heq
    exact iff_of_true (hstays heq) fun hx => absurd hx hlen
  rw [if_pos hlen] at heq
  cases hm : matchDev w a addrLen with
  | none =>
    rw [hm] at heq
    exact iff_of_true (hstays heq) fun _ v hv => by cases hv
  | some v =>
    simp only [hm] at heq
    have hv : v ∈ w.devLst := List.mem_of_find?_eq_some hm
    have hset := w.setSock_self s { k with dev := some v.self, addr := a }
    obtain ⟨v', hv'⟩ := Host.dev_of_mem (w := w.setSock s { k with dev := some v.self, addr := a }) hv
    obtain ⟨r, w', he, hline, hneg⟩ := espSend_neg hset hv' mem n
    rw [he] at heq
    have hcall : answer w (.sendto fdId mem n (some a) addrLen) = some (toInt32 r, w') := by
      simp only [answer, heq]
      rfl
    have hneg' : toInt32 r < 0 ↔ sendFails w s n := hneg
    have hsock : w'.socks s = some { k with dev := some v.self, addr := a } := by
      rw [hline]
      exact hset
    constructor
    · intro hat _ u hu hne hfail
      cases hu
      refine not_unchanged hk hsock ?_ (hat _ _ hcall (hneg'.2 hfail)).1
      exact hne.imp (fun hx hd => hx hd.symm) fun hx hd => hx hd.symm
    · intro hx r' w'' ha hf
      rw [hcall] at ha
      obtain ⟨rfl, rfl⟩ := Prod.mk.inj (Option.some.inj ha)
      have hsame : k.dev = some v.self ∧ k.addr = a := by
        by_contra hne
        rw [not_and_or] at hne
        exact hx hlen v rfl hne (hneg'.1 hf)
      -- what was assigned is what the socket had
      have hk' : ({ k with dev := some v.self, addr := a } : Socket) = k := by
        rw [← hsame.1, ← hsame.2]
      have hself : w.setSock s { k with dev := some v.self, addr := a } = w := by
        rw [hk', Host.setSock, Table.set_same hk]
      rw [hself] at hline
      exact ⟨Unchanged.line hline, trivial⟩

/-! ## All calls -/

/-- **A call that fails leaves everything as it was exactly when it is clean.** -/
theorem fail_atomic_iff (hw : Reach w) (op : Op) : Atomic w op ↔ Clean w op := by
  cases op with
  | configure strs cfg n => exact configure_atomic w strs cfg n
  | connect fdId addr n => exact connect_atomic hw.inv fdId addr n
  | bind fdId addr n => exact iff_of_true (bind_atomic w fdId addr n) trivial
  | listen fdId backlog => exact iff_of_true (listen_atomic w fdId backlog) trivial
  | sendto fdId mem n addr addrLen => exact sendto_atomic hw.inv fdId mem n addr addrLen
  | _ => exact iff_of_true (fun r w' ha => by cases ha) trivial

/-- the configuration the device came up with, all zero, but for its mode, which is another one that does not exist -/
def noMode : InetDevCfg := { zeroCfg with mode := 3 }

theorem fail_atomic_iff_sample : Atomic (sampleConn .stream) (.connect 1 samplePeer 12) ∧
    ¬ Atomic (sampleConn .stream) (.configure (fun _ => []) noMode sizeofInetDevCfg) := by
  have hc : Clean (sampleConn .stream) (.connect 1 samplePeer 12) ∧
      ¬ Clean (sampleConn .stream) (.configure (fun _ => []) noMode sizeofInetDevCfg) := by decide +kernel
  exact ⟨(fail_atomic_iff (sampleConn_reach .stream) _).2 hc.1,
    fun h => hc.2 ((fail_atomic_iff (sampleConn_reach .stream) _).1 h)⟩

/-- a stream socket; the module answers OK while it is started, ERROR from then on -/
def refused : Option Host :=
  (boot (fun _ => true) (fun _ => blankJunk) (fun i => if i < 2 then .ok else .err) true).bind fun w =>
    Machine.run step w [.socket .afInet .stream]

/-- the module refuses the `bos_connect` of descriptor 1; with answers that are all OK the same call would connect it
before, and fails after -/
theorem fail_atomic_fails : ∃ w w', Reach w ∧ bosConnect w 1 samplePeer 12 = .ok (-1, w') ∧
    (w.fdSock 1).map (fun p => p.2.dev) = some none ∧ (w'.fdSock 1).map (fun p => p.2.dev) = some (some 6) ∧
    (bosConnect { w with itf := .willing } 1 samplePeer 12).toOption.map Prod.fst = some 0 ∧
    (bosConnect { w' with itf := .willing } 1 samplePeer 12).toOption.map Prod.fst = some (-1) ∧
    ¬ Atomic w (.connect 1 samplePeer 12) := by
  have hr : (refused.bind fun w => (bosConnect w 1 samplePeer 12).toOption.map fun p => (p.1,
      (w.fdSock 1).map (fun q => q.2.dev), (p.2.fdSock 1).map (fun q => q.2.dev),
      (bosConnect { w with itf := .willing } 1 samplePeer 12).toOption.map Prod.fst,
      (bosConnect { p.2 with itf := .willing } 1 samplePeer 12).toOption.map Prod.fst)) =
        some (-1, some none, some (some 6), some 0, some (-1)) := by decide +kernel
  obtain ⟨w, hw, hr⟩ := Option.bind_eq_some_iff.1 hr
  obtain ⟨⟨r, w'⟩, hc, hr⟩ := Option.map_eq_some_iff.1 hr
  simp only [Prod.mk.injEq] at hr
  obtain ⟨rfl, hdev, hdev', hfirst, hsecond⟩ := hr
  obtain ⟨w0, hb, hrun⟩ := Option.bind_eq_some_iff.1 hw
  have hcall := toOption_some hc
  refine ⟨w, w', ⟨_, _, _, _, w0, _, hb, hrun⟩, hcall, hdev, hdev', hfirst, hsecond, fun ha => ?_⟩
  have hretry := (ha (-1) w' hc (by simp [Failed])).2 .willing
  rw [hretry, hfirst] at hsecond
  exact absurd hsecond (by decide)

end EspHostdriver.FailAtomic
