/-
How the program comes up: from the configuration to the loop of the server or to the prompt of the client.

Until then there is one thread, no socket has a link and nobody listens, so the events of the module change nothing. The
program stops at the first step that does not return 0. The address and the netmask of the device are constants of the
program, so a client gets past `bos_connect` only to an address in 192.168.0.0/24, whatever network it joined.

- `Online`: what it takes.
- `Way`: what holds at each place of the main thread; `next_way`: every step keeps this.
- `comes_up`: while nothing is typed, a main thread that is past its start is running exactly when `Online` holds.
-/
import EspHostdriver.Main.Program
import EspHostdriver.Scenarios.FailAtomic

namespace EspHostdriver.Startup

open Machine Program FailAtomic

/-! ## Model -/

/-- no socket has a link, and nobody listens -/
def Blank (w : Host) : Prop := (∀ l, w.esp.links l = none) ∧ w.esp.tcpServer = none

/-- the descriptor has a socket that `bos_socket` has made -/
def Bare (w : Host) (id : ℤ) (type : SockType) : Prop :=
  ∃ s k, w.fdSock id = some (s, k) ∧ k.type = type ∧ k.dev = none ∧ k.addr.domain = .afInet

/-- and that `bos_bind` has given a device -/
def Bound (w : Host) (id : ℤ) (type : SockType) : Prop :=
  ∃ s k, w.fdSock id = some (s, k) ∧ k.type = type ∧ k.dev ≠ none

/-- the number of commands of the configuration -/
def cmds (o : Opts) : ℕ := (configureCmds (mainStrs o) (mainCfg o)).length

/-- the module says OK to the first `n` commands -/
def Answers (p0 : State) (n : ℕ) : Prop := ∀ i < n, p0.host.itf.ans (p0.host.itf.waits + i) = .ok

/-- every command is answered with OK, a server has a stream socket, a client an address in 192.168.0.0/24 -/
def Online (p0 : State) : Prop :=
  Answers p0 (cmds p0.opts + 1) ∧
    if p0.opts.ip = 0 then p0.opts.type = .stream else p0.opts.ip &&& 0xffffff00 = 0xc0a80000

/-- behind the configuration -/
structure Configured (p0 p : State) : Prop where
  alone : p.threads = []
  blank : Blank p.host
  answers : Answers p0 (cmds p0.opts)
  ans : p.host.itf.ans = p0.host.itf.ans
  waits : p.host.itf.waits = p0.host.itf.waits + cmds p0.opts
  dev : ∃ v, p.host.devLst = [v] ∧ v.cfg = mainCfg p0.opts

/-- what holds at each place of the main thread -/
def Way (p0 p : State) : Prop :=
  match p.pc with
  | .configure => p.threads = [] ∧ Blank p.host ∧ p.host.itf = p0.host.itf
  | .socket => Configured p0 p
  | .bind sock => Configured p0 p ∧ p0.opts.ip = 0 ∧ Bare p.host sock p0.opts.type
  | .listen sock r => Configured p0 p ∧ p0.opts.ip = 0 ∧ r = 0 ∧ Bound p.host sock p0.opts.type
  | .connect sock => Configured p0 p ∧ p0.opts.ip ≠ 0 ∧ Bare p.host sock p0.opts.type
  | .accept _ | .accepted _ _ => Online p0 ∧ p0.opts.ip = 0
  | .connected _ | .prompt _ | .quit => Online p0 ∧ p0.opts.ip ≠ 0
  | .exit => True

/-- on the way to the loop -/
def Pc.starting : Pc → Bool
  | .configure | .socket | .bind _ | .listen _ _ | .connect _ => true
  | .accept _ | .accepted _ _ | .connected _ | .prompt _ | .quit | .exit => false

def Act.isInput : Act → Bool
  | .input _ => true
  | .main | .spawn _ | .thread _ | .event _ => false

structure Going (p0 p : State) : Prop where
  inv : Inv p
  opts : p.opts = p0.opts
  way : Way p0 p
  echo : p.threads ≠ [] → (p.arg.echo = true ↔ p0.opts.ip = 0)
  type : p.threads ≠ [] → p0.opts.ip = 0 → p0.opts.type = .stream

variable {p0 p q : State}

/-! ## Events before anything is connected -/

theorem handler_blank {w w' : Host} {e : Op} (hi : w.Inv) (hb : Blank w) (he : Op.isHandler e = true)
    (hs : step w e = some w') : Blank w' ∧ w'.itf = w.itf ∧ w'.devLst = w.devLst ∧ ∀ id, w'.fdSock id = w.fdSock id := by
  cases e <;> simp only [Op.isHandler, Bool.false_eq_true] at he
  · obtain ⟨i, s, k, _, hl, _⟩ := espRecv_ok (toOption_some hs)
    rw [hb.1 i] at hl
    cases hl
  · rcases espAccept_ok (toOption_some hs) with ⟨_, rfl⟩ | ⟨t, _, _, _, _, _, ht, _⟩
    · exact ⟨hb, rfl, rfl, fun _ => rfl⟩
    · rw [hb.2] at ht
      cases ht
  · obtain ⟨i, _, hd⟩ := espClosed_ok (toOption_some hs)
    have hsame : w.esp.setLink i none = w.esp := by
      have hlinks : (fun j => if j = i then none else w.esp.links j) = w.esp.links := by
        funext j
        rw [hb.1 j, ite_self]
      rw [Esp.setLink, hlinks]
    rw [hsame, hb.1 i] at hd
    rcases netdevSockDisconnect_ok hd with rfl | ⟨c, nd, hn, hdata, rfl⟩
    · exact ⟨hb, rfl, rfl, fun _ => rfl⟩
    · -- a node without a socket is found, and loses none
      have hnodes : w.fs.nodes.set c { nd with data := none } = w.fs.nodes := by
        funext x
        rw [Table.set_apply]
        split_ifs with hx
        · rw [hx, hn, ← hdata]
        · rfl
      refine ⟨hb, rfl, rfl, fun id => ?_⟩
      simp only [hnodes]

/-! ## The calls of the main thread -/

variable {w w' : Host} {id : ℤ} {type : SockType}

theorem sendCmds_line {cs : List (Bytes × List Arg)} (hcs : ∀ c ∈ cs, ∃ ws, render c.1 c.2 = .ok ws) {s s' : Serial}
    {r r' : ℤ} (h : sendCmds s r cs = .ok (r', s')) : s'.ans = s.ans ∧ s'.waits = s.waits + cs.length := by
  induction cs generalizing s r with
  | nil =>
    cases h
    exact ⟨rfl, rfl⟩
  | cons c cs ih =>
    obtain ⟨ws, hws⟩ := hcs c List.mem_cons_self
    simp only [sendCmds, sendCmd_sent hws] at h
    obtain ⟨hans, hwaits⟩ := ih (fun c hc => hcs c (List.mem_cons_of_mem _ hc)) h
    refine ⟨hans, ?_⟩
    rw [hwaits, Serial.sent_waits, List.length_cons]
    omega

/-- a configuration that comes back with 0 has got an OK for each command -/
theorem configure_result {v : Netdev} (hv : w.devLst = [v]) {o : Opts} {r : ℤ}
    (hc : bosNetConfigure w (mainStrs o) (mainCfg o) sizeofInetDevCfg = .ok (r, w')) :
    w'.esp = w.esp ∧ w'.itf.ans = w.itf.ans ∧ w'.itf.waits = w.itf.waits + cmds o ∧
      (∃ v, w'.devLst = [v] ∧ v.cfg = mainCfg o) ∧ (r = 0 ↔ ∀ i < cmds o, w.itf.ans (w.itf.waits + i) = .ok) := by
  have hsize : sizeofInetDevCfg = domainCfgSize v.domain := by cases v.domain; rfl
  have hm : (mainCfg o).devMode ≠ none := by
    rw [InetDevCfg.devMode, mainCfg]
    cases o.devMode <;> decide
  obtain ⟨r', s', hsend, hz⟩ := sendCmds_cases (render_configure (mainStrs o) (mainCfg o)) w.itf (r := 0) fun _ => rfl
  obtain ⟨hans, hwaits⟩ := sendCmds_line (render_configure (mainStrs o) (mainCfg o)) hsend
  simp only [bosNetConfigure, hv] at hc
  rw [if_neg (not_not.2 hsize)] at hc
  simp only [espConfigure, hsend, bind, Except.bind, if_neg hm] at hc
  obtain ⟨rfl, rfl⟩ := ok_pair.1 hc
  exact ⟨rfl, hans, hwaits, ⟨_, rfl, rfl⟩, hz.trans (and_iff_right rfl)⟩

theorem socket_result (hi : w.Inv) (hs : bosSocket w .afInet type = .ok (id, w')) :
    Bare w' id type ∧ w'.esp = w.esp ∧ w'.itf = w.itf ∧ w'.devLst = w.devLst := by
  obtain ⟨⟨s, w1⟩, ha, hgo⟩ := bind_ok.1 hs
  obtain ⟨⟨s', k⟩, hk, ho⟩ := bind_ok.1 hgo
  obtain ⟨h1, hk⟩ := Host.sock_ok.1 hk
  cases h1
  have hopen := openFd_opened (hi.socketMade ha hk) ho
  have hid := hopen.fdSock_new (hi.socketMade ha hk) (Host.setSock_self _ _ _)
  obtain ⟨n, fs1, fd, fs2, _, _, _, rfl⟩ := openFd_ok ho
  obtain ⟨k', n', rfl, _, ht, hd, _, _, _, rfl⟩ := netdevSockAlloc_ok ha
  obtain rfl : k' = k := Option.some.inj ((Host.setSock_self _ _ _).symm.trans hk)
  exact ⟨⟨_, _, hid, ht, hd, rfl⟩, rfl, rfl, rfl⟩

/-- the device of the program matches an address -/
theorem matchDev_main {v : Netdev} (hv : w.devLst = [v]) {o : Opts} (hcfg : v.cfg = mainCfg o) (a : UInt32) :
    matchDev w (mainAddr o a) sizeofSockAddrInet = if a = 0 ∨ a &&& 0xffffff00 = 0xc0a80000 then some v else none := by
  have hip : (mainCfg o).ip = 0xc0a80001 := by
    show inetAddr (str "192.168.0.1") = 0xc0a80001
    decide +kernel
  have hmask : (mainCfg o).netmask = 0xffffff00 := by
    show inetAddr (str "255.255.255.0") = 0xffffff00
    decide +kernel
  have hdomain : v.domain = .afInet := by cases v.domain; rfl
  have hnet : (0xc0a80001 : UInt32) &&& 0xffffff00 = 0xc0a80000 := by decide
  have hmatch : inetMatchAddr v.cfg (mainAddr o a) sizeofSockAddrInet = true ↔ a = 0 ∨ a &&& 0xffffff00 = 0xc0a80000 := by
    rw [hcfg]
    simp only [inetMatchAddr, hip, hmask, hnet, mainAddr, inetAddrAny, ne_eq, not_true_eq_false, if_false]
    split_ifs with ha
    · simp [ha]
    · simp [ha, eq_comm]
  have hfind : decide (v.domain = (mainAddr o a).domain ∧ inetMatchAddr v.cfg (mainAddr o a) sizeofSockAddrInet = true) =
      decide (a = 0 ∨ a &&& 0xffffff00 = 0xc0a80000) := by
    simp only [hdomain, mainAddr, true_and]
    exact decide_eq_decide.2 hmatch
  rw [matchDev, hv, List.find?_cons, hfind]
  by_cases ha : a = 0 ∨ a &&& 0xffffff00 = 0xc0a80000
  · rw [if_pos ha, decide_eq_true ha]
  · rw [if_neg ha, decide_eq_false ha, List.find?_nil]

/-- any address fits to bind to -/
theorem bind_result {v : Netdev} (hv : w.devLst = [v]) {o : Opts} (hcfg : v.cfg = mainCfg o) (hbare : Bare w id type)
    {r : ℤ} (hb : bosBind w id (mainAddr o inetAddrAny) sizeofSockAddrInet = .ok (r, w')) :
    r = 0 ∧ Bound w' id type ∧ w'.esp = w.esp ∧ w'.itf = w.itf ∧ w'.devLst = w.devLst := by
  obtain ⟨s, k, hid, ht, _, hdomain⟩ := hbare
  have hmatch : matchDev w (mainAddr o inetAddrAny) sizeofSockAddrInet = some v :=
    (matchDev_main hv hcfg inetAddrAny).trans (if_pos (Or.inl rfl))
  obtain ⟨data, hd, hb⟩ := bind_ok.1 hb
  rw [fdData_of_fdSock hid] at hd
  cases hd
  rw [assignNetdev_eq (sock_of_fdSock hid), if_pos (by rw [hdomain]; rfl), hmatch] at hb
  obtain ⟨rfl, rfl⟩ := ok_pair.1 hb
  obtain ⟨fd, nd, hf, hn, hnd, _⟩ := Host.fdSock_some.1 hid
  exact ⟨rfl, ⟨s, _, Host.fdSock_some.2 ⟨fd, nd, hf, hn, hnd, w.setSock_self s _⟩, ht, Option.some_ne_none _⟩, rfl, rfl, rfl⟩

theorem listen_result (hi : w.Inv) (hbound : Bound w id type) (hserver : w.esp.tcpServer = none) {r : ℤ}
    (hl : bosListen w id 0 = .ok (r, w')) : r = 0 ↔ type = .stream ∧ w.itf.ans w.itf.waits = .ok := by
  obtain ⟨s, k, hid, rfl, hdev⟩ := hbound
  simp only [bosListen, fdData_of_fdSock hid, sock_of_live (sock_of_fdSock hid), bind, Except.bind] at hl
  by_cases ht : k.type = .stream
  · obtain ⟨d, hd⟩ := Option.ne_none_iff_exists'.1 hdev
    obtain ⟨v, hv, hfull⟩ := hi.dev_ok (sock_of_fdSock hid) hd
    have hops : v.ops.listen = true := by rw [hfull]
    simp only [ht, hdev, ne_eq, not_true_eq_false, if_false, hv, hops, if_true] at hl
    rcases espListen_cases (sock_of_fdSock hid) hv 0 with ⟨hx | hx, _⟩ | ⟨ws, _, _, he⟩
    · exact absurd rfl hx
    · exact absurd hserver hx
    · rw [he] at hl
      split_ifs at hl with hans
      · obtain ⟨rfl, _⟩ := ok_pair.1 hl
        exact iff_of_true rfl ⟨ht, hans⟩
      · obtain ⟨rfl, _⟩ := ok_pair.1 hl
        exact iff_of_false (by decide) fun hx => hans hx.2
  · rw [if_pos ht] at hl
    obtain ⟨rfl, _⟩ := ok_pair.1 hl
    exact iff_of_false (by decide) fun hx => ht hx.1

/-- a connect finds its device by the network, and has the first link -/
theorem connect_result (hi : w.Inv) {v : Netdev} (hv : w.devLst = [v]) {o : Opts} (hcfg : v.cfg = mainCfg o)
    (hblank : Blank w) (hbare : Bare w id type) (hip : o.ip ≠ 0) {r : ℤ}
    (hc : bosConnect w id (mainAddr o o.ip) sizeofSockAddrInet = .ok (r, w')) :
    r = 0 ↔ o.ip &&& 0xffffff00 = 0xc0a80000 ∧ w.itf.ans w.itf.waits = .ok := by
  obtain ⟨s, k, hid, ht, hdev, hdomain⟩ := hbare
  rw [bosConnect_eq hi hid, if_pos ⟨hdev, by rw [hdomain]; rfl⟩, matchDev_main hv hcfg] at hc
  by_cases hnet : o.ip &&& 0xffffff00 = 0xc0a80000
  · rw [if_pos (Or.inr hnet)] at hc
    have hmem : v ∈ w.devLst := by rw [hv]; exact List.mem_singleton_self v
    have hset := w.setSock_self s { k with dev := some v.self, addr := mainAddr o o.ip }
    obtain ⟨v', hv'⟩ :=
      Host.dev_of_mem (w := w.setSock s { k with dev := some v.self, addr := mainAddr o o.ip }) hmem
    rcases espConnect_cases hset hv' with ⟨hnone, _⟩ | ⟨l, ws, _, he⟩
    · exact absurd (decide_eq_true (hblank.1 0)) (List.find?_eq_none.1 hnone 0 (List.mem_finRange 0))
    · simp only [he] at hc
      split_ifs at hc with hans
      · obtain ⟨rfl, _⟩ := ok_pair.1 hc
        exact iff_of_true rfl ⟨hnet, hans⟩
      · obtain ⟨rfl, _⟩ := ok_pair.1 hc
        exact iff_of_false (by decide) fun hx => hans hx.2
  · rw [if_neg (by simp [hip, hnet])] at hc
    obtain ⟨rfl, _⟩ := ok_pair.1 hc
    exact iff_of_false (by decide) fun hx => hnet hx.1

/-! ## Steps -/

theorem online_iff {p0 : State} : Online p0 ↔ Answers p0 (cmds p0.opts) ∧
    p0.host.itf.ans (p0.host.itf.waits + cmds p0.opts) = .ok ∧
    if p0.opts.ip = 0 then p0.opts.type = .stream else p0.opts.ip &&& 0xffffff00 = 0xc0a80000 := by
  have hsplit : Answers p0 (cmds p0.opts + 1) ↔ Answers p0 (cmds p0.opts) ∧
      p0.host.itf.ans (p0.host.itf.waits + cmds p0.opts) = .ok := by
    constructor
    · exact fun h => ⟨fun i hi => h i (by omega), h _ (by omega)⟩
    · rintro ⟨h, hlast⟩ i hi
      rcases Nat.lt_succ_iff_lt_or_eq.1 hi with hi | rfl
      · exact h i hi
      · exact hlast
  rw [Online, hsplit, and_assoc]

theorem Configured.next (h : Configured p0 p) {w : Host} {pc : Pc} (hesp : w.esp = p.host.esp)
    (hitf : w.itf = p.host.itf) (hdev : w.devLst = p.host.devLst) : Configured p0 { p with host := w, pc := pc } where
  alone := h.alone
  blank := by rw [Blank, hesp]; exact h.blank
  answers := h.answers
  ans := by rw [hitf]; exact h.ans
  waits := by rw [hitf]; exact h.waits
  dev := by rw [hdev]; exact h.dev

/-- the main thread goes on, or stops where it takes more to come up -/
theorem main_way (h : Going p0 p) (hs : p.main = some q) :
    Way p0 q ∧ (q.pc = .exit → p.pc = .quit ∨ ¬ Online p0) := by
  have hopts := h.opts
  have hway := h.way
  obtain ⟨host, opts, pc, arg, threads⟩ := p
  dsimp only at hopts
  subst hopts
  cases pc with
  | configure =>
    obtain ⟨halone, hblank, hitf⟩ := hway
    obtain ⟨r, w, hc, rfl⟩ := toOption_map_some hs
    obtain ⟨v, hv⟩ := one_dev h.inv.reach
    obtain ⟨hesp, hans, hwaits, hdev, hiff⟩ := configure_result hv hc
    rw [hitf] at hans hwaits hiff
    have hconf : Answers p0 (cmds p0.opts) → Configured p0 ⟨w, p0.opts, .socket, arg, threads⟩ := fun ha =>
      ⟨halone, by rw [Blank, hesp]; exact hblank, ha, hans, hwaits, hdev⟩
    dsimp only
    split_ifs with hr
    · exact ⟨trivial, fun _ => Or.inr fun ho => hr (hiff.2 (online_iff.1 ho).1)⟩
    · exact ⟨hconf (hiff.1 (not_not.1 hr)), nofun⟩
  | socket =>
    obtain ⟨r, w, hc, rfl⟩ := toOption_map_some hs
    obtain ⟨hbare, hesp, hitf, hdev⟩ := socket_result h.inv.reach.inv hc
    dsimp only
    split_ifs with hip
    · exact ⟨⟨hway.next hesp hitf hdev, hip, hbare⟩, nofun⟩
    · exact ⟨⟨hway.next hesp hitf hdev, hip, hbare⟩, nofun⟩
  | bind sock =>
    obtain ⟨hconf, hip, hbare⟩ := hway
    obtain ⟨r, w, hc, rfl⟩ := toOption_map_some hs
    obtain ⟨v, hv, hcfg⟩ := hconf.dev
    obtain ⟨rfl, hbound, hesp, hitf, hdev⟩ := bind_result hv hcfg hbare hc
    exact ⟨⟨hconf.next hesp hitf hdev, hip, rfl, hbound⟩, nofun⟩
  | listen sock r0 =>
    obtain ⟨hconf, hip, rfl, hbound⟩ := hway
    obtain ⟨r, w, hc, rfl⟩ := toOption_map_some hs
    have hiff := listen_result h.inv.reach.inv hbound hconf.blank.2 hc
    rw [hconf.ans, hconf.waits] at hiff
    have honline : intOr 0 r = 0 ↔ Online p0 := by
      have hzero : intOr 0 r = 0 ↔ r = 0 := by
        obtain ⟨_, _, _, ⟨rfl, _⟩ | ⟨rfl, _⟩⟩ := bosListen_ok hc <;> decide
      rw [hzero, hiff, online_iff, if_pos hip]
      exact ⟨fun hx => ⟨hconf.answers, hx.2, hx.1⟩, fun hx => ⟨hx.2.2, hx.2.1⟩⟩
    dsimp only
    split_ifs with hr
    · exact ⟨trivial, fun _ => Or.inr (mt honline.2 hr)⟩
    · exact ⟨⟨honline.1 (not_not.1 hr), hip⟩, nofun⟩
  | connect sock =>
    obtain ⟨hconf, hip, hbare⟩ := hway
    obtain ⟨r, w, hc, rfl⟩ := toOption_map_some hs
    obtain ⟨v, hv, hcfg⟩ := hconf.dev
    have hiff := connect_result h.inv.reach.inv hv hcfg hconf.blank hbare hip hc
    rw [hconf.ans, hconf.waits] at hiff
    have honline : r = 0 ↔ Online p0 := by
      rw [hiff, online_iff, if_neg hip]
      exact ⟨fun hx => ⟨hconf.answers, hx.2, hx.1⟩, fun hx => ⟨hx.2.2, hx.2.1⟩⟩
    dsimp only
    split_ifs with hr
    · exact ⟨trivial, fun _ => Or.inr (mt honline.2 hr)⟩
    · exact ⟨⟨honline.1 (not_not.1 hr), hip⟩, nofun⟩
  | accept sock =>
    obtain ⟨r, w, hc, rfl⟩ := toOption_map_some hs
    dsimp only
    split_ifs
    · exact ⟨hway, nofun⟩
    · exact ⟨hway, nofun⟩
  | quit =>
    cases hs
    exact ⟨trivial, fun _ => Or.inl rfl⟩
  | accepted | connected | prompt | exit => cases hs

/-- behind the start only the place of the main thread matters -/
theorem Way.same (h : Way p0 p) (hstart : Pc.starting p.pc = false) (hq : q.pc = p.pc) : Way p0 q := by
  unfold Way at h ⊢
  rw [hq]
  cases hpc : p.pc <;> rw [hpc] at h hstart <;> first | exact h | cases hstart

/-- an event on the way changes nothing -/
theorem event_way (h : Going p0 p) {e : Op} {w : Host} (he : Op.isHandler e = true) (hs : step p.host e = some w) :
    Way p0 { p with host := w } := by
  have hway := h.way
  have hquiet : Blank p.host → Blank w ∧ w.itf = p.host.itf ∧ w.devLst = p.host.devLst ∧
      ∀ id, w.fdSock id = p.host.fdSock id := fun hb => handler_blank h.inv.reach.inv hb he hs
  have hconf : Configured p0 p → Configured p0 { p with host := w } := fun hc => by
    obtain ⟨hb, hitf, hdev, _⟩ := hquiet hc.blank
    exact ⟨hc.alone, hb, hc.answers, hitf ▸ hc.ans, hitf ▸ hc.waits, hdev ▸ hc.dev⟩
  obtain ⟨host, opts, pc, arg, threads⟩ := p
  cases pc with
  | configure =>
    obtain ⟨halone, hblank, hitf⟩ := hway
    obtain ⟨hb, hitf', _⟩ := hquiet hblank
    exact ⟨halone, hb, hitf'.trans hitf⟩
  | socket => exact hconf hway
  | bind sock =>
    obtain ⟨hc, hip, hbare⟩ := hway
    refine ⟨hconf hc, hip, ?_⟩
    rw [Bare, (hquiet hc.blank).2.2.2]
    exact hbare
  | listen sock r =>
    obtain ⟨hc, hip, hr, hbound⟩ := hway
    refine ⟨hconf hc, hip, hr, ?_⟩
    rw [Bound, (hquiet hc.blank).2.2.2]
    exact hbound
  | connect sock =>
    obtain ⟨hc, hip, hbare⟩ := hway
    refine ⟨hconf hc, hip, ?_⟩
    rw [Bare, (hquiet hc.blank).2.2.2]
    exact hbare
  | accept | accepted | connected | prompt | quit | exit => exact hway

/-- while a thread runs, the start is over -/
theorem Going.started (h : Going p0 p) (hne : p.threads ≠ []) : Pc.starting p.pc = false := by
  have hway := h.way
  unfold Way at hway
  cases hpc : p.pc <;> rw [hpc] at hway
  case configure => exact absurd hway.1 hne
  case socket => exact absurd hway.alone hne
  case bind | listen | connect => exact absurd hway.1.alone hne
  all_goals rfl

theorem spawn_going (h : Going p0 p) {ok : Bool} (hs : p.spawn ok = some q) : Going p0 q ∧ q.pc ≠ .exit := by
  have hway := h.way
  have hi := spawn_inv h.inv hs
  unfold State.spawn at hs
  unfold Way at hway
  split at hs
  · rename_i sock client hpc
    rw [hpc] at hway
    cases hs
    have htype := (online_iff.1 hway.1).2.2
    rw [if_pos hway.2] at htype
    exact ⟨⟨hi, h.opts, hway, fun _ => iff_of_true rfl hway.2, fun _ _ => htype⟩, by simp [State.handOver]⟩
  · rename_i sock hpc
    rw [hpc] at hway
    cases hs
    exact ⟨⟨hi, h.opts, hway, fun _ => iff_of_false (by simp [State.handOver]) hway.2, fun _ hip => absurd hip hway.2⟩,
      by simp [State.handOver]⟩
  · cases hs

/-- **Every step keeps to the way**, and the main thread leaves it only when it quits or cannot come up. -/
theorem next_way {a : Act} (h : Going p0 p) (hs : next p a = some q) :
    Going p0 q ∧ (q.pc = .exit → p.pc = .quit ∨ ¬ Online p0) := by
  have hi := next_inv p a q h.inv hs
  obtain ⟨hexit, hact⟩ := next_does hs
  cases a with
  | main =>
    obtain ⟨hframe, _⟩ := main_frame hact
    obtain ⟨hway, hstop⟩ := main_way h hact
    rw [hframe] at hi hway ⊢
    exact ⟨⟨hi, h.opts, hway, h.echo, h.type⟩, hstop⟩
  | spawn ok =>
    obtain ⟨hq, hpc⟩ := spawn_going h hact
    exact ⟨hq, fun hx => absurd hx hpc⟩
  | input line =>
    obtain ⟨hframe, ⟨sock, hpc, hqpc⟩, _⟩ := input_frame hact
    have hway : Way p0 q := by
      have hold := h.way
      unfold Way at hold ⊢
      rw [hpc] at hold
      rcases hqpc with hx | hx <;> rw [hx] <;> exact hold
    rw [hframe] at hi hway ⊢
    refine ⟨⟨hi, h.opts, hway, h.echo, h.type⟩, fun hx => ?_⟩
    rcases hqpc with hy | hy <;> rw [hy] at hx <;> cases hx
  | thread i =>
    obtain ⟨th, th', hth, hframe, _⟩ := thread_frame hact
    have hne : p.threads ≠ [] := List.ne_nil_of_mem (List.mem_of_getElem? hth)
    have hqpc : q.pc = p.pc := by rw [hframe]; rfl
    have hway : Way p0 q := h.way.same (h.started hne) hqpc
    refine ⟨⟨hi, ?_, hway, fun _ => ?_, fun _ => h.type hne⟩, fun hx => absurd (hqpc ▸ hx) hexit⟩
    · rw [hframe]
      exact h.opts
    · rw [hframe]
      exact h.echo hne
  | event e =>
    obtain ⟨he, w, hw, rfl⟩ := hact
    exact ⟨⟨hi, h.opts, event_way h he hw, h.echo, h.type⟩, fun hx => absurd hx hexit⟩

/-! ## Runs -/

theorem launch_going {given : List Given} {rest : ℕ} {ok : ℕ → Bool} {junk : Addr → Junk} {ans : ℕ → Res} {tty : Bool}
    (hl : launch given rest ok junk ans tty = some p0) : Going p0 p0 ∧ p0.pc = .configure := by
  have hi := launch_inv hl
  obtain ⟨o, _, hl⟩ := Option.bind_eq_some_iff.1 hl
  obtain ⟨w, hw, rfl⟩ := Option.map_eq_some_iff.1 hl
  have hesp := (boot_booted hw).esp
  have hblank : Blank w := by
    rw [Blank, hesp]
    exact ⟨fun _ => rfl, rfl⟩
  exact ⟨⟨hi, rfl, ⟨rfl, hblank, rfl⟩, fun hne => absurd rfl hne, fun hne => absurd rfl hne⟩, rfl⟩

/-- only a line that is typed ends the prompt -/
theorem quit_input {a : Act} (hs : next p a = some q) (hq : q.pc = .quit) : p.pc = .quit ∨ Act.isInput a = true := by
  obtain ⟨_, hact⟩ := next_does hs
  cases a with
  | main =>
    obtain ⟨host, opts, pc, arg, threads⟩ := p
    cases pc with
    | quit => exact Or.inl rfl
    | accepted | connected | prompt | exit => cases hact
    | bind =>
      obtain ⟨r, w, _, rfl⟩ := toOption_map_some hact
      cases hq
    | _ =>
      obtain ⟨r, w, _, rfl⟩ := toOption_map_some hact
      dsimp only at hq
      split_ifs at hq
  | spawn ok =>
    exact absurd hq (by
      simp only [Act.Does, State.spawn] at hact
      split at hact <;> cases hact <;> simp [State.handOver])
  | input line => exact Or.inr rfl
  | thread i =>
    obtain ⟨_, _, _, hframe, _⟩ := thread_frame hact
    rw [hframe] at hq
    exact Or.inl hq
  | event e =>
    obtain ⟨_, w, _, rfl⟩ := hact
    exact Or.inl hq

/-- **What it takes to come up.** In every run in which nothing is typed, whatever the module and the threads do: a main
thread that is past its start is in its loop, or at its prompt, exactly when the module said OK to every command, and a
server has a stream socket, a client an address in 192.168.0.0/24. -/
theorem comes_up {given : List Given} {rest : ℕ} {ok : ℕ → Bool} {junk : Addr → Junk} {ans : ℕ → Res} {tty : Bool}
    (hl : launch given rest ok junk ans tty = some p0) {acts : List Act} (hin : ∀ a ∈ acts, Act.isInput a = false)
    (hr : run next p0 acts = some p) (hpast : Pc.starting p.pc = false) : p.pc ≠ .exit ↔ Online p0 := by
  obtain ⟨h0, hpc0⟩ := launch_going hl
  have hstep : ∀ s a s', (Going p0 s ∧ s.pc ≠ .quit ∧ (s.pc = .exit → ¬ Online p0)) → Act.isInput a = false →
      next s a = some s' → Going p0 s' ∧ s'.pc ≠ .quit ∧ (s'.pc = .exit → ¬ Online p0) := by
    rintro s a s' ⟨h, hquit, _⟩ ha hs
    obtain ⟨h', hexit⟩ := next_way h hs
    refine ⟨h', fun hq => ?_, fun hx => (hexit hx).resolve_left hquit⟩
    rcases quit_input hs hq with hx | hx
    · exact hquit hx
    · rw [ha] at hx
      cases hx
  have hguard : Guarded next (fun _ a => Act.isInput a = false) p0 acts :=
    (Guarded.and (g := fun _ _ => True) hin (guarded_true p0 acts)).mono fun _ _ hx => hx.1
  obtain ⟨h, hquit, hexit⟩ := guarded_inv_run hstep ⟨h0, by rw [hpc0]; exact ⟨nofun, nofun⟩⟩ hguard hr
  refine ⟨fun hne => ?_, fun ho hx => hexit hx ho⟩
  have hway := h.way
  unfold Way at hway
  cases hpc : p.pc <;> rw [hpc] at hway hpast hne hquit
  case accept | accepted | connected | prompt => exact hway.1
  case quit => exact absurd rfl hquit
  case exit => exact absurd rfl hne
  all_goals cases hpast

/-- a client of 192.168.0.7, or of 10.0.0.7 -/
def sampleLaunch (a : UInt32) : Option State :=
  launch [(⟨some a, 80, []⟩ : Dest).given] 0 (fun _ => true) (fun _ => blankJunk) (fun _ => .ok) true

def sampleStart : List Act := [.main, .event (.evAccept 0 samplePeer), .main, .main]

/-- the first one has its connection; the second one has stopped, though the module says OK to everything -/
theorem comes_up_sample :
    (∃ p0 p, sampleLaunch 0xc0a80007 = some p0 ∧ run next p0 sampleStart = some p ∧ p.pc = .connected 1 ∧ Online p0) ∧
    ∃ p0 p, sampleLaunch 0x0a000007 = some p0 ∧ run next p0 sampleStart = some p ∧ p.pc = .exit ∧ ¬ Online p0 := by
  have hrun : ((sampleLaunch 0xc0a80007).bind fun p0 => run next p0 sampleStart).map State.pc = some (.connected 1) ∧
      ((sampleLaunch 0x0a000007).bind fun p0 => run next p0 sampleStart).map State.pc = some .exit := by
    decide +kernel
  obtain ⟨hup, hdown⟩ := hrun
  obtain ⟨p, hp, hpc⟩ := Option.map_eq_some_iff.1 hup
  obtain ⟨p0, hl, hr⟩ := Option.bind_eq_some_iff.1 hp
  obtain ⟨u, hu, hupc⟩ := Option.map_eq_some_iff.1 hdown
  obtain ⟨u0, hl', hr'⟩ := Option.bind_eq_some_iff.1 hu
  have hin : ∀ a ∈ sampleStart, Act.isInput a = false := by simp [sampleStart, Act.isInput]
  refine ⟨⟨p0, p, hl, hr, hpc, ?_⟩, u0, u, hl', hr', hupc, ?_⟩
  · exact (comes_up hl hin hr (by rw [hpc]; rfl)).1 (by simp [hpc])
  · exact fun ho => (comes_up hl' hin hr' (by rw [hupc]; rfl)).2 ho hupc

end EspHostdriver.Startup
