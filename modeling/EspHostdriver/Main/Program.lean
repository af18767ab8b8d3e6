/-
Lean model of the program (`main/main.c`): the main thread and the threads that read from sockets, on the host.

The main thread configures the device and opens a socket; it becomes a server that starts a thread for each client, or a
client that sends what is typed. A step is one call and what the thread does up to its next one. The handlers of the
reader come in between (`event`). A step that would follow a null pointer, read behind a datagram or store behind an
array is not possible.

- `next` is the machine, `Act.Ready` says which threads can go on.
- `known_step`, `lone_step`: a descriptor stays in the table, and keeps its socket while that is on no link.
- `Inv`: every descriptor that a thread holds is in the table, and the socket of the main thread is on no link before it
  is connected. `next_inv`: every step keeps this.
-/
import EspHostdriver.Main.Opt
import EspHostdriver.Net.Ownership

namespace EspHostdriver.Program

/-! ## Model -/

/-- where the main thread is; `quit` is between `bos_close` and `pthread_cancel` -/
inductive Pc where
  | configure
  | socket
  | bind (sock : ℤ)
  | listen (sock r : ℤ)
  | accept (sock : ℤ)
  | accepted (sock client : ℤ)
  | connect (sock : ℤ)
  | connected (sock : ℤ)
  | prompt (sock : ℤ)
  | quit
  | exit
deriving DecidableEq

/-- where a `recv_thread` is: before it reads its argument, in its loop, with a text to send, behind the loop -/
inductive ThreadPc where
  | start
  | recv
  | reply (text : Bytes)
  | leave
  | gone
deriving DecidableEq

/-- the locals of `recv_thread`; `addr` is the memory that `bos_recvfrom` copies to -/
structure Thread where
  sock : ℤ
  addr : Bytes
  addrLen : ℕ
  pc : ThreadPc
deriving DecidableEq

/-- `recv_thread_arg_t` -/
structure ThreadArg where
  echo : Bool
  sock : ℤ
deriving DecidableEq

/-- `arg` is the one argument that all threads get a pointer to -/
structure State where
  host : Host
  opts : Opts
  pc : Pc
  arg : ThreadArg
  threads : List Thread

/-- `event` is a handler that the reader calls; `spawn` says whether `pthread_create` has made the thread; `input` is
what `readline` returns -/
inductive Act where
  | main
  | spawn (ok : Bool)
  | input (line : Option Bytes)
  | thread (i : ℕ)
  | event (e : Op)

/-- the places of the strings that the configuration points to -/
def ssidAt : Addr := 0
def passwordAt : Addr := 1
def hostnameAt : Addr := 2

/-- what lies there -/
def mainStrs (o : Opts) : Addr → Bytes
  | 0 => o.ssid
  | 1 => o.password
  | _ => str "not-supported"

def mainCfg (o : Opts) : InetDevCfg where
  mode := o.devMode.val
  ssid := some ssidAt
  hostname := some hostnameAt
  dhcp := true
  ip := inetAddr (str "192.168.0.1")
  gw := inetAddr (str "192.168.0.1")
  netmask := inetAddr (str "255.255.255.0")
  enc := .wpa2Psk
  password := some passwordAt

/-- an address with `opts.port`, cut down to 16 bits -/
def mainAddr (o : Opts) (a : UInt32) : SockAddrInet := ⟨.afInet, ⟨a, UInt16.ofInt o.port, 0⟩⟩

/-- the address that the memory holds -/
def addrOfBytes (m : Bytes) : SockAddrInet :=
  ⟨.afInet, ⟨rd32 (m.drop 4), UInt16.ofNat ((m.getD 8 0).toNat + 2 ^ 8 * (m.getD 9 0).toNat),
    UInt16.ofNat ((m.getD 10 0).toNat + 2 ^ 8 * (m.getD 11 0).toNat)⟩⟩

def State.main (p : State) : Option State :=
  match p.pc with
  | .configure =>
    (bosNetConfigure p.host (mainStrs p.opts) (mainCfg p.opts) sizeofInetDevCfg).toOption.map fun (r, w) =>
      { p with host := w, pc := if r ≠ 0 then .exit else .socket }
  | .socket => (bosSocket p.host .afInet p.opts.type).toOption.map fun (sock, w) =>
      { p with host := w, pc := if p.opts.ip = 0 then .bind sock else .connect sock }
  | .bind sock => (bosBind p.host sock (mainAddr p.opts inetAddrAny) sizeofSockAddrInet).toOption.map fun (r, w) =>
      { p with host := w, pc := .listen sock r }
  | .listen sock r0 => (bosListen p.host sock 0).toOption.map fun (r, w) =>
      { p with host := w, pc := if intOr r0 r ≠ 0 then .exit else .accept sock }
  | .accept sock => (bosAccept p.host sock (some sizeofSockAddrInet)).toOption.map fun (r, w) =>
      { p with host := w, pc := if r.val ≤ 0 then .accept sock else .accepted sock r.val }
  | .connect sock => (bosConnect p.host sock (mainAddr p.opts p.opts.ip) sizeofSockAddrInet).toOption.map fun (r, w) =>
      { p with host := w, pc := if r ≠ 0 then .exit else .connected sock }
  -- `pthread_cancel`, and the end of `main`
  | .quit => some { p with pc := .exit }
  | .accepted _ _ | .connected _ | .prompt _ | .exit => none

/-- a thread with its argument, or none when `pthread_create` fails -/
def State.handOver (p : State) (arg : ThreadArg) (pc : Pc) (ok : Bool) : State :=
  { p with arg := arg, pc := pc, threads := if ok then p.threads ++ [⟨0, [], 0, .start⟩] else p.threads }

def State.spawn (p : State) (ok : Bool) : Option State :=
  match p.pc with
  | .accepted sock client => some (p.handOver ⟨true, client⟩ (.accept sock) ok)
  | .connected sock => some (p.handOver ⟨false, sock⟩ (.prompt sock) ok)
  | _ => none

def State.input (p : State) (line : Option Bytes) : Option State :=
  match p.pc, line with
  | .prompt sock, some m =>
    if cstr m = str "q" then
      (bosClose p.host sock).toOption.map fun (_, w) => { p with host := w, pc := .quit }
    else
      (bosSend p.host sock m (cstr m).length).toOption.map fun (_, w) => { p with host := w }
  -- `strcmp` gets the result of `readline` unchecked
  | _, _ => none

/-- `snprintf(s, 16, "ack %d", strlen(s))` behind a read of `data`: the newline at its end is cut off -/
def ackText (data : Bytes) : Bytes :=
  str "ack " ++ dec (cstr (if data.getLastD 0 = 10 then data.dropLast else data)).length

/-- the 17th byte of the array of 16 would be written -/
def overruns (data : Bytes) : Bool := data.length = 16 ∧ data.getLastD 0 ≠ 10

/-- behind `bos_recvfrom`; `none` when the terminator lands behind the array -/
def Thread.received (th : Thread) (echo : Bool) (r : Ret) : Option Thread :=
  let th := match r.addr with
    | some (b, n) => { th with addr := b, addrLen := n }
    | none => th
  if r.val < 0 then some { th with pc := .leave }
  else if r.val = 0 then some th
  else if overruns r.data then none
  else some (if echo then { th with pc := .reply (ackText r.data) } else th)

def State.setThread (p : State) (i : ℕ) (th : Thread) : State := { p with threads := p.threads.set i th }

def State.thread (p : State) (i : ℕ) : Option State :=
  (p.threads[i]?).bind fun th =>
    match th.pc with
    | .start => some (p.setThread i { th with sock := p.arg.sock, addrLen := sizeofSockAddrInet, pc := .recv })
    | .recv => (bosRecvfrom p.host th.sock 16 (some th.addrLen)).toOption.bind fun (r, w) =>
        (th.received p.arg.echo r).map fun th => { p.setThread i th with host := w }
    | .reply text =>
      let send := match p.opts.type with
        | .dgram => bosSendto p.host th.sock (text ++ [0]) text.length (some (addrOfBytes th.addr)) th.addrLen
        | .stream => bosSend p.host th.sock (text ++ [0]) text.length
      send.toOption.map fun (_, w) => { p.setThread i { th with pc := .recv } with host := w }
    | .leave => (bosClose p.host th.sock).toOption.map fun (_, w) =>
        { p.setThread i { th with pc := .gone } with host := w }
    | .gone => none

/-- what the reader does to the host -/
def Op.isHandler : Op → Bool
  | .evRecv _ _ _ | .evAccept _ _ | .evClosed _ => true
  | _ => false

/-- the thread can go on; nothing goes on when `main` has returned -/
def Act.Ready (p : State) : Act → Prop
  | .main => p.pc ≠ .exit ∧ ∀ sock, p.pc ≠ .prompt sock ∧ p.pc ≠ .connected sock ∧ ∀ c, p.pc ≠ .accepted sock c
  | .spawn _ => ∃ sock, p.pc = .connected sock ∨ ∃ c, p.pc = .accepted sock c
  | .input _ => ∃ sock, p.pc = .prompt sock
  | .thread i => p.pc ≠ .exit ∧ ∃ th ∈ p.threads[i]?, th.pc ≠ .gone
  | .event e => p.pc ≠ .exit ∧ Op.isHandler e = true

def next (p : State) (a : Act) : Option State :=
  if p.pc = .exit then none
  else match a with
    | .main => p.main
    | .spawn ok => p.spawn ok
    | .input line => p.input line
    | .thread i => p.thread i
    | .event e => if Op.isHandler e then (step p.host e).map fun w => { p with host := w } else none

/-- a program whose options are read and whose device came up -/
def launch (given : List Given) (rest : ℕ) (ok : ℕ → Bool) (junk : Addr → Junk) (ans : ℕ → Res) (tty : Bool) :
    Option State :=
  (parseOpt given rest).bind fun o =>
    (boot ok junk ans tty).map fun w => ⟨w, o, .configure, ⟨false, 0⟩, []⟩

/-! ## Descriptors over a step of the host -/

section Descriptors

variable {w w' : Host} {op : Op} {id : ℤ}

/-- the descriptor is in the table -/
def Known (w : Host) (id : ℤ) : Prop := fsFdAcquire w.fs id ≠ none

/-- the descriptor has a socket that is on no link -/
def Lone (w : Host) (id : ℤ) : Prop := ∃ s k, w.fdSock id = some (s, k) ∧ ∀ l, w.esp.links l ≠ some s

def Op.isConnect : Op → Bool
  | .connect _ _ _ => true
  | _ => false

theorem known_of_sock {s : Addr} {k : Socket} (h : w.fdSock id = some (s, k)) : Known w id := by
  obtain ⟨fd, _, hf, _⟩ := Host.fdSock_some.1 h
  rw [Known, hf]
  exact Option.some_ne_none fd

/-- descriptors stay in the table, whatever is called -/
theorem known_step (hw : Reach w) (hs : step w op = some w') (hk : Known w id) : Known w' id := by
  obtain ⟨fd, hf⟩ := Option.ne_none_iff_exists'.1 hk
  obtain ⟨hf', _⟩ := (step_nodeChange hw.inv hs).acquire hw.owned hf
  rw [Known, hf']
  exact Option.some_ne_none fd

/-- only a connect puts a socket that is there on a link -/
theorem unlinked_effect (he : Effect w op w') (hop : Op.isConnect op = false) {s : Addr} {k : Socket}
    (hk : w.socks s = some k) (hi : w.Inv) (hfree : ∀ l, w.esp.links l ≠ some s) : ∀ l, w'.esp.links l ≠ some s := by
  have hnone : ∀ i l, (w.esp.setLink i none).links l ≠ some s := by
    intro i l
    rw [Esp.setLink_apply]
    split_ifs
    · exact nofun
    · exact hfree l
  cases he with
  | same | config | assign | listen | unlisten | recvfrom | evRecv => exact hfree
  | connect => cases hop
  | socket ha _ ho =>
    obtain ⟨_, _, _, _, _, _, _, _, _, rfl⟩ := netdevSockAlloc_ok ha
    rw [ho.rest]
    exact hfree
  | accept _ _ _ _ _ _ ho =>
    rw [ho.rest]
    exact hfree
  | unlink => exact hnone _
  | evAccept _ ha =>
    obtain ⟨_, _, rfl, _, _, _, _, _, _, rfl⟩ := netdevSockAlloc_ok ha
    intro l
    show (w.esp.setLink _ _).links l ≠ some s
    rw [Esp.setLink_apply]
    split_ifs
    · intro hx
      have hlt := hi.live_lt hk
      rw [← Option.some.inj hx] at hlt
      exact lt_irrefl _ hlt
    · exact hfree l
  | evClosed _ hd =>
    rcases netdevSockDisconnect_ok hd with rfl | ⟨_, _, _, _, rfl⟩ <;> exact hnone _

/-- and only the end of a connection takes its socket from a descriptor -/
theorem lone_step (hw : Reach w) (hs : step w op = some w') (hop : Op.isConnect op = false) (h : Lone w id) :
    Lone w' id := by
  obtain ⟨s, k, hid, hfree⟩ := h
  obtain ⟨fd, nd, hf, hn, hd, hk⟩ := Host.fdSock_some.1 hid
  have hdata : w.nodeData fd.node = some s := by simp [Host.nodeData, hn, hd]
  have hchange := step_nodeChange hw.inv hs
  obtain ⟨hf', hdata'⟩ := hchange.acquire hw.owned hf
  have hkeep : w'.nodeData fd.node = some s := by
    rcases hdata' with he | he
    · rw [he, hdata]
    · cases hchange with
      | same _ hnodes => rw [Host.nodeData, hnodes]; exact hdata
      | opened hi2 ho hn2 =>
        have hne : fd.node ≠ _ := fun hx => by
          have hfresh := (hi2.fs.fresh fd.node (hx ▸ le_rfl)).1
          rw [hn2, hn] at hfresh
          cases hfresh
        rw [ho.nodeData_ne hne, Host.nodeData, hn2]
        exact hdata
      | @closed l i w2 _ _ hdis hf2 =>
        rcases netdevSockDisconnect_ok hdis with rfl | ⟨c, cn, hc, hcd, rfl⟩
        · rw [Host.nodeData, hf2]
          exact hdata
        · by_cases hcn : fd.node = c
          · rw [hf2, ← hcn, hn] at hc
            obtain rfl := Option.some.inj hc
            exact absurd (hcd.symm.trans hd) (hfree i)
          · simp only [Host.nodeData, Table.set_ne _ _ hcn, hf2]
            exact hdata
  obtain ⟨nd', hn', hd'⟩ := Option.bind_eq_some_iff.1 hkeep
  have hi' := step_inv w op w' hw.inv hs
  obtain ⟨_, hnode, _, hlive⟩ := hi'.fs.fd fd (List.mem_of_find?_eq_some hf')
  rw [hn'] at hnode
  obtain rfl := Option.some.inj hnode
  obtain ⟨k', hk'⟩ := hlive s hd'
  obtain ⟨w1, he, hline⟩ := step_effect hw.inv hs
  have hesp : w'.esp = w1.esp := by rw [hline]
  refine ⟨s, k', Host.fdSock_some.2 ⟨fd, nd', hf', hn', hd', hk'⟩, ?_⟩
  rw [hesp]
  exact unlinked_effect he hop hk hw.inv hfree

theorem lone_socket (hw : Reach w) {domain : NetFamily} {type : SockType}
    (hs : bosSocket w domain type = .ok (id, w')) : Lone w' id := by
  obtain ⟨⟨s, w1⟩, ha, hgo⟩ := bind_ok.1 hs
  obtain ⟨⟨s', k⟩, hk, ho⟩ := bind_ok.1 hgo
  obtain ⟨h1, hk⟩ := Host.sock_ok.1 hk
  cases h1
  have hopen := openFd_opened (hw.inv.socketMade ha hk) ho
  refine ⟨s, _, hopen.fdSock_new (hw.inv.socketMade ha hk) (Host.setSock_self _ _ _), fun l hl => ?_⟩
  obtain ⟨_, _, rfl, _, _, _, _, _, _, rfl⟩ := netdevSockAlloc_ok ha
  rw [hopen.rest] at hl
  obtain ⟨k', hk'⟩ := hw.inv.esp.links l _ hl
  exact lt_irrefl _ (hw.inv.live_lt hk')

theorem accept_none {s : Addr} {k : Socket} (hid : w.fdSock id = some (s, k))
    (hnil : k.type = .stream → k.dev ≠ none → k.clients = []) (want : Option ℕ) :
    bosAccept w id want = .ok (.of (-1), w) := by
  simp only [bosAccept, fdData_of_fdSock hid, sock_of_live (sock_of_fdSock hid), bind, Except.bind]
  by_cases ht : k.type = .stream
  · by_cases hd : k.dev = none
    · rw [if_neg (not_not.2 ht), if_pos hd]
    · rw [if_neg (not_not.2 ht), if_neg hd, hnil ht hd]
  · rw [if_pos ht]

/-- an accepted client has a new descriptor -/
theorem accept_new (hw : Reach w) {fdId : ℤ} {want : Option ℕ} {r : Ret} (ha : bosAccept w fdId want = .ok (r, w'))
    (hpos : 0 < r.val) : Known w' r.val ∧ ¬ Known w r.val := by
  obtain ⟨s, k, hid, ⟨hnil, _⟩ | ⟨cl, cls, ck, k2, _, _, hcl, hck, hk2, ho⟩⟩ := bosAccept_opened hw.inv ha
  · rw [accept_none hid hnil] at ha
    obtain ⟨rfl, _⟩ := ok_pair.1 ha
    cases hpos
  · have hi := hw.inv.takeClient (sock_of_fdSock hid) hcl hck hk2
    refine ⟨?_, fun hold => ?_⟩
    · obtain ⟨fd, _, _, _, hf⟩ := ho.acquire_new hi
      rw [Known, hf]
      exact Option.some_ne_none fd
    · obtain ⟨fd, hf⟩ := Option.ne_none_iff_exists'.1 hold
      have hle := hw.inv.fs.fdId fd (List.mem_of_find?_eq_some hf)
      have hfd : fd.id = r.val := by simpa using List.find?_some hf
      have hid := ho.id_eq
      simp only [Host.setSock] at hid
      omega

end Descriptors

/-! ## The device -/

/-- the driver registers one device -/
theorem boot_dev {ok : ℕ → Bool} {junk : Addr → Junk} {ans : ℕ → Res} {tty : Bool} {w : Host}
    (h : boot ok junk ans tty = some w) : ∃ v, w.devLst = [v] := by
  obtain ⟨r, hr, hne⟩ := boot_ok h
  unfold esp01Init at hr
  split at hr
  · cases hr
    exact absurd rfl hne
  · simp only at hr
    split_ifs at hr
    · cases hr
      exact absurd rfl hne
    · split at hr
      · cases hr
        exact absurd rfl hne
      · split at hr
        · cases hr
          exact absurd rfl hne
        · rename_i hreg
          unfold netdevRegister at hreg
          split at hreg <;> cases hreg
          split_ifs at hr
          · cases hr
            exact absurd rfl hne
          · cases hr
            exact ⟨_, rfl⟩

/-- only a configuration writes to the device -/
theorem devLst_effect {w w' : Host} {op : Op} (he : Effect w op w') :
    w'.devLst = w.devLst ∨ ∃ strs cfg n v vs, op = .configure strs cfg n ∧ w.devLst = v :: vs ∧
      w'.devLst = { v with cfg := cfg } :: vs := by
  cases he with
  | same | assign | connect | listen | unlisten | unlink | recvfrom | evRecv => exact Or.inl rfl
  | config hv => exact Or.inr ⟨_, _, _, _, _, rfl, hv, rfl⟩
  | socket ha _ ho =>
    obtain ⟨_, _, _, _, _, _, _, _, _, rfl⟩ := netdevSockAlloc_ok ha
    rw [ho.rest]
    exact Or.inl rfl
  | accept _ _ _ _ _ _ ho =>
    rw [ho.rest]
    exact Or.inl rfl
  | evAccept _ ha =>
    obtain ⟨_, _, _, _, _, _, _, _, _, rfl⟩ := netdevSockAlloc_ok ha
    exact Or.inl rfl
  | evClosed _ hd =>
    rcases netdevSockDisconnect_ok hd with rfl | ⟨_, _, _, _, rfl⟩ <;> exact Or.inl rfl

theorem devLst_step {w w' : Host} {op : Op} (hi : w.Inv) (hs : step w op = some w') :
    w'.devLst = w.devLst ∨ ∃ strs cfg n v vs, op = .configure strs cfg n ∧ w.devLst = v :: vs ∧
      w'.devLst = { v with cfg := cfg } :: vs := by
  obtain ⟨w1, he, hline⟩ := step_effect hi hs
  have hdev : w'.devLst = w1.devLst := by rw [hline]
  rw [hdev]
  exact devLst_effect he

theorem one_dev {w : Host} (hw : Reach w) : ∃ v, w.devLst = [v] := by
  obtain ⟨ok, junk, ans, tty, w0, ops, hb, hr⟩ := hw
  have hstep : ∀ u op u', u.Inv ∧ (∃ v, u.devLst = [v]) → step u op = some u' → u'.Inv ∧ ∃ v, u'.devLst = [v] := by
    rintro u op u' ⟨hi, v, hv⟩ hs
    refine ⟨step_inv u op u' hi hs, ?_⟩
    rcases devLst_step hi hs with he | ⟨_, _, _, _, _, _, hv', he⟩
    · exact ⟨v, he.trans hv⟩
    · rw [hv] at hv'
      cases hv'
      exact ⟨_, he⟩
  exact (Machine.inv_run hstep ⟨boot_inv hb, boot_dev hb⟩ hr).2

/-! ## The invariant -/

/-- the descriptors that the main thread holds -/
def Pc.ids : Pc → List ℤ
  | .configure | .socket | .quit | .exit => []
  | .bind sock | .listen sock _ | .accept sock | .connect sock | .connected sock | .prompt sock => [sock]
  | .accepted sock client => [sock, client]

/-- the socket of the main thread, before it is connected -/
def Pc.lone : Pc → List ℤ
  | .bind sock | .listen sock _ | .accept sock | .accepted sock _ | .connect sock => [sock]
  | .configure | .socket | .connected _ | .prompt _ | .quit | .exit => []

/-- every descriptor in use is in the table, and the socket of a server is never on a link -/
structure Inv (p : State) : Prop where
  reach : Reach p.host
  main : ∀ id ∈ p.pc.ids, Known p.host id
  lone : ∀ id ∈ p.pc.lone, Lone p.host id
  arg : p.threads ≠ [] → Known p.host p.arg.sock
  threads : ∀ th ∈ p.threads, th.pc ≠ .start → Known p.host th.sock ∧ th.addrLen ≤ sizeofSockAddrInet

variable {p q : State}

/-- the host takes a step -/
theorem Inv.host (h : Inv p) (op : Op) {w : Host} (hs : step p.host op = some w)
    (hop : Op.isConnect op = false ∨ p.pc.lone = []) : Inv { p with host := w } where
  reach := h.reach.run (Machine.run_cons_some.2 ⟨w, hs, Machine.run_nil w⟩)
  main id hid := known_step h.reach hs (h.main id hid)
  lone id hid := by
    rcases hop with hop | hnil
    · exact lone_step h.reach hs hop (h.lone id hid)
    · rw [show p.pc.lone = [] from hnil] at hid
      cases hid
  arg hne := known_step h.reach hs (h.arg hne)
  threads th hth hpc := ⟨known_step h.reach hs (h.threads th hth hpc).1, (h.threads th hth hpc).2⟩

/-- the main thread goes on -/
theorem Inv.goto (h : Inv p) (pc : Pc) (hids : ∀ id ∈ pc.ids, Known p.host id)
    (hlone : ∀ id ∈ pc.lone, Lone p.host id) : Inv { p with pc := pc } := ⟨h.reach, hids, hlone, h.arg, h.threads⟩

/-- a thread goes on -/
theorem Inv.setThread (h : Inv p) {i : ℕ} {th : Thread} (hi : p.threads ≠ [])
    (hth : th.pc ≠ .start → Known p.host th.sock ∧ th.addrLen ≤ sizeofSockAddrInet) : Inv (p.setThread i th) where
  reach := h.reach
  main := h.main
  lone := h.lone
  arg _ := h.arg hi
  threads u hu hpc := by
    rcases List.mem_or_eq_of_mem_set hu with hu | rfl
    · exact h.threads u hu hpc
    · exact hth hpc

theorem Inv.handOver (h : Inv p) {arg : ThreadArg} {pc : Pc} {ok : Bool} (harg : Known p.host arg.sock)
    (hids : ∀ id ∈ pc.ids, Known p.host id) (hlone : ∀ id ∈ pc.lone, Lone p.host id) :
    Inv (p.handOver arg pc ok) where
  reach := h.reach
  main := hids
  lone := hlone
  arg _ := harg
  threads th hth hpc := by
    cases ok with
    | false => exact h.threads th hth hpc
    | true =>
      rcases List.mem_append.1 hth with hth | hth
      · exact h.threads th hth hpc
      · rw [List.mem_singleton.1 hth] at hpc
        exact absurd rfl hpc

theorem toOption_map_some {α β : Type} {x : Except Fault (α × Host)} {f : α × Host → β} {y : β}
    (h : x.toOption.map f = some y) : ∃ r w, x = .ok (r, w) ∧ y = f (r, w) := by
  obtain ⟨⟨r, w⟩, hx, rfl⟩ := Option.map_eq_some_iff.1 h
  exact ⟨r, w, toOption_some hx, rfl⟩

theorem after_ok {α : Type} {x : Except Fault (α × Host)} {r : α} {w : Host} (h : x = .ok (r, w)) :
    after x = some w := by
  rw [h]; rfl

theorem main_inv (h : Inv p) (hs : p.main = some q) : Inv q := by
  obtain ⟨host, opts, pc, arg, threads⟩ := p
  cases pc with
  | configure =>
    obtain ⟨r, w, hc, rfl⟩ := toOption_map_some hs
    have h1 := h.host (.configure _ _ _) (after_ok hc) (Or.inl rfl)
    dsimp only
    split_ifs <;> exact h1.goto _ (by simp [Pc.ids]) (by simp [Pc.lone])
  | socket =>
    obtain ⟨r, w, hc, rfl⟩ := toOption_map_some hs
    have h1 := h.host (.socket _ _) (after_ok hc) (Or.inl rfl)
    have hlone : Lone w r := lone_socket h.reach hc
    obtain ⟨s, k, hid, hfree⟩ := hlone
    dsimp only
    split_ifs
    all_goals exact h1.goto _ (by simpa [Pc.ids] using known_of_sock hid) (by simpa [Pc.lone] using ⟨s, k, hid, hfree⟩)
  | bind sock =>
    obtain ⟨r, w, hc, rfl⟩ := toOption_map_some hs
    have h1 := h.host (.bind _ _ _) (after_ok hc) (Or.inl rfl)
    exact h1.goto _ h1.main h1.lone
  | listen sock r0 =>
    obtain ⟨r, w, hc, rfl⟩ := toOption_map_some hs
    have h1 := h.host (.listen _ _) (after_ok hc) (Or.inl rfl)
    dsimp only
    split_ifs
    · exact h1.goto _ (by simp [Pc.ids]) (by simp [Pc.lone])
    · exact h1.goto _ h1.main h1.lone
  | accept sock =>
    obtain ⟨r, w, hc, rfl⟩ := toOption_map_some hs
    have h1 := h.host (.accept _ _) (after_ok hc) (Or.inl rfl)
    dsimp only
    split_ifs with hr
    · exact h1.goto _ h1.main h1.lone
    · have hnew := (accept_new h.reach hc (not_le.1 hr)).1
      refine h1.goto _ (fun id hid => ?_) h1.lone
      rcases List.mem_cons.1 hid with rfl | hid
      · exact h1.main _ List.mem_cons_self
      · rw [List.mem_singleton.1 hid]
        exact hnew
  | connect sock =>
    obtain ⟨r, w, hc, rfl⟩ := toOption_map_some hs
    have h1 := (h.goto (.connected sock) h.main nofun).host (.connect _ _ _) (after_ok hc) (Or.inr rfl)
    dsimp only
    split_ifs
    · exact h1.goto _ (by simp [Pc.ids]) (by simp [Pc.lone])
    · exact h1
  | quit =>
    cases hs
    exact h.goto _ (by simp [Pc.ids]) (by simp [Pc.lone])
  | accepted | connected | prompt | exit => cases hs

theorem spawn_inv (h : Inv p) {ok : Bool} (hs : p.spawn ok = some q) : Inv q := by
  obtain ⟨host, opts, pc, arg, threads⟩ := p
  cases pc with
  | accepted sock client =>
    cases hs
    refine h.handOver (h.main client (by simp [Pc.ids])) (fun id hid => h.main id ?_) fun id hid => h.lone id ?_
    · rw [List.mem_singleton.1 hid]
      simp [Pc.ids]
    · rw [List.mem_singleton.1 hid]
      simp [Pc.lone]
  | connected sock =>
    cases hs
    exact h.handOver (h.main sock (by simp [Pc.ids])) h.main nofun
  | _ => cases hs

theorem input_inv (h : Inv p) {line : Option Bytes} (hs : p.input line = some q) : Inv q := by
  obtain ⟨host, opts, pc, arg, threads⟩ := p
  cases pc with
  | prompt sock =>
    cases line with
    | none => cases hs
    | some m =>
      simp only [State.input] at hs
      split_ifs at hs
      · obtain ⟨r, w, hc, rfl⟩ := toOption_map_some hs
        have h1 := h.host (.close _) (after_ok hc) (Or.inl rfl)
        exact h1.goto _ (by simp [Pc.ids]) (by simp [Pc.lone])
      · obtain ⟨r, w, hc, rfl⟩ := toOption_map_some hs
        exact h.host (.sendto _ _ _ _ _) (after_ok hc) (Or.inl rfl)
  | _ => cases hs

/-- the length that comes back with an address -/
theorem recvfrom_addrLen {w w' : Host} {id : ℤ} {n : ℕ} {want : Option ℕ} {r : Ret}
    (hc : bosRecvfrom w id n want = .ok (r, w')) : ∀ a ∈ r.addr, a.2 = sizeofSockAddrInet := by
  obtain ⟨data, hd, hgo⟩ := bind_ok.1 hc
  split_ifs at hgo
  · cases hgo
    exact nofun
  · obtain ⟨⟨s, k⟩, hs, hgo⟩ := bind_ok.1 hgo
    cases ht : k.type with
    | stream =>
      simp only [ht] at hgo
      split_ifs at hgo
      obtain ⟨rfl, _⟩ := ok_pair.1 hgo
      exact nofun
    | dgram =>
      simp only [ht] at hgo
      cases hq : k.dgrams with
      | nil =>
        simp only [hq] at hgo
        cases hgo
        exact nofun
      | cons d ds =>
        simp only [hq] at hgo
        obtain ⟨⟨b, idx⟩, _, hgo⟩ := bind_ok.1 hgo
        obtain ⟨rfl, _⟩ := ok_pair.1 hgo
        rintro a ha
        obtain ⟨_, _, rfl⟩ := Option.map_eq_some_iff.1 ha
        cases k.addr.domain
        rfl

/-- a read leaves the thread its socket, and an address of the usual size -/
theorem received_some {th th' : Thread} {echo : Bool} {r : Ret} (ha : ∀ a ∈ r.addr, a.2 = sizeofSockAddrInet)
    (h : th.received echo r = some th') : th'.sock = th.sock ∧
      (th.addrLen ≤ sizeofSockAddrInet → th'.addrLen ≤ sizeofSockAddrInet) ∧ (th'.pc = .start → th.pc = .start) := by
  cases hr : r.addr with
  | none =>
    simp only [Thread.received, hr] at h
    split_ifs at h <;> cases h <;> simp
  | some a =>
    have hlen := ha a hr
    simp only [Thread.received, hr] at h
    split_ifs at h <;> cases h <;> simp [hlen]

theorem thread_inv (h : Inv p) {i : ℕ} (hs : p.thread i = some q) : Inv q := by
  obtain ⟨th, hth, hs⟩ := Option.bind_eq_some_iff.1 hs
  have hmem : th ∈ p.threads := List.mem_of_getElem? hth
  have hne : p.threads ≠ [] := List.ne_nil_of_mem hmem
  cases hpc : th.pc with
  | start =>
    simp only [hpc] at hs
    cases hs
    exact h.setThread hne fun _ => ⟨h.arg hne, le_rfl⟩
  | recv =>
    simp only [hpc] at hs
    obtain ⟨⟨r, w⟩, hc, hs⟩ := Option.bind_eq_some_iff.1 hs
    obtain ⟨th', hth', rfl⟩ := Option.map_eq_some_iff.1 hs
    have hc := toOption_some hc
    have h1 := h.host (.recvfrom _ _ _) (after_ok hc) (Or.inl rfl)
    obtain ⟨hsock, hlen, _⟩ := received_some (recvfrom_addrLen hc) hth'
    obtain ⟨hknown, hle⟩ := h1.threads th hmem (by rw [hpc]; exact nofun)
    exact h1.setThread hne fun _ => ⟨hsock ▸ hknown, hlen hle⟩
  | reply text =>
    simp only [hpc] at hs
    obtain ⟨r, w, hc, rfl⟩ := toOption_map_some hs
    have h1 : Inv { p with host := w } := by
      cases ht : p.opts.type with
      | dgram =>
        simp only [ht] at hc
        exact h.host (.sendto _ _ _ _ _) (after_ok hc) (Or.inl rfl)
      | stream =>
        simp only [ht] at hc
        exact h.host (.sendto _ _ _ _ _) (after_ok hc) (Or.inl rfl)
    exact h1.setThread hne fun _ => h1.threads th hmem (by rw [hpc]; exact nofun)
  | leave =>
    simp only [hpc] at hs
    obtain ⟨r, w, hc, rfl⟩ := toOption_map_some hs
    have h1 := h.host (.close _) (after_ok hc) (Or.inl rfl)
    exact h1.setThread hne fun _ => h1.threads th hmem (by rw [hpc]; exact nofun)
  | gone =>
    simp only [hpc] at hs
    cases hs

/-- **The invariant** is kept by every thread and every handler. -/
theorem next_inv (p : State) (a : Act) (q : State) (h : Inv p) (hs : next p a = some q) : Inv q := by
  simp only [next] at hs
  split_ifs at hs with hexit
  cases a with
  | main => exact main_inv h hs
  | spawn ok => exact spawn_inv h hs
  | input line => exact input_inv h hs
  | thread i => exact thread_inv h hs
  | event e =>
    simp only at hs
    split_ifs at hs with he
    obtain ⟨w, hw, rfl⟩ := Option.map_eq_some_iff.1 hs
    refine h.host e hw (Or.inl ?_)
    cases e <;> first | rfl | cases he

/-! ## What a step leaves alone -/

/-- the calls and handlers that work on the queue of a socket -/
def Op.isQueue : Op → Bool
  | .recvfrom _ _ _ | .evRecv _ _ _ => true
  | _ => false

theorem main_frame (hs : p.main = some q) : q = { p with host := q.host, pc := q.pc } ∧
    (q.host = p.host ∨ ∃ op, Op.isQueue op = false ∧ step p.host op = some q.host) := by
  obtain ⟨host, opts, pc, arg, threads⟩ := p
  cases pc with
  | configure =>
    obtain ⟨r, w, hc, rfl⟩ := toOption_map_some hs
    exact ⟨rfl, Or.inr ⟨.configure _ _ _, rfl, after_ok hc⟩⟩
  | socket =>
    obtain ⟨r, w, hc, rfl⟩ := toOption_map_some hs
    exact ⟨rfl, Or.inr ⟨.socket _ _, rfl, after_ok hc⟩⟩
  | bind =>
    obtain ⟨r, w, hc, rfl⟩ := toOption_map_some hs
    exact ⟨rfl, Or.inr ⟨.bind _ _ _, rfl, after_ok hc⟩⟩
  | listen =>
    obtain ⟨r, w, hc, rfl⟩ := toOption_map_some hs
    exact ⟨rfl, Or.inr ⟨.listen _ _, rfl, after_ok hc⟩⟩
  | accept =>
    obtain ⟨r, w, hc, rfl⟩ := toOption_map_some hs
    exact ⟨rfl, Or.inr ⟨.accept _ _, rfl, after_ok hc⟩⟩
  | connect =>
    obtain ⟨r, w, hc, rfl⟩ := toOption_map_some hs
    exact ⟨rfl, Or.inr ⟨.connect _ _ _, rfl, after_ok hc⟩⟩
  | quit =>
    cases hs
    exact ⟨rfl, Or.inl rfl⟩
  | accepted | connected | prompt | exit => cases hs

theorem input_frame {line : Option Bytes} (hs : p.input line = some q) : q = { p with host := q.host, pc := q.pc } ∧
    (∃ sock, p.pc = .prompt sock ∧ (q.pc = .prompt sock ∨ q.pc = .quit)) ∧
      ∃ op, Op.isQueue op = false ∧ step p.host op = some q.host := by
  obtain ⟨host, opts, pc, arg, threads⟩ := p
  cases pc with
  | prompt sock =>
    cases line with
    | none => cases hs
    | some m =>
      simp only [State.input] at hs
      split_ifs at hs
      · obtain ⟨r, w, hc, rfl⟩ := toOption_map_some hs
        exact ⟨rfl, ⟨sock, rfl, Or.inr rfl⟩, .close _, rfl, after_ok hc⟩
      · obtain ⟨r, w, hc, rfl⟩ := toOption_map_some hs
        exact ⟨rfl, ⟨sock, rfl, Or.inl rfl⟩, .sendto _ _ _ _ _, rfl, after_ok hc⟩
  | _ => cases hs

/-- a thread changes its own locals; the socket it works on is the one of its argument when it starts -/
theorem thread_frame {i : ℕ} (hs : p.thread i = some q) : ∃ th th', p.threads[i]? = some th ∧
    q = { p.setThread i th' with host := q.host } ∧ th'.pc ≠ .start ∧
      th'.sock = (if th.pc = .start then p.arg.sock else th.sock) ∧
      (q.host = p.host ∨ ∃ op, step p.host op = some q.host) := by
  obtain ⟨th, hth, hs⟩ := Option.bind_eq_some_iff.1 hs
  cases hpc : th.pc with
  | start =>
    simp only [hpc] at hs
    cases hs
    exact ⟨th, _, hth, rfl, nofun, by simp [hpc], Or.inl rfl⟩
  | recv =>
    simp only [hpc] at hs
    obtain ⟨⟨r, w⟩, hc, hs⟩ := Option.bind_eq_some_iff.1 hs
    obtain ⟨th', hth', rfl⟩ := Option.map_eq_some_iff.1 hs
    have hc := toOption_some hc
    obtain ⟨hsock, _, hstart⟩ := received_some (recvfrom_addrLen hc) hth'
    refine ⟨th, th', hth, rfl, fun hx => ?_, by simp [hpc, hsock], Or.inr ⟨.recvfrom _ _ _, after_ok hc⟩⟩
    rw [hstart hx] at hpc
    cases hpc
  | reply text =>
    simp only [hpc] at hs
    obtain ⟨r, w, hc, rfl⟩ := toOption_map_some hs
    refine ⟨th, _, hth, rfl, nofun, by simp [hpc], Or.inr ?_⟩
    cases ht : p.opts.type <;> simp only [ht] at hc <;> exact ⟨.sendto _ _ _ _ _, after_ok hc⟩
  | leave =>
    simp only [hpc] at hs
    obtain ⟨r, w, hc, rfl⟩ := toOption_map_some hs
    exact ⟨th, _, hth, rfl, nofun, by simp [hpc], Or.inr ⟨.close _, after_ok hc⟩⟩
  | gone =>
    simp only [hpc] at hs
    cases hs

/-- what a step does -/
def Act.Does (p q : State) : Act → Prop
  | .main => p.main = some q
  | .spawn ok => p.spawn ok = some q
  | .input line => p.input line = some q
  | .thread i => p.thread i = some q
  | .event e => Op.isHandler e = true ∧ ∃ w, step p.host e = some w ∧ q = { p with host := w }

theorem next_does {a : Act} (hs : next p a = some q) : p.pc ≠ .exit ∧ a.Does p q := by
  simp only [next] at hs
  split_ifs at hs with hexit
  refine ⟨hexit, ?_⟩
  cases a with
  | event e =>
    simp only at hs
    split_ifs at hs with he
    obtain ⟨w, hw, rfl⟩ := Option.map_eq_some_iff.1 hs
    exact ⟨he, w, hw, rfl⟩
  | _ => exact hs

theorem launch_inv {given : List Given} {rest : ℕ} {ok : ℕ → Bool} {junk : Addr → Junk} {ans : ℕ → Res} {tty : Bool}
    (hl : launch given rest ok junk ans tty = some p) : Inv p := by
  obtain ⟨o, _, hl⟩ := Option.bind_eq_some_iff.1 hl
  obtain ⟨w, hw, rfl⟩ := Option.map_eq_some_iff.1 hl
  exact ⟨⟨ok, junk, ans, tty, w, [], hw, rfl⟩, nofun, nofun, fun hne => absurd rfl hne, nofun⟩

theorem launch_blank {given : List Given} {rest : ℕ} {ok : ℕ → Bool} {junk : Addr → Junk} {ans : ℕ → Res} {tty : Bool}
    (hl : launch given rest ok junk ans tty = some p) : p.threads = [] ∧ p.host.socks = fun _ => none := by
  obtain ⟨o, _, hl⟩ := Option.bind_eq_some_iff.1 hl
  obtain ⟨w, hw, rfl⟩ := Option.map_eq_some_iff.1 hl
  exact ⟨rfl, (boot_booted hw).socks⟩

end EspHostdriver.Program
