/-
What each step of the host may have changed.

A step that completes has one `Effect`, apart from what it wrote to the line: it changed nothing, or one of a dozen
things, each with the state it was done in. Invariants over runs of the host follow from one case for each of them.

- `Opened`: a socket has got its node below the root and a descriptor for it.
- `step_effect`: every step has an effect.
-/
import EspHostdriver.Net.Calls

namespace EspHostdriver

/-! ## A node and a descriptor for a socket -/

/-- the next address is a new last child of the root with the socket as its data, and there is a descriptor for it -/
structure Opened (w w' : Host) (name : Bytes) (s : Addr) (id : ℤ) : Prop where
  id_eq : id = w.fs.fdCnt + 1
  cnt : w'.fs.fdCnt = w.fs.fdCnt + 1
  next : w'.fs.heap.next = w.fs.heap.next + 2
  fd : ∃ fd : FsFiled, w'.fs.fdLst = w.fs.fdLst ++ [fd] ∧ fd.id = id ∧ fd.node = w.fs.heap.next
  node : ∃ nd, w'.fs.nodes w.fs.heap.next = some nd ∧ nd.data = some s ∧ nd.name = cstr name
  root : ∃ r rn, w.netRoot = some r ∧ w.fs.nodes r = some rn ∧
    w'.fs.nodes r = some { rn with childs := rn.childs ++ [w.fs.heap.next] }
  others : ∀ x, x ≠ w.fs.heap.next → w.netRoot ≠ some x → w'.fs.nodes x = w.fs.nodes x
  rest : w' = { w with fs := w'.fs, itf := w'.itf }

theorem openFd_opened {w w' : Host} {name : Bytes} {s : Addr} {id : ℤ} (h : w.Inv)
    (ho : openFd w name s = .ok (id, w')) : Opened w w' name s id := by
  obtain ⟨n, fs1, fd, fs2, h1, h2, rfl, rfl⟩ := openFd_ok ho
  obtain ⟨r, rn, hroot, hr, _⟩ := h.fs.root
  have hne : r ≠ w.fs.heap.next := by
    intro he
    have hnone := (h.fs.fresh r (le_of_eq he.symm)).1
    rw [hr] at hnone
    cases hnone
  rw [hroot] at h1
  rcases fsNodeMake_ok h1 with ⟨hx, _⟩ | ⟨pn, f, hp, _, hx, rfl⟩
  · cases hx
  · cases hx
    rw [hr] at hp
    cases hp
    rcases fsFdAlloc_ok h2 with ⟨hx, _⟩ | ⟨m, nd, fd', hx, hn, hfd, hid, hnode, rfl⟩
    · cases hx
    · cases hx
      cases hfd
      simp only [Table.set_ne _ _ hne.symm, Table.set_self, Option.some.injEq] at hn
      subst hn
      constructor
      · exact hid
      · rfl
      · rfl
      · exact ⟨fd, rfl, rfl, hnode⟩
      · exact ⟨_, Table.set_self _ _ _, rfl, List.take_length⟩
      · refine ⟨r, rn, hroot, hr, ?_⟩
        simp only [Table.set_ne _ _ hne, Table.set_self]
      · intro x hx hxr
        have hxr' : x ≠ r := fun he => hxr (he ▸ hroot)
        simp only [Table.set_ne _ _ hx, Table.set_ne _ _ hxr']
      · rfl

/-! ## Effects -/

/-- the calls that give a socket a device and an address -/
def Op.assigns : Op → Option (ℤ × SockAddrInet)
  | .connect fdId addr _ => some (fdId, addr)
  | .bind fdId addr _ => some (fdId, addr)
  | .sendto fdId _ _ (some addr) _ => some (fdId, addr)
  | _ => none

/-- the client that `bos_accept` takes -/
def Host.taken (w : Host) (fdId : ℤ) : Option Addr :=
  (w.fdSock fdId).bind fun p => if p.2.type = .stream ∧ p.2.dev ≠ none then p.2.clients.head? else none

/-- does the step make a node and a descriptor -/
def Op.makes (w : Host) : Op → Bool
  | .socket _ _ => true
  | .accept fdId _ => (w.taken fdId).isSome
  | _ => false

/-- one kind of change for each constructor, with what was checked before -/
inductive Effect (w : Host) : Op → Host → Prop where
  | same {op : Op} (hop : op.makes w = false) : Effect w op w
  | config {strs cfg n v vs} (hv : w.devLst = v :: vs) :
      Effect w (.configure strs cfg n) { w with devLst := { v with cfg := cfg } :: vs }
  | socket {domain type s w1 k id w'} (ha : netdevSockAlloc w type = .ok (s, w1)) (hk : w1.socks s = some k)
      (ho : Opened { w1.setSock s { k with addr := { k.addr with domain := domain } } with fdId := w.fdId + 1 } w'
        (nodeName { w1.setSock s { k with addr := { k.addr with domain := domain } } with fdId := w.fdId + 1 }
          (w.fdId + 1)) s id) :
      Effect w (.socket domain type) w'
  | assign {op fdId addr s k v} (hop : op.assigns = some (fdId, addr)) (hs : w.fdSock fdId = some (s, k))
      (hv : v ∈ w.devLst) : Effect w op (w.setSock s { k with dev := some v.self, addr := addr })
  | connect {fdId addr n s k v l} (hs : w.fdSock fdId = some (s, k)) (hd : k.dev = none) (hv : v ∈ w.devLst)
      (hl : w.esp.links l = none) :
      Effect w (.connect fdId addr n)
        { w.setSock s { k with dev := some v.self, addr := addr } with esp := w.esp.setLink l (some s) }
  | listen {fdId backlog s k} (hs : w.fdSock fdId = some (s, k)) (ht : k.type = .stream) (hd : k.dev ≠ none)
      (hn : w.esp.tcpServer = none) :
      Effect w (.listen fdId backlog) { w with esp := { w.esp with tcpServer := some s } }
  | unlisten {fdId s k} (hs : w.fdSock fdId = some (s, k)) (ht : w.esp.tcpServer = some s) :
      Effect w (.close fdId) { w with esp := { w.esp with tcpServer := none } }
  | unlink {fdId s k l} (hs : w.fdSock fdId = some (s, k)) (hl : w.esp.links l = some s) :
      Effect w (.close fdId) { w with esp := w.esp.setLink l none }
  | accept {fdId want s k cl cls ck k2 id w'} (hs : w.fdSock fdId = some (s, k)) (ht : k.type = .stream)
      (hd : k.dev ≠ none) (hcl : k.clients = cl :: cls) (hck : w.socks cl = some ck)
      (hk2 : (w.setSock cl { ck with dev := k.dev }).socks s = some k2)
      (ho : Opened ((w.setSock cl { ck with dev := k.dev }).setSock s { k2 with clients := cls }) w'
        (nodeName ((w.setSock cl { ck with dev := k.dev }).setSock s { k2 with clients := cls }) (fdId + 1).toNat)
        cl id) :
      Effect w (.accept fdId want) w'
  | recvfrom {fdId n want s k stream dgrams} (hs : w.fdSock fdId = some (s, k)) :
      Effect w (.recvfrom fdId n want) (w.setSock s { k with stream := stream, dgrams := dgrams })
  | evRecv {l i data remote s k stream dgrams m} (hi : linkIdx l = .ok i) (hl : w.esp.links i = some s)
      (hk : w.socks s = some k) :
      Effect w (.evRecv l data remote)
        ((w.withHeap { w.fs.heap with next := w.fs.heap.next + m }).setSock s
          { k with stream := stream, dgrams := dgrams })
  | evAccept {l i remote t s w1 k tk} (ht : w.esp.tcpServer = some t) (ha : netdevSockAlloc w .stream = .ok (s, w1))
      (hk : w1.socks s = some k) (hi : linkIdx l = .ok i)
      (htk : (w1.setSock s { k with addr := remote }).socks t = some tk) :
      Effect w (.evAccept l remote)
        (({ w1.setSock s { k with addr := remote } with esp := w1.esp.setLink i (some s) }).setSock t
          { tk with clients := tk.clients ++ [s] })
  | evClosed {l i w'} (hi : linkIdx l = .ok i)
      (hd : netdevSockDisconnect { w with esp := w.esp.setLink i none } (w.esp.links i) = .ok w') :
      Effect w (.evClosed l) w'

/-- a state that differs in the line only -/
def SameButLine (w w' : Host) : Prop := w' = { w with itf := w'.itf }

/-- what a step puts on the line -/
def newBytes (w w' : Host) : Bytes := (w'.itf.out.drop w.itf.out.length).flatten

theorem newBytes_append {w w' : Host} {ws : List Bytes} (h : w'.itf.out = w.itf.out ++ ws) :
    newBytes w w' = ws.flatten := by
  rw [newBytes, h, List.drop_left]

/-! ## Every step has one -/

variable {w w' : Host}

theorem configure_effect {strs : Addr → Bytes} {cfg : InetDevCfg} {n : ℕ} {r : ℤ}
    (hc : bosNetConfigure w strs cfg n = .ok (r, w')) : ∃ w1, Effect w (.configure strs cfg n) w1 ∧ SameButLine w1 w' := by
  unfold bosNetConfigure at hc
  split at hc
  · cases hc
  · rename_i v vs hv
    split_ifs at hc
    · cases hc
      exact ⟨w, .same rfl, rfl⟩
    · obtain ⟨⟨_, itf⟩, _, hc⟩ := bind_ok.1 hc
      cases hc
      exact ⟨_, .config hv, rfl⟩

theorem socket_effect (h : w.Inv) {domain : NetFamily} {type : SockType} {r : ℤ}
    (hs : bosSocket w domain type = .ok (r, w')) : Effect w (.socket domain type) w' := by
  obtain ⟨⟨s, w1⟩, ha, hs⟩ := bind_ok.1 hs
  obtain ⟨⟨s', k⟩, hk, hs⟩ := bind_ok.1 hs
  obtain ⟨h1, hk⟩ := Host.sock_ok.1 hk
  cases h1
  have hcnt : w1.fdId = w.fdId := by
    obtain ⟨_, _, _, _, _, _, _, _, _, rfl⟩ := netdevSockAlloc_ok ha
    rfl
  simp only [Host.setSock, hcnt] at hs
  exact .socket ha hk (openFd_opened (h.socketMade ha hk) hs)

theorem connect_effect {fdId : ℤ} {addr : SockAddrInet} {n : ℕ} {r : ℤ}
    (hc : bosConnect w fdId addr n = .ok (r, w')) :
    ∃ w1, Effect w (.connect fdId addr n) w1 ∧ SameButLine w1 w' := by
  rcases bosConnect_ok hc with rfl | ⟨s, k, r1, w1, hs, hdev, ha, hgo⟩
  · exact ⟨w', .same rfl, rfl⟩
  obtain ⟨s', k', hx, hk', hset⟩ := assignNetdev_ok ha
  cases hx
  rw [sock_of_fdSock hs] at hk'
  cases hk'
  rcases hset with ⟨rfl, rfl⟩ | ⟨v, hv, rfl, rfl⟩
  · rcases hgo with rfl | ⟨h0, _⟩
    · exact ⟨w', .same rfl, rfl⟩
    · exact absurd h0 (by decide)
  · have hass : Effect w (.connect fdId addr n) (w.setSock s { k with dev := some v.self, addr := addr }) :=
      .assign rfl hs hv
    rcases hgo with rfl | ⟨_, k1, v', hk1, hv', he⟩
    · exact ⟨_, hass, rfl⟩
    · rcases espConnect_cases hk1 hv' with ⟨_, hx⟩ | ⟨l, ws, hl, hx⟩
      · rw [hx] at he
        cases he
        exact ⟨_, hass, rfl⟩
      · rw [hx] at he
        split_ifs at he <;> cases he
        · exact ⟨_, .connect hs hdev hv (getLinkId_some hl), rfl⟩
        · exact ⟨_, hass, rfl⟩

theorem bind_effect {fdId : ℤ} {addr : SockAddrInet} {n : ℕ} {r : ℤ} (hb : bosBind w fdId addr n = .ok (r, w')) :
    Effect w (.bind fdId addr n) w' := by
  obtain ⟨d, hd, hb⟩ := bind_ok.1 hb
  obtain ⟨s, k, rfl, hk, ha⟩ := assignNetdev_ok hb
  rcases ha with ⟨_, rfl⟩ | ⟨v, hv, _, rfl⟩
  · exact .same rfl
  · exact .assign rfl (fdSock_of_ok hd (sock_of_live hk)) hv

theorem listen_effect {fdId backlog : ℤ} {r : ℤ} (hl : bosListen w fdId backlog = .ok (r, w')) :
    ∃ w1, Effect w (.listen fdId backlog) w1 ∧ SameButLine w1 w' := by
  obtain ⟨s, k, hs, ⟨_, rfl | ⟨ws, rfl⟩⟩ | ⟨_, ht, hd, hn, ws, rfl⟩⟩ := bosListen_ok hl
  · exact ⟨w', .same rfl, rfl⟩
  · exact ⟨w, .same rfl, rfl⟩
  · exact ⟨_, .listen hs ht hd hn, rfl⟩

/-- an accept finds no client to take, or takes the first one, gives it the server's device and opens it -/
theorem bosAccept_opened (h : w.Inv) {fdId : ℤ} {want : Option ℕ} {r : Ret} (ha : bosAccept w fdId want = .ok (r, w')) :
    ∃ s k, w.fdSock fdId = some (s, k) ∧ ((k.type = .stream → k.dev ≠ none → k.clients = []) ∧ w' = w ∨
      ∃ cl cls ck k2, k.type = .stream ∧ k.dev ≠ none ∧ k.clients = cl :: cls ∧ w.socks cl = some ck ∧
        (w.setSock cl { ck with dev := k.dev }).socks s = some k2 ∧
        Opened ((w.setSock cl { ck with dev := k.dev }).setSock s { k2 with clients := cls }) w'
          (nodeName ((w.setSock cl { ck with dev := k.dev }).setSock s { k2 with clients := cls }) (fdId + 1).toNat)
          cl r.val) := by
  obtain ⟨s, k, hs, hsame | ⟨cl, cls, ck, k2, ht, hd, hcl, hck, hk2, ho⟩⟩ := bosAccept_ok ha
  · exact ⟨s, k, hs, Or.inl hsame⟩
  · have hi := h.takeClient (sock_of_fdSock hs) hcl hck hk2
    exact ⟨s, k, hs, Or.inr ⟨cl, cls, ck, k2, ht, hd, hcl, hck, hk2, openFd_opened hi ho⟩⟩

theorem accept_effect (h : w.Inv) {fdId : ℤ} {want : Option ℕ} {r : Ret}
    (ha : bosAccept w fdId want = .ok (r, w')) : Effect w (.accept fdId want) w' := by
  obtain ⟨s, k, hs, ⟨hnil, rfl⟩ | ⟨cl, cls, ck, k2, ht, hd, hcl, hck, hk2, ho⟩⟩ := bosAccept_opened h ha
  · refine .same ?_
    by_cases hx : k.type = .stream ∧ k.dev ≠ none
    · simp [Op.makes, Host.taken, hs, hnil hx.1 hx.2]
    · simp [Op.makes, Host.taken, hs, hx]
  · exact .accept hs ht hd hcl hck hk2 ho

theorem sendDev_line {s : Addr} {mem : Bytes} {n : ℕ} {r : ℤ} (hs : espSend w s mem n = .ok (r, w')) :
    SameButLine w w' := by
  rcases espSend_ok hs with rfl | ⟨k, l, ws, _, _, _, rfl | rfl⟩
  · rfl
  · rfl
  · rfl

/-- choosing the device to send through assigns one when the datagram has an address -/
theorem sendtoDev_ok {s : Addr} {k : Socket} {addr : Option SockAddrInet} {addrLen : ℕ} {r : Option (Option Addr)}
    (hk : w.socks s = some k) (hs : sendtoDev w s k addr addrLen = .ok (r, w')) : w' = w ∨
      ∃ a v, addr = some a ∧ v ∈ w.devLst ∧ w' = w.setSock s { k with dev := some v.self, addr := a } := by
  unfold sendtoDev at hs
  split at hs
  · cases hs
    exact Or.inl rfl
  · cases hs
    exact Or.inl rfl
  · cases hs
    exact Or.inl rfl
  · rename_i a _
    split_ifs at hs
    · cases hs
      exact Or.inl rfl
    · obtain ⟨⟨r1, w1⟩, ha, hs⟩ := bind_ok.1 hs
      have hw1 : w1 = w ∨ ∃ a' v, some a = some a' ∧ v ∈ w.devLst ∧
          w1 = w.setSock s { k with dev := some v.self, addr := a' } := by
        obtain ⟨s', k', hx, hk', ha⟩ := assignNetdev_ok ha
        cases hx
        rw [hk] at hk'
        cases hk'
        rcases ha with ⟨_, rfl⟩ | ⟨v, hv, _, rfl⟩
        · exact Or.inl rfl
        · exact Or.inr ⟨a, v, rfl, hv, rfl⟩
      simp only at hs
      split_ifs at hs
      · cases hs
        exact hw1
      · obtain ⟨_, _, hs⟩ := bind_ok.1 hs
        cases hs
        exact hw1

theorem sendtoDev_effect {fdId : ℤ} {s : Addr} {k : Socket} {mem : Bytes} {n : ℕ} {addr : Option SockAddrInet}
    {addrLen : ℕ} {r : Option (Option Addr)} (hfs : w.fdSock fdId = some (s, k))
    (hs : sendtoDev w s k addr addrLen = .ok (r, w')) : Effect w (.sendto fdId mem n addr addrLen) w' := by
  rcases sendtoDev_ok (sock_of_fdSock hfs) hs with rfl | ⟨a, v, rfl, hv, rfl⟩
  · exact .same rfl
  · exact .assign rfl hfs hv

theorem sendto_effect {fdId : ℤ} {mem : Bytes} {n : ℕ} {addr : Option SockAddrInet} {addrLen : ℕ} {r : ℤ}
    (hs : bosSendto w fdId mem n addr addrLen = .ok (r, w')) :
    ∃ w1, Effect w (.sendto fdId mem n addr addrLen) w1 ∧ SameButLine w1 w' := by
  rcases bosSendto_ok hs with rfl | ⟨s, k, dev, w1, hfs, hdev, rfl | ⟨r1, he⟩⟩
  · exact ⟨w', .same rfl, rfl⟩
  · exact ⟨w', sendtoDev_effect hfs hdev, rfl⟩
  · exact ⟨w1, sendtoDev_effect hfs hdev, sendDev_line he⟩

theorem recvfrom_effect {fdId : ℤ} {n : ℕ} {want : Option ℕ} {r : Ret} (hr : bosRecvfrom w fdId n want = .ok (r, w')) :
    Effect w (.recvfrom fdId n want) w' := by
  obtain ⟨d, hd, hr⟩ := bind_ok.1 hr
  split_ifs at hr
  · cases hr
    exact .same rfl
  · obtain ⟨⟨s, k⟩, hs, hr⟩ := bind_ok.1 hr
    have hfs := fdSock_of_ok hd hs
    simp only at hr
    split at hr
    · split at hr
      · cases hr
        exact .same rfl
      · obtain ⟨_, _, hr⟩ := bind_ok.1 hr
        obtain ⟨_, rfl⟩ := ok_pair.1 hr
        exact @Effect.recvfrom _ _ _ _ _ _ k.stream _ hfs
    · split_ifs at hr
      obtain ⟨_, rfl⟩ := ok_pair.1 hr
      exact @Effect.recvfrom _ _ _ _ _ _ _ k.dgrams hfs

theorem close_effect (h : w.Inv) {fdId r : ℤ} (hc : bosClose w fdId = .ok (r, w')) :
    ∃ w1, Effect w (.close fdId) w1 ∧ SameButLine w1 w' := by
  rcases bosClose_cases h fdId with ⟨_, he⟩ | ⟨_, _, _, he⟩ | ⟨_, _, _, _, he⟩ | ⟨s, k, v, hs, hv, _, he⟩ <;>
    rw [he] at hc
  · cases hc
    exact ⟨w, .same rfl, rfl⟩
  · cases hc
    exact ⟨w, .same rfl, rfl⟩
  · cases hc
    exact ⟨w, .same rfl, rfl⟩
  · rcases espClose_cases (sock_of_fdSock hs) hv with ⟨ws, ht, hx⟩ | ⟨_, _, hx⟩ | ⟨l, ws, _, hl, hx⟩ <;> rw [hx] at hc
    · split_ifs at hc <;> cases hc
      · exact ⟨_, .unlisten hs ht, rfl⟩
      · exact ⟨w, .same rfl, rfl⟩
    · cases hc
      exact ⟨w, .same rfl, rfl⟩
    · split_ifs at hc <;> cases hc
      · exact ⟨_, .unlink hs (getLinkId_some hl), rfl⟩
      · exact ⟨w, .same rfl, rfl⟩

theorem evRecv_effect {l : ℤ} {data : Bytes} {remote : SockAddrInet} (he : espRecv w l data remote = .ok w') :
    Effect w (.evRecv l data remote) w' := by
  obtain ⟨i, s, k, hi, hl, hk, hx⟩ := espRecv_ok he
  rcases hx with ⟨_, rfl⟩ | ⟨_, _, rfl⟩
  · exact @Effect.evRecv _ _ _ _ _ _ _ k.stream _ _ hi hl hk
  · exact @Effect.evRecv _ _ _ _ _ _ _ _ k.dgrams 0 hi hl hk

theorem evAccept_effect {l : ℤ} {remote : SockAddrInet} (he : espAccept w l remote = .ok w') :
    Effect w (.evAccept l remote) w' := by
  rcases espAccept_ok he with ⟨_, rfl⟩ | ⟨t, s, w1, k, i, tk, ht, ha, hk, hi, htk, rfl⟩
  · exact .same rfl
  · exact .evAccept ht ha hk hi htk

theorem evClosed_effect {l : ℤ} (he : espClosed w l = .ok w') : Effect w (.evClosed l) w' := by
  obtain ⟨i, hi, hd⟩ := espClosed_ok he
  exact .evClosed hi hd

/-- **Every step has an effect**; what it wrote to the line is all else it changed. -/
theorem step_effect (h : w.Inv) {op : Op} (hs : step w op = some w') : ∃ w1, Effect w op w1 ∧ SameButLine w1 w' := by
  have line : ∀ {op}, Effect w op w' → ∃ w1, Effect w op w1 ∧ SameButLine w1 w' := fun he => ⟨w', he, rfl⟩
  cases op with
  | configure => obtain ⟨r, hr⟩ := after_some hs; exact configure_effect hr
  | socket => obtain ⟨r, hr⟩ := after_some hs; exact line (socket_effect h hr)
  | connect => obtain ⟨r, hr⟩ := after_some hs; exact connect_effect hr
  | bind => obtain ⟨r, hr⟩ := after_some hs; exact line (bind_effect hr)
  | listen => obtain ⟨r, hr⟩ := after_some hs; exact listen_effect hr
  | accept => obtain ⟨r, hr⟩ := after_some hs; exact line (accept_effect h hr)
  | sendto => obtain ⟨r, hr⟩ := after_some hs; exact sendto_effect hr
  | recvfrom => obtain ⟨r, hr⟩ := after_some hs; exact line (recvfrom_effect hr)
  | close => obtain ⟨r, hr⟩ := after_some hs; exact close_effect h hr
  | evRecv => exact line (evRecv_effect (toOption_some hs))
  | evAccept => exact line (evAccept_effect (toOption_some hs))
  | evClosed => exact line (evClosed_effect (toOption_some hs))

end EspHostdriver
