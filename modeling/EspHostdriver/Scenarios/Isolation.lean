/-
Connections do not get mixed up: sockets, links and nodes over every run of calls and link events.

A socket gets a link in two places only: `bos_connect` gives one to the socket of a descriptor that has no device yet, the
`accept` handler to a fresh socket that then waits for `bos_accept`. Afterwards the socket waits or has a device, for
good, so it never gets a second link. `homes` records every link that a socket was given, by the number that the line had
for it: the one in `AT+CIPSTART`, or the one that the module reported.

- `placed_cases`: where a link is given, and to whom.
- `isolation`: over every run a socket is in one slot of `links` and in one node at most, `recv` and `closed` change the
  socket and the node of their link only, and `AT+CIPSEND` and `AT+CIPCLOSE` name the one link the socket was given.
-/
import EspHostdriver.Net.Ownership

namespace EspHostdriver.Isolation

open Machine

/-! ## Model -/

/-- the host, and every link a socket was connected or accepted on so far -/
structure Placed where
  host : Host
  homes : List (Addr × ℤ)

/-- the link that a command tells the module to open -/
def startedLink (t : Bytes) : Option ℤ := if (str "AT+CIPSTART=").isPrefixOf t then some (atoi (t.drop 12)) else none

/-- the link a socket was connected or accepted on in this step: a connect that returns 0 has told the module its number;
a connection that comes in has one, and its socket is the last client of the server -/
def placements (w : Host) (op : Op) (w' : Host) : List (Addr × ℤ) :=
  match op with
  | .connect fdId addr n =>
    if (bosConnect w fdId addr n).toOption.map Prod.fst = some 0 then
      ((w.fdSock fdId).bind fun p => (startedLink (newBytes w w')).map fun l => (p.1, l)).toList
    else []
  | .evAccept l _ =>
    match w.esp.tcpServer with
    | none => []
    | some t => ((w'.clientsOf t).drop (w.clientsOf t).length).map fun s => (s, l)
  | _ => []

def placedStep (t : Placed) (op : Op) : Option Placed :=
  (step t.host op).map fun w => ⟨w, t.homes ++ placements t.host op w⟩

/-! ## What isolation means -/

structure Isolated (t : Placed) : Prop where
  slots : ∀ i j s, t.host.esp.links i = some s → t.host.esp.links j = some s → i = j
  nodes : ∀ c c' s, Holds t.host c s → Holds t.host c' s → c = c'
  childs : t.host.netChilds.Nodup
  home : ∀ s l l', (s, l) ∈ t.homes → (s, l') ∈ t.homes → l = l'
  /-- a slot of `links` holds what was connected or accepted on that link -/
  table : ∀ (l : Fin 5) s, t.host.esp.links l = some s → (s, ((l : ℕ) : ℤ)) ∈ t.homes
  /-- `recv` changes the socket of its link and no node -/
  recv : ∀ (l : Fin 5) data remote w', espRecv t.host (l : ℕ) data remote = .ok w' →
    w'.fs.nodes = t.host.fs.nodes ∧ ∀ s, t.host.esp.links l ≠ some s → w'.socks s = t.host.socks s
  /-- `closed` changes the node of the socket of its link and no socket -/
  closed : ∀ (l : Fin 5) w', espClosed t.host (l : ℕ) = .ok w' → w'.socks = t.host.socks ∧
    ∀ c, (∀ s, t.host.esp.links l = some s → ¬ Holds t.host c s) → w'.fs.nodes c = t.host.fs.nodes c
  /-- what `bos_sendto` announces goes to the link the socket was given -/
  send : ∀ fdId mem n addr addrLen r w', bosSendto t.host fdId mem n addr addrLen = .ok (r, w') →
    w'.itf.out = t.host.itf.out ∨ ∃ s k, ∃ l : Fin 5, ∃ ws rest, w'.fdSock fdId = some (s, k) ∧ (s, ((l : ℕ) : ℤ)) ∈ t.homes ∧
      render (cipsend k l n).1 (cipsend k l n).2 = .ok ws ∧ (rest = [] ∨ rest = serialCmdSend (some mem) ++ [[10]]) ∧
      w'.itf.out = t.host.itf.out ++ ws ++ [[10]] ++ rest
  /-- `bos_close` stops the server, or closes the link the socket was given -/
  close : ∀ fdId r w', bosClose t.host fdId = .ok (r, w') →
    w'.itf.out = t.host.itf.out ∨ ∃ s k, t.host.fdSock fdId = some (s, k) ∧ ∃ ws,
      w'.itf.out = t.host.itf.out ++ ws ++ [[10]] ∧
      (t.host.esp.tcpServer = some s ∧ render (str "AT+CIPSERVER=0") [] = .ok ws ∨
        ∃ l : Fin 5, (s, ((l : ℕ) : ℤ)) ∈ t.homes ∧ render (str "AT+CIPCLOSE=%d") [.word l] = .ok ws)

/-! ## Giving links -/

variable {w w' : Host}

/-- a socket that may not be given a link any more -/
def Settled (w : Host) (s : Addr) : Prop := w.devOf s ≠ none ∨ Waits w s

/-- a connect or an incoming connection -/
def Op.opens : Op → Bool
  | .connect _ _ _ => true
  | .evAccept _ _ => true
  | _ => false

/-- no other step puts a socket into a slot -/
theorem links_old {op : Op} (he : Effect w op w') (hop : Op.opens op = false) (l : Fin 5) (s : Addr)
    (hs : w'.esp.links l = some s) : w.esp.links l = some s := by
  have hnone : ∀ {i}, (w.esp.setLink i none).links l = some s → w.esp.links l = some s := by
    intro i hx
    rw [Esp.setLink_apply] at hx
    split_ifs at hx
    exact hx
  cases he with
  | same | config | assign | listen | unlisten | recvfrom | evRecv => exact hs
  | connect | evAccept => cases hop
  | socket ha _ ho =>
    obtain ⟨_, _, _, _, _, _, _, _, _, rfl⟩ := netdevSockAlloc_ok ha
    rw [ho.rest] at hs
    exact hs
  | accept _ _ _ _ _ _ ho =>
    rw [ho.rest] at hs
    exact hs
  | unlink => exact hnone hs
  | evClosed _ hd => rcases netdevSockDisconnect_ok hd with rfl | ⟨_, _, _, _, rfl⟩ <;> exact hnone hs

theorem startedLink_text (l : Fin 5) {rest : Bytes} (hs : Stops rest) :
    startedLink (str "AT+CIPSTART=" ++ (decInt (toInt32 (l : ℕ)) ++ rest)) = some ((l : ℕ) : ℤ) := by
  have hdrop : ∀ t : Bytes, (str "AT+CIPSTART=" ++ t).drop 12 = t := fun t => rfl
  rw [startedLink, if_pos (List.isPrefixOf_iff_prefix.2 (List.prefix_append _ _)), hdrop, decInt_of_lt (by omega),
    atoi_dec (by omega) hs]

/-- the command of `connect` starts the link that the socket is put on -/
theorem espConnect_started {s : Addr} {r : ℤ} (hc : espConnect w s = .ok (r, w')) : (r ≠ 0 ∧ w'.esp = w.esp) ∨
    r = 0 ∧ ∃ l : Fin 5, startedLink (newBytes w w') = some ((l : ℕ) : ℤ) ∧ w'.socks = w.socks ∧
      w'.esp = w.esp.setLink l (some s) := by
  obtain ⟨⟨s', k⟩, hk, hc⟩ := bind_ok.1 hc
  obtain ⟨hs, _⟩ := Host.sock_ok.1 hk
  cases hs
  obtain ⟨_, _, hc⟩ := bind_ok.1 hc
  dsimp only at hc
  cases hl : getLinkId w.esp none with
  | none =>
    rw [hl] at hc
    cases hc
    exact Or.inl ⟨by decide, rfl⟩
  | some l =>
    rw [hl] at hc
    obtain ⟨⟨r1, itf⟩, hsend, hc⟩ := bind_ok.1 hc
    obtain ⟨ws, hws, _, rfl⟩ := sendCmd_ok hsend
    dsimp only at hc
    split_ifs at hc with hr
    · cases hc
      exact Or.inl ⟨by decide, rfl⟩
    · cases hc
      refine Or.inr ⟨rfl, l, ?_, rfl, rfl⟩
      rw [newBytes_append (List.append_assoc _ _ _), List.flatten_append, (puts_connect l _ _ _).flatten hws,
        List.append_assoc, List.append_assoc]
      exact startedLink_text l (stops_cons _ (by decide))

/-- a call that writes nothing connects nothing -/
theorem connect_quiet (h : w'.itf = w.itf) (fdId : ℤ) (addr : SockAddrInet) (n : ℕ) :
    placements w (.connect fdId addr n) w' = [] := by
  have hnew : newBytes w w' = ([] : List Bytes).flatten := newBytes_append (by rw [h, List.append_nil])
  have hstart : startedLink [] = none := rfl
  simp only [placements, hnew, List.flatten_nil, hstart, Option.map_none]
  split_ifs
  · cases w.fdSock fdId <;> rfl
  · rfl

/-- a link is given in this step: to this socket, which had none before and gets none afterwards -/
structure Gives (w : Host) (op : Op) (w' : Host) (s : Addr) (l : Fin 5) : Prop where
  placed : placements w op w' = [(s, ((l : ℕ) : ℤ))]
  links : w'.esp.links = (w.esp.setLink l (some s)).links
  settled : Settled w' s
  /-- it has a descriptor and no device yet, or is fresh -/
  before : (w.devOf s = none ∧ ∃ c, Holds w c s) ∨ w.socks s = none

theorem connect_gives (ho : Owned w) {fdId : ℤ} {addr : SockAddrInet} {n : ℕ} {r : ℤ}
    (hc : bosConnect w fdId addr n = .ok (r, w')) :
    (placements w (.connect fdId addr n) w' = [] ∧ w'.esp = w.esp) ∨ ∃ s l, Gives w (.connect fdId addr n) w' s l := by
  rcases bosConnect_ok hc with rfl | ⟨s, k, r1, w1, hfs, hdev, ha, hgo⟩
  · exact Or.inl ⟨connect_quiet rfl _ _ _, rfl⟩
  · have hsame : w1.itf = w.itf ∧ w1.esp = w.esp := by
      obtain ⟨_, _, _, _, ⟨_, rfl⟩ | ⟨_, _, _, rfl⟩⟩ := assignNetdev_ok ha <;> exact ⟨rfl, rfl⟩
    rcases hgo with rfl | ⟨rfl, k1, v, _, _, he⟩
    · exact Or.inl ⟨connect_quiet hsame.1 _ _ _, hsame.2⟩
    · rcases espConnect_started he with ⟨hr, hesp⟩ | ⟨rfl, l, hstart, hsocks, hesp⟩
      · have hres : ¬ (bosConnect w fdId addr n).toOption.map Prod.fst = some 0 := by
          rw [hc]
          exact fun hx => hr (Option.some.inj hx)
        exact Or.inl ⟨if_neg hres, hesp.trans hsame.2⟩
      · right
        have hnew : newBytes w w' = newBytes w1 w' := by rw [newBytes, newBytes, hsame.1]
        obtain ⟨s', k', hs', _, ⟨hneg, _⟩ | ⟨u, _, _, rfl⟩⟩ := assignNetdev_ok ha
        · cases hneg
        · obtain rfl := Option.some.inj hs'
          have hset := w.setSock_self s { k' with dev := some u.self, addr := addr }
          rw [← hsocks] at hset
          refine ⟨s, l, ?_, by rw [hesp]; rfl, Or.inl ?_, Or.inl ⟨?_, ho.held hfs⟩⟩
          · simp only [placements, hc, Except.toOption, Option.map_some, if_true, hfs, hnew, hstart, Option.bind_some,
              Option.toList_some]
          · rw [devOf_some hset]
            exact Option.some_ne_none _
          · rw [devOf_some (sock_of_fdSock hfs), hdev]

theorem accept_gives (hi : w.Inv) {l : ℤ} {remote : SockAddrInet} (he : espAccept w l remote = .ok w') :
    (placements w (.evAccept l remote) w' = [] ∧ w'.esp = w.esp) ∨ ∃ s i, Gives w (.evAccept l remote) w' s i := by
  rcases espAccept_ok he with ⟨hsrv, rfl⟩ | ⟨t, s, w1, k, i, tk, hsrv, ha, hk, hl, htk, rfl⟩
  · left
    simp only [placements, hsrv, and_self]
  · right
    obtain ⟨ks, n, rfl, _, _, _, hcl, _, _, rfl⟩ := netdevSockAlloc_ok ha
    obtain rfl := Option.some.inj ((Host.setSock_self _ _ _).symm.trans hk)
    have hfresh := (hi.fs.fresh _ le_rfl).2
    obtain rfl : l = ((i : ℕ) : ℤ) := linkIdx_val hl
    -- the clients of the server are those it had
    have hold : tk.clients = w.clientsOf t := by
      rw [← clientsOf_some htk, clientsOf_setSock, clientsOf_setSock]
      split_ifs with ht
      · rw [ht, hcl, Host.clientsOf, hfresh]
        rfl
      · rfl
    have hqueue : ∀ w2 : Host, (w2.setSock t { tk with clients := tk.clients ++ [w.fs.heap.next] }).clientsOf t =
        w.clientsOf t ++ [w.fs.heap.next] := fun w2 => by rw [clientsOf_setSock, if_pos rfl, ← hold]
    refine ⟨w.fs.heap.next, i, ?_, rfl, Or.inr ⟨t, ?_⟩, Or.inr hfresh⟩
    · simp only [placements, hsrv, hqueue, List.drop_left, List.map_singleton]
    · rw [hqueue]
      exact List.mem_append_right _ (List.mem_singleton_self _)

/-- a link is given to one socket, or to none -/
theorem placed_cases (hi : w.Inv) (ho : Owned w) {op : Op} (hs : step w op = some w') :
    (placements w op w' = [] ∧ ∀ l s, w'.esp.links l = some s → w.esp.links l = some s) ∨ ∃ s l, Gives w op w' s l := by
  by_cases hop : Op.opens op = false
  · obtain ⟨w1, he, hline⟩ := step_effect hi hs
    have hesp : w'.esp = w1.esp := by rw [hline]
    refine Or.inl ⟨?_, fun l s hl => links_old he hop l s (hesp ▸ hl)⟩
    cases op <;> first | rfl | cases hop
  · cases op with
    | connect fdId addr n =>
      obtain ⟨r, hc⟩ := after_some hs
      exact (connect_gives ho hc).imp_left fun ⟨hnil, hesp⟩ => ⟨hnil, fun l s hl => hesp ▸ hl⟩
    | evAccept l remote =>
      exact (accept_gives hi (toOption_some hs)).imp_left fun ⟨hnil, hesp⟩ => ⟨hnil, fun l s hl => hesp ▸ hl⟩
    | _ => exact absurd rfl hop

/-! ## A link is for good -/

theorem settled_setSock {s x : Addr} {k : Socket} (h : Settled w x) (hd : w.devOf s ≠ none → k.dev ≠ none)
    (hc : w.clientsOf s ⊆ k.clients) : Settled (w.setSock s k) x := by
  rcases h with h | ⟨t, ht⟩
  · left
    rw [devOf_setSock]
    split_ifs with he
    · exact hd (he ▸ h)
    · exact h
  · refine Or.inr ⟨t, ?_⟩
    rw [clientsOf_setSock]
    split_ifs with he
    · exact hc (he ▸ ht)
    · exact ht

theorem Settled.frame {x : Addr} (h : Settled w x) (hs : w'.socks = w.socks) : Settled w' x := by
  simpa only [Settled, Waits, Host.devOf, Host.clientsOf, hs] using h

theorem settled_alloc (hi : w.Inv) {type : SockType} {s x : Addr} (ha : netdevSockAlloc w type = .ok (s, w'))
    (hx : Settled w x) : Settled w' x := by
  obtain ⟨k, n, rfl, _, _, _, _, _, _, rfl⟩ := netdevSockAlloc_ok ha
  have hnone := (hi.fs.fresh _ le_rfl).2
  refine settled_setSock (w := w.withHeap _) hx (fun hd => absurd ?_ hd) fun c hc => absurd hc ?_
  · simp [Host.devOf, Host.withHeap, hnone]
  · simp [Host.clientsOf, Host.withHeap, hnone]

/-- a socket that waits or has a device does so afterwards -/
theorem Settled.effect (hi : w.Inv) (ho : Owned w) {op : Op} (he : Effect w op w') {x : Addr} (hx : Settled w x) :
    Settled w' x := by
  have keep : ∀ {s : Addr} {k k' : Socket}, w.socks s = some k → (k.dev ≠ none → k'.dev ≠ none) →
      k.clients ⊆ k'.clients → Settled (w.setSock s k') x := fun hk hd hc =>
    settled_setSock hx (fun h => hd (devOf_some hk ▸ h)) (clientsOf_some hk ▸ hc)
  cases he with
  | same => exact hx
  | config | listen | unlisten | unlink => exact hx.frame rfl
  | socket ha hk hop =>
    have h1 := settled_setSock (settled_alloc hi ha hx) (fun h => (devOf_some hk ▸ h : _ ≠ none))
      (clientsOf_some hk ▸ List.Subset.refl _)
    exact h1.frame hop.socks
  | assign _ hs => exact keep (sock_of_fdSock hs) (fun _ => Option.some_ne_none _) (List.Subset.refl _)
  | @connect fdId addr n s k v l hs =>
    have h1 : Settled (w.setSock s { k with dev := some v.self, addr := addr }) x :=
      keep (sock_of_fdSock hs) (fun _ => Option.some_ne_none _) (List.Subset.refl _)
    exact h1.frame rfl
  | @accept fdId want s k cl cls ck k2 id _ hs ht hd hcl hck hk2 hop =>
    refine Settled.frame ?_ hop.socks
    obtain ⟨c, hc⟩ := ho.held hs
    have hk := sock_of_fdSock hs
    have hne : cl ≠ s := by
      rintro rfl
      exact ho.apart c _ ⟨cl, by simp [clientsOf_some hk, hcl]⟩ hc
    obtain rfl := Option.some.inj (hk.symm.trans ((Table.set_ne _ _ hne.symm).symm.trans hk2))
    by_cases hxc : x = cl
    · left
      rw [devOf_setSock, if_neg (hxc ▸ hne), devOf_setSock, if_pos hxc]
      exact hd
    · rcases hx with hx | ⟨t, ht⟩
      · left
        rw [devOf_setSock, devOf_setSock, if_neg hxc]
        split_ifs
        · exact hd
        · exact hx
      · refine Or.inr ⟨t, ?_⟩
        rw [clientsOf_setSock, clientsOf_setSock]
        split_ifs with h1 h2
        · rw [h1, clientsOf_some hk, hcl] at ht
          exact (List.mem_cons.1 ht).resolve_left hxc
        · rw [h2, clientsOf_some hck] at ht
          exact ht
        · exact ht
  | recvfrom hs => exact keep (sock_of_fdSock hs) id (List.Subset.refl _)
  | evRecv _ _ hk => exact keep hk id (List.Subset.refl _)
  | @evAccept l i remote t s w1 k tk ht ha hk hl htk =>
    have h1 : Settled (w1.setSock s { k with addr := remote }) x :=
      settled_setSock (settled_alloc hi ha hx) (fun h => (devOf_some hk ▸ h : _ ≠ none))
        (clientsOf_some hk ▸ List.Subset.refl _)
    have h2 : Settled { w1.setSock s { k with addr := remote } with esp := w1.esp.setLink i (some s) } x := h1.frame rfl
    exact settled_setSock h2 (fun h => ((devOf_some htk).symm.trans_ne h : _ ≠ none))
      ((clientsOf_some htk).symm ▸ List.subset_append_left _ _)
  | evClosed _ hd => rcases netdevSockDisconnect_ok hd with rfl | ⟨c, nd, _, _, rfl⟩ <;> exact hx.frame rfl

theorem Settled.live (hi : w.Inv) {s : Addr} (h : Settled w s) : Live w.socks s := by
  rcases h with h | h
  · cases hk : w.socks s with
    | none => exact absurd (by simp [Host.devOf, hk]) h
    | some k => exact ⟨k, hk⟩
  · exact hi.waits_live h

/-! ## The invariant -/

structure Homed (t : Placed) : Prop where
  inv : t.host.Inv
  owned : Owned t.host
  placed : ∀ (l : Fin 5) s, t.host.esp.links l = some s → (s, ((l : ℕ) : ℤ)) ∈ t.homes
  one : ∀ s l l', (s, l) ∈ t.homes → (s, l') ∈ t.homes → l = l'
  settled : ∀ s l, (s, l) ∈ t.homes → Settled t.host s

/-- a socket is in one slot -/
theorem Homed.slot {t : Placed} (h : Homed t) {i j : Fin 5} {s : Addr} (hi : t.host.esp.links i = some s)
    (hj : t.host.esp.links j = some s) : i = j := by
  have hval := h.one s _ _ (h.placed i s hi) (h.placed j s hj)
  exact Fin.ext (by exact_mod_cast hval)

/-- what is given a link now was given none before -/
theorem Homed.not_home {t : Placed} (h : Homed t) {op : Op} {s : Addr} {l : Fin 5} (hg : Gives t.host op w' s l) (i : ℤ) :
    (s, i) ∉ t.homes := by
  intro hm
  have hset := h.settled s i hm
  rcases hg.before with ⟨hdev, c, hc⟩ | hnone
  · exact hset.elim (fun hd => hd hdev) fun hw => h.owned.apart c s hw hc
  · obtain ⟨k, hk⟩ := hset.live h.inv
    rw [hnone] at hk
    cases hk

theorem step_homed (t : Placed) (op : Op) (t' : Placed) (h : Homed t) (hs : placedStep t op = some t') : Homed t' := by
  obtain ⟨w', hstep, rfl⟩ := Option.map_eq_some_iff.1 hs
  have hold : ∀ s l, (s, l) ∈ t.homes → Settled w' s := by
    obtain ⟨w1, he, hl⟩ := step_effect h.inv hstep
    have hsocks : w'.socks = w1.socks := by rw [hl]
    exact fun s l hm => ((h.settled s l hm).effect h.inv h.owned he).frame hsocks
  have hinv := step_inv _ _ _ h.inv hstep
  have hown := step_owned h.inv h.owned hstep
  rcases placed_cases h.inv h.owned hstep with ⟨hnil, hlinks⟩ | ⟨x, i, hg⟩
  · simp only [hnil, List.append_nil]
    exact ⟨hinv, hown, fun l s hl => h.placed l s (hlinks l s hl), h.one, hold⟩
  · simp only [hg.placed]
    refine ⟨hinv, hown, fun l s hl => ?_, fun s l l' hm hm' => ?_, fun s l hm => ?_⟩
    · have hl := hl
      simp only [hg.links, Esp.setLink_apply] at hl
      split_ifs at hl with hi
      · cases hl
        exact List.mem_append_right _ (List.mem_singleton.2 (by rw [hi]))
      · exact List.mem_append_left _ (h.placed l s hl)
    · rcases List.mem_append.1 hm with hm | hm <;> rcases List.mem_append.1 hm' with hm' | hm'
      · exact h.one s l l' hm hm'
      · exact absurd ((Prod.mk.inj (List.mem_singleton.1 hm')).1 ▸ hm) (h.not_home hg l)
      · exact absurd ((Prod.mk.inj (List.mem_singleton.1 hm)).1 ▸ hm') (h.not_home hg l')
      · exact (Prod.mk.inj (List.mem_singleton.1 hm)).2.trans (Prod.mk.inj (List.mem_singleton.1 hm')).2.symm
    · rcases List.mem_append.1 hm with hm | hm
      · exact hold s l hm
      · rw [(Prod.mk.inj (List.mem_singleton.1 hm)).1]
        exact hg.settled

theorem homed_booted (h : Booted w) (hi : w.Inv) : Homed ⟨w, []⟩ where
  inv := hi
  owned := h.owned
  placed l s hl := by simp [h.esp] at hl
  one s l l' hm := by cases hm
  settled s l hm := by cases hm

/-! ## What follows -/

theorem Homed.recv {t : Placed} {l : Fin 5} {data : Bytes} {remote : SockAddrInet}
    (he : espRecv t.host (l : ℕ) data remote = .ok w') :
    w'.fs.nodes = t.host.fs.nodes ∧ ∀ s, t.host.esp.links l ≠ some s → w'.socks s = t.host.socks s := by
  obtain ⟨i, s, k, hi, hl, hk, hx⟩ := espRecv_ok he
  rw [linkIdx_fin] at hi
  cases hi
  rcases hx with ⟨_, rfl⟩ | ⟨_, _, rfl⟩ <;>
    exact ⟨rfl, fun x hx => Table.set_ne _ _ fun hxs => hx (hxs ▸ hl)⟩

/-- the disconnect clears the data of a child that holds the socket -/
theorem disconnect_node {sock : Option Addr} (hd : netdevSockDisconnect w sock = .ok w') : w'.socks = w.socks ∧
    ∀ c, (∀ s, sock = some s → ¬ Holds w c s) → w'.fs.nodes c = w.fs.nodes c := by
  unfold netdevSockDisconnect at hd
  split at hd
  · cases hd
  · rename_i r hr
    obtain ⟨rn, hrn, hd⟩ := bind_ok.1 hd
    obtain ⟨found, hf, hd⟩ := bind_ok.1 hd
    cases found with
    | none =>
      cases hd
      exact ⟨rfl, fun _ _ => rfl⟩
    | some c =>
      obtain ⟨nd, hn, hd⟩ := bind_ok.1 hd
      cases hd
      rw [Host.node_ok] at hrn hn
      obtain ⟨hm, nd', hn', hdata⟩ := findData_some hf
      obtain rfl := Option.some.inj (hn.symm.trans hn')
      refine ⟨rfl, fun x hx => ?_⟩
      by_cases he : x = c
      · subst he
        cases hs : sock with
        | none =>
          -- a node without a socket is cleared again
          rw [hs] at hdata
          obtain ⟨fsId, self, data, refCnt, type, childs, parent, name⟩ := nd
          cases hdata
          simp only [Table.set_self, hn]
        | some s =>
          have hmem : x ∈ w.netChilds := by simpa [Host.netChilds, hr, hrn] using hm
          exact absurd ⟨hmem, by simp [Host.nodeData, hn, hdata, hs]⟩ (hx s hs)
      · exact Table.set_ne _ _ he

theorem Homed.closed {t : Placed} {l : Fin 5} (he : espClosed t.host (l : ℕ) = .ok w') :
    w'.socks = t.host.socks ∧ ∀ c, (∀ s, t.host.esp.links l = some s → ¬ Holds t.host c s) →
      w'.fs.nodes c = t.host.fs.nodes c := by
  obtain ⟨i, hi, hd⟩ := espClosed_ok he
  rw [linkIdx_fin] at hi
  cases hi
  have hnode := disconnect_node hd
  exact hnode

/-- what is announced goes to the link of the socket -/
theorem espSend_out {s : Addr} {mem : Bytes} {n : ℕ} {r : ℤ} (hs : espSend w s mem n = .ok (r, w')) :
    w'.itf.out = w.itf.out ∨ ∃ k l ws rest, w.socks s = some k ∧ w.esp.links l = some s ∧
      render (cipsend k l n).1 (cipsend k l n).2 = .ok ws ∧ (rest = [] ∨ rest = serialCmdSend (some mem) ++ [[10]]) ∧
      w'.itf.out = w.itf.out ++ ws ++ [[10]] ++ rest := by
  rcases espSend_ok hs with rfl | ⟨k, l, ws, hk, hl, hws, rfl | rfl⟩
  · exact Or.inl rfl
  · exact Or.inr ⟨k, l, ws, [], hk, getLinkId_some hl, hws, Or.inl rfl, by simp [Serial.sent]⟩
  · exact Or.inr ⟨k, l, ws, _, hk, getLinkId_some hl, hws, Or.inr rfl, by
      simp [Serial.sentPayload, Serial.sent, List.append_assoc]⟩

theorem Homed.send {t : Placed} (h : Homed t) {fdId : ℤ} {mem : Bytes} {n : ℕ} {addr : Option SockAddrInet}
    {addrLen : ℕ} {r : ℤ} (hs : bosSendto t.host fdId mem n addr addrLen = .ok (r, w')) :
    w'.itf.out = t.host.itf.out ∨ ∃ s k, ∃ l : Fin 5, ∃ ws rest, w'.fdSock fdId = some (s, k) ∧ (s, ((l : ℕ) : ℤ)) ∈ t.homes ∧
      render (cipsend k l n).1 (cipsend k l n).2 = .ok ws ∧ (rest = [] ∨ rest = serialCmdSend (some mem) ++ [[10]]) ∧
      w'.itf.out = t.host.itf.out ++ ws ++ [[10]] ++ rest := by
  rcases bosSendto_ok hs with rfl | ⟨s, k, dev, w1, hfs, hdev, hgo⟩
  · exact Or.inl rfl
  obtain ⟨fd, nd, hf, hn, hdata, hsk⟩ := Host.fdSock_some.1 hfs
  -- the address of a datagram may have changed the socket, nothing else
  obtain ⟨hfs1, hesp1, hitf1⟩ : w1.fs = t.host.fs ∧ w1.esp = t.host.esp ∧ w1.itf = t.host.itf := by
    rcases sendtoDev_ok hsk hdev with rfl | ⟨a, v, rfl, _, rfl⟩ <;> exact ⟨rfl, rfl, rfl⟩
  rcases hgo with rfl | ⟨r1, he⟩
  · exact Or.inl (by rw [hitf1])
  · rcases espSend_out he with ho | ⟨k1, l, ws, rest, hk1, hl, hws, hrest, ho⟩
    · exact Or.inl (by rw [ho, hitf1])
    · right
      have hline := sendDev_line he
      rw [hesp1] at hl
      refine ⟨s, k1, l, ws, rest, ?_, h.placed l s hl, hws, hrest, by rw [ho, hitf1]⟩
      rw [hline]
      exact Host.fdSock_some.2 ⟨fd, nd, by rw [← hf, hfs1], by rw [← hn, hfs1], hdata, hk1⟩

/-- the driver stops its server, or closes the link of the socket -/
theorem espClose_out {s : Addr} {r : ℤ} (hc : espClose w s = .ok (r, w')) : w'.itf.out = w.itf.out ∨ ∃ ws,
    w'.itf.out = w.itf.out ++ ws ++ [[10]] ∧ (w.esp.tcpServer = some s ∧ render (str "AT+CIPSERVER=0") [] = .ok ws ∨
      ∃ l : Fin 5, w.esp.links l = some s ∧ render (str "AT+CIPCLOSE=%d") [.word l] = .ok ws) := by
  obtain ⟨⟨s', k⟩, hk, hc⟩ := bind_ok.1 hc
  obtain ⟨hx, hk⟩ := Host.sock_ok.1 hk
  cases hx
  obtain ⟨v, _, hc⟩ := bind_ok.1 hc
  simp only at hc
  split_ifs at hc with ht
  · obtain ⟨⟨r1, itf⟩, hsend, hc⟩ := bind_ok.1 hc
    obtain ⟨ws, hws, _, rfl⟩ := sendCmd_ok hsend
    refine Or.inr ⟨ws, ?_, Or.inl ⟨ht, hws⟩⟩
    simp only at hc
    split_ifs at hc <;> cases hc <;> rfl
  · split at hc
    · cases hc
      exact Or.inl rfl
    · rename_i l hl
      obtain ⟨⟨r1, itf⟩, hsend, hc⟩ := bind_ok.1 hc
      obtain ⟨ws, hws, _, rfl⟩ := sendCmd_ok hsend
      refine Or.inr ⟨ws, ?_, Or.inr ⟨l, getLinkId_some hl, hws⟩⟩
      simp only at hc
      split_ifs at hc <;> cases hc <;> rfl

theorem Homed.close {t : Placed} (h : Homed t) {fdId r : ℤ} (hc : bosClose t.host fdId = .ok (r, w')) :
    w'.itf.out = t.host.itf.out ∨ ∃ s k, t.host.fdSock fdId = some (s, k) ∧ ∃ ws,
      w'.itf.out = t.host.itf.out ++ ws ++ [[10]] ∧
      (t.host.esp.tcpServer = some s ∧ render (str "AT+CIPSERVER=0") [] = .ok ws ∨
        ∃ l : Fin 5, (s, ((l : ℕ) : ℤ)) ∈ t.homes ∧ render (str "AT+CIPCLOSE=%d") [.word l] = .ok ws) := by
  rcases bosClose_cases h.inv fdId with ⟨_, he⟩ | ⟨_, _, _, he⟩ | ⟨_, _, _, _, he⟩ | ⟨s, k, v, hs, _, _, he⟩ <;>
    rw [he] at hc
  · cases hc
    exact Or.inl rfl
  · cases hc
    exact Or.inl rfl
  · cases hc
    exact Or.inl rfl
  · rcases espClose_out hc with ho | ⟨ws, ho, hcmd⟩
    · exact Or.inl ho
    · refine Or.inr ⟨s, k, hs, ws, ho, hcmd.imp id ?_⟩
      rintro ⟨l, hl, hws⟩
      exact ⟨l, h.placed l s hl, hws⟩

/-- **Connections stay apart**, after every run. -/
theorem isolation {ok : ℕ → Bool} {junk : Addr → Junk} {ans : ℕ → Res} {tty : Bool} {w0 : Host} {ops : List Op}
    {t : Placed} (hb : boot ok junk ans tty = some w0) (hr : run placedStep ⟨w0, []⟩ ops = some t) : Isolated t := by
  have h := inv_run step_homed (homed_booted (boot_booted hb) (boot_inv hb)) hr
  constructor
  · exact fun i j s hi hj => h.slot hi hj
  · exact h.owned.one
  · exact h.owned.childs
  · exact h.one
  · exact h.placed
  · exact fun l data remote w' he => Homed.recv he
  · exact fun l w' he => Homed.closed he
  · exact fun fdId mem n addr addrLen r w' hs => h.send hs
  · exact fun fdId r w' hc => h.close hc

/-- one socket is connected on link 0, another one accepted on link 1 -/
def sampleOps : List Op :=
  [.socket .afInet .stream, .connect 1 samplePeer 12, .socket .afInet .stream, .bind 2 samplePeer 12, .listen 2 0,
    .evAccept 1 samplePeer, .accept 2 none]

theorem isolation_sample : ∃ w t, sampleFrom (fun w => ⟨w, []⟩) placedStep sampleOps = some (w, t) ∧
    t.homes = [(7, 0), (15, 1)] ∧ Isolated t := by
  have hr : (sampleFrom (fun w => ⟨w, []⟩) placedStep sampleOps).map (fun p => p.2.homes) = some [(7, 0), (15, 1)] := by
    decide +kernel
  obtain ⟨⟨w, t⟩, ht, hm⟩ := Option.map_eq_some_iff.1 hr
  obtain ⟨hb, hrun⟩ := sampleFrom_some ht
  exact ⟨w, t, ht, hm, isolation hb hrun⟩

end EspHostdriver.Isolation
