/-
Who has a socket: a node below `net_root`, or the list of clients of a server.

Nothing in the code says that a socket has one place only. It follows from where sockets come from: `bos_socket` makes a
fresh one for a fresh node, the `accept` handler makes a fresh one for the end of a list of clients, and `bos_accept`
takes it off that list and makes the node for it. Until then it has no device.

- `Owned`: no socket is the data of two nodes or waits twice, and a socket that waits has neither a node nor a device.
- `step_owned`, `Reach.owned`: this is kept by every step, and holds in every reachable state.
-/
import EspHostdriver.Net.Effects

namespace EspHostdriver

/-! ## The invariant -/

/-- the children of `net_root` -/
def Host.netChilds (w : Host) : List Addr := ((w.netRoot.bind w.fs.nodes).map FsNode.childs).getD []

/-- `node->data` -/
def Host.nodeData (w : Host) (n : Addr) : Option Addr := (w.fs.nodes n).bind FsNode.data

/-- the node `c` below `net_root` has the socket `s` -/
def Holds (w : Host) (c s : Addr) : Prop := c ∈ w.netChilds ∧ w.nodeData c = some s

/-- `sock->clients` -/
def Host.clientsOf (w : Host) (s : Addr) : List Addr := ((w.socks s).map Socket.clients).getD []

/-- `sock->dev` -/
def Host.devOf (w : Host) (s : Addr) : Option Addr := (w.socks s).bind Socket.dev

/-- the socket is in the list of clients of some server -/
def Waits (w : Host) (s : Addr) : Prop := ∃ t, s ∈ w.clientsOf t

structure Owned (w : Host) : Prop where
  childs : w.netChilds.Nodup
  fds : ∀ fd ∈ w.fs.fdLst, fd.node ∈ w.netChilds
  one : ∀ c c' s, Holds w c s → Holds w c' s → c = c'
  lt : ∀ c s, Holds w c s → s < w.fs.heap.next
  apart : ∀ c s, Waits w s → ¬ Holds w c s
  dev : ∀ s, Waits w s → w.devOf s = none
  queue : ∀ t, (w.clientsOf t).Nodup
  once : ∀ t t' s, s ∈ w.clientsOf t → s ∈ w.clientsOf t' → t = t'

variable {w w' : Host}

/-! ## Reading a state -/

theorem clientsOf_some {s : Addr} {k : Socket} (hk : w.socks s = some k) : w.clientsOf s = k.clients := by
  simp [Host.clientsOf, hk]

theorem devOf_some {s : Addr} {k : Socket} (hk : w.socks s = some k) : w.devOf s = k.dev := by simp [Host.devOf, hk]

theorem clientsOf_setSock (s : Addr) (k : Socket) (t : Addr) :
    (w.setSock s k).clientsOf t = if t = s then k.clients else w.clientsOf t := by
  simp only [Host.clientsOf, Host.setSock, Table.set_apply]
  split_ifs <;> rfl

theorem devOf_setSock (s : Addr) (k : Socket) (t : Addr) :
    (w.setSock s k).devOf t = if t = s then k.dev else w.devOf t := by
  simp only [Host.devOf, Host.setSock, Table.set_apply]
  split_ifs <;> rfl

/-- a client that waits is live -/
theorem Host.Inv.waits_live (h : w.Inv) {s : Addr} (hs : Waits w s) : Live w.socks s := by
  obtain ⟨t, ht⟩ := hs
  cases hk : w.socks t with
  | none => simp [Host.clientsOf, hk] at ht
  | some k =>
    rw [clientsOf_some hk] at ht
    exact (h.socks t k hk).clients s ht

/-- a fresh address is no child of the root -/
theorem Host.Inv.next_notMem (h : w.Inv) : w.fs.heap.next ∉ w.netChilds := by
  obtain ⟨r, rn, hr, hn, hc⟩ := h.fs.root
  intro hm
  simp only [Host.netChilds, hr, Option.bind_some, hn, Option.map_some, Option.getD_some] at hm
  obtain ⟨x, hx⟩ := hc _ hm
  rw [(h.fs.fresh _ le_rfl).1] at hx
  cases hx

/-- the socket of a descriptor is held by the descriptor's node -/
theorem Owned.held (h : Owned w) {fdId : ℤ} {s : Addr} {k : Socket} (hs : w.fdSock fdId = some (s, k)) :
    ∃ c, Holds w c s := by
  obtain ⟨fd, nd, hf, hn, hd, _⟩ := Host.fdSock_some.1 hs
  exact ⟨fd.node, h.fds fd (List.mem_of_find?_eq_some hf), by simp [Host.nodeData, hn, hd]⟩

/-! ## Changes that keep it -/

/-- the nodes stay, and lists of clients only get shorter -/
theorem Owned.shrink (h : Owned w) (hf : w'.fs = w.fs) (hr : w'.netRoot = w.netRoot)
    (hsub : ∀ t, (w'.clientsOf t).Sublist (w.clientsOf t)) (hdev : ∀ s, Waits w' s → w'.devOf s = none) : Owned w' := by
  have hc : w'.netChilds = w.netChilds := by simp only [Host.netChilds, hf, hr]
  have hh : ∀ c s, Holds w' c s ↔ Holds w c s := fun c s => by simp only [Holds, hc, Host.nodeData, hf]
  have hw : ∀ s, Waits w' s → Waits w s := fun s ⟨t, ht⟩ => ⟨t, (hsub t).subset ht⟩
  constructor
  · exact hc ▸ h.childs
  · exact hf ▸ hc ▸ h.fds
  · exact fun c c' s hx hy => h.one c c' s ((hh c s).1 hx) ((hh c' s).1 hy)
  · exact fun c s hx => hf ▸ h.lt c s ((hh c s).1 hx)
  · exact fun c s hx hy => h.apart c s (hw s hx) ((hh c s).1 hy)
  · exact hdev
  · exact fun t => (h.queue t).sublist (hsub t)
  · exact fun t t' s hx hy => h.once t t' s ((hsub t).subset hx) ((hsub t').subset hy)

/-- the nodes and the sockets stay -/
theorem Owned.frame (h : Owned w) (hf : w'.fs = w.fs) (hr : w'.netRoot = w.netRoot) (hs : w'.socks = w.socks) :
    Owned w' := by
  have hc : ∀ t, w'.clientsOf t = w.clientsOf t := fun t => by simp only [Host.clientsOf, hs]
  refine h.shrink hf hr (fun t => hc t ▸ List.Sublist.refl _) fun s hx => ?_
  obtain ⟨t, ht⟩ := hx
  rw [Host.devOf, hs]
  exact h.dev s ⟨t, hc t ▸ ht⟩

theorem Owned.withHeap (h : Owned w) {hp : Heap} (hn : w.fs.heap.next ≤ hp.next) : Owned (w.withHeap hp) where
  childs := h.childs
  fds := h.fds
  one := h.one
  lt c s hc := lt_of_lt_of_le (h.lt c s hc) hn
  apart := h.apart
  dev := h.dev
  queue := h.queue
  once := h.once

/-- a socket that is written with no more clients than it had, and made no device while it waits -/
theorem Owned.setSock (h : Owned w) {s : Addr} {k : Socket} (hc : k.clients.Sublist (w.clientsOf s))
    (hd : Waits w s → k.dev = none) : Owned (w.setSock s k) := by
  have hsub : ∀ t, ((w.setSock s k).clientsOf t).Sublist (w.clientsOf t) := by
    intro t
    rw [clientsOf_setSock]
    split_ifs with ht
    · exact ht ▸ hc
    · exact List.Sublist.refl _
  refine h.shrink rfl rfl hsub fun t hx => ?_
  obtain ⟨u, hu⟩ := hx
  have hx : Waits w t := ⟨u, (hsub u).subset hu⟩
  rw [devOf_setSock]
  split_ifs with ht
  · exact hd (ht ▸ hx)
  · exact h.dev t hx

/-- a socket that is nowhere becomes the last client of a server -/
theorem Owned.enqueue (h : Owned w) {s t : Addr} {tk : Socket} (ht : w.socks t = some tk) (hw : ¬ Waits w s)
    (hh : ∀ c, ¬ Holds w c s) (hd : w.devOf s = none) :
    Owned (w.setSock t { tk with clients := tk.clients ++ [s] }) := by
  have hcl : ∀ u x, x ∈ (w.setSock t { tk with clients := tk.clients ++ [s] }).clientsOf u ↔
      x ∈ w.clientsOf u ∨ u = t ∧ x = s := by
    intro u x
    rw [clientsOf_setSock]
    split_ifs with hu
    · simp [hu, clientsOf_some ht]
    · simp [hu]
  have hws : ∀ x, Waits (w.setSock t { tk with clients := tk.clients ++ [s] }) x → Waits w x ∨ x = s := by
    rintro x ⟨u, hu⟩
    rcases (hcl u x).1 hu with hu | ⟨_, rfl⟩
    · exact Or.inl ⟨u, hu⟩
    · exact Or.inr rfl
  refine ⟨h.childs, h.fds, h.one, h.lt, fun c x hx hc => ?_, fun x hx => ?_, fun u => ?_, fun u u' x hu hu' => ?_⟩
  · rcases hws x hx with hx | rfl
    · exact h.apart c x hx hc
    · exact hh c hc
  · have hdev : (w.setSock t { tk with clients := tk.clients ++ [s] }).devOf x = w.devOf x := by
      rw [devOf_setSock]
      split_ifs with he
      · rw [he, devOf_some ht]
      · rfl
    rw [hdev]
    rcases hws x hx with hx | rfl
    · exact h.dev x hx
    · exact hd
  · rw [clientsOf_setSock]
    split_ifs with hu
    · have hq := h.queue t
      rw [clientsOf_some ht] at hq
      refine List.nodup_append.2 ⟨hq, List.nodup_singleton s, fun x hx y hy => ?_⟩
      rw [List.mem_singleton.1 hy]
      rintro rfl
      exact hw ⟨t, by rwa [clientsOf_some ht]⟩
    · exact h.queue u
  · rcases (hcl u x).1 hu with hx | ⟨hut, hx⟩ <;> rcases (hcl u' x).1 hu' with hx' | ⟨hut', hx'⟩
    · exact h.once u u' x hx hx'
    · exact absurd ⟨u, hx' ▸ hx⟩ hw
    · exact absurd ⟨u', hx ▸ hx'⟩ hw
    · rw [hut, hut']

/-- the nodes that a disconnect leaves -/
theorem disconnect_data {sock : Option Addr} (hd : netdevSockDisconnect w sock = .ok w') : w'.fs.fdLst = w.fs.fdLst ∧
    w'.netChilds = w.netChilds ∧ (∀ n, w'.nodeData n = w.nodeData n ∨ w'.nodeData n = none) ∧
    w'.socks = w.socks ∧ w'.fs.heap = w.fs.heap := by
  rcases netdevSockDisconnect_ok hd with rfl | ⟨c, nd, hn, _, rfl⟩
  · exact ⟨rfl, rfl, fun _ => Or.inl rfl, rfl, rfl⟩
  · refine ⟨rfl, ?_, fun n => ?_, rfl, rfl⟩
    · simp only [Host.netChilds]
      cases w.netRoot with
      | none => rfl
      | some r =>
        by_cases hr : r = c
        · simp [hr, hn]
        · simp [Table.set_ne _ _ hr]
    · by_cases he : n = c
      · exact Or.inr (by simp [Host.nodeData, he])
      · exact Or.inl (by simp only [Host.nodeData, Table.set_ne _ _ he])

theorem Owned.disconnect (h : Owned w) {sock : Option Addr} (hd : netdevSockDisconnect w sock = .ok w') : Owned w' := by
  obtain ⟨hfd, hc, hdata, hsocks, hheap⟩ := disconnect_data hd
  have hh : ∀ c s, Holds w' c s → Holds w c s := by
    rintro c s ⟨hm, hs⟩
    rcases hdata c with he | he
    · exact ⟨hc ▸ hm, he ▸ hs⟩
    · rw [he] at hs
      cases hs
  have hcl : ∀ t, w'.clientsOf t = w.clientsOf t := fun t => by simp only [Host.clientsOf, hsocks]
  have hw : ∀ s, Waits w' s ↔ Waits w s := fun s => by simp only [Waits, hcl]
  refine ⟨hc ▸ h.childs, hfd ▸ hc ▸ h.fds, fun c c' s hx hy => h.one c c' s (hh c s hx) (hh c' s hy),
    fun c s hx => hheap ▸ h.lt c s (hh c s hx), fun c s hx hy => h.apart c s ((hw s).1 hx) (hh c s hy), fun s hx => ?_,
    fun t => hcl t ▸ h.queue t, fun t t' s => ?_⟩
  · rw [Host.devOf, hsocks]
    exact h.dev s ((hw s).1 hx)
  · rw [hcl, hcl]
    exact h.once t t' s

theorem Opened.netRoot {name : Bytes} {s : Addr} {id : ℤ} (ho : Opened w w' name s id) : w'.netRoot = w.netRoot := by
  rw [ho.rest]

theorem Opened.socks {name : Bytes} {s : Addr} {id : ℤ} (ho : Opened w w' name s id) : w'.socks = w.socks := by
  rw [ho.rest]

theorem Opened.netChilds {name : Bytes} {s : Addr} {id : ℤ} (ho : Opened w w' name s id) :
    w'.netChilds = w.netChilds ++ [w.fs.heap.next] := by
  obtain ⟨r, rn, hr, hn, hn'⟩ := ho.root
  simp only [Host.netChilds, ho.netRoot, hr, Option.bind_some, hn, hn', Option.map_some, Option.getD_some]

theorem Opened.nodeData_next {name : Bytes} {s : Addr} {id : ℤ} (ho : Opened w w' name s id) :
    w'.nodeData w.fs.heap.next = some s := by
  obtain ⟨nd, hn, hd, _⟩ := ho.node
  simp [Host.nodeData, hn, hd]

theorem Opened.nodeData_ne {name : Bytes} {s : Addr} {id : ℤ} (ho : Opened w w' name s id) {c : Addr}
    (hc : c ≠ w.fs.heap.next) : w'.nodeData c = w.nodeData c := by
  obtain ⟨r, rn, hr, hn, hn'⟩ := ho.root
  by_cases he : w.netRoot = some c
  · obtain rfl := Option.some.inj (hr.symm.trans he)
    simp only [Host.nodeData, hn, hn', Option.bind_some]
  · rw [Host.nodeData, ho.others c hc he, Host.nodeData]

/-- the new descriptor is found -/
theorem Opened.acquire_new {name : Bytes} {s : Addr} {id : ℤ} (h : w.Inv) (ho : Opened w w' name s id) :
    ∃ fd, w'.fs.fdLst = w.fs.fdLst ++ [fd] ∧ fd.id = id ∧ fd.node = w.fs.heap.next ∧
      fsFdAcquire w'.fs id = some fd := by
  obtain ⟨fd, hlst, hid, hnode⟩ := ho.fd
  refine ⟨fd, hlst, hid, hnode, ?_⟩
  -- no older descriptor has its number
  have hold : fsFdAcquire w.fs id = none := List.find?_eq_none.2 fun g hg => by
    have := h.fs.fdId g hg
    have := ho.id_eq
    simp only [decide_eq_true_eq]
    omega
  rw [fsFdAcquire] at hold ⊢
  rw [hlst, List.find?_append, hold]
  simp [hid]

/-- and leads to the socket -/
theorem Opened.fdSock_new {name : Bytes} {s : Addr} {k : Socket} {id : ℤ} (h : w.Inv) (ho : Opened w w' name s id)
    (hk : w.socks s = some k) : w'.fdSock id = some (s, k) := by
  obtain ⟨fd, _, _, hnode, hf⟩ := ho.acquire_new h
  obtain ⟨nd, hn, hd, _⟩ := ho.node
  exact Host.fdSock_some.2 ⟨fd, nd, hf, hnode ▸ hn, hd, by rw [ho.socks]; exact hk⟩

/-- a descriptor that was there leads where it led -/
theorem Opened.fdSock_old {name : Bytes} {s x : Addr} {k : Socket} {id fdId : ℤ} (h : w.Inv)
    (ho : Opened w w' name s id) (hx : w.fdSock fdId = some (x, k)) : w'.fdSock fdId = some (x, k) := by
  obtain ⟨fd, nd, hf, hn, hd, hk⟩ := Host.fdSock_some.1 hx
  have hne : fd.node ≠ w.fs.heap.next := by
    intro he
    rw [he, (h.fs.fresh _ le_rfl).1] at hn
    cases hn
  have hdata : w'.nodeData fd.node = some x := by rw [ho.nodeData_ne hne, Host.nodeData, hn, Option.bind_some, hd]
  obtain ⟨nd', hn', hd'⟩ := Option.bind_eq_some_iff.1 hdata
  obtain ⟨fd', hlst, _⟩ := ho.fd
  have hf' : fsFdAcquire w'.fs fdId = some fd := by
    rw [fsFdAcquire, hlst, List.find?_append, show w.fs.fdLst.find? _ = some fd from hf]
    rfl
  exact Host.fdSock_some.2 ⟨fd, nd', hf', hn', hd', by rw [ho.socks]; exact hk⟩

/-- the new node holds the socket, and every other one what it held -/
theorem Opened.holds {name : Bytes} {s : Addr} {id : ℤ} (h : w.Inv) (ho : Opened w w' name s id) {c x : Addr} :
    Holds w' c x ↔ Holds w c x ∨ c = w.fs.heap.next ∧ x = s := by
  have hfresh := h.next_notMem
  by_cases hc : c = w.fs.heap.next
  · simp only [Holds, ho.netChilds, hc, ho.nodeData_next, List.mem_append, List.mem_singleton, or_true, true_and,
      Option.some.injEq, hfresh, false_and, false_or]
    exact eq_comm
  · simp only [Holds, ho.netChilds, ho.nodeData_ne hc, List.mem_append, List.mem_singleton, hc, or_false, false_and]

/-- a socket that is nowhere gets a node and a descriptor -/
theorem Owned.opened (h : Owned w) (hi : w.Inv) {name : Bytes} {s : Addr} {id : ℤ} (ho : Opened w w' name s id)
    (hs : s < w.fs.heap.next) (hw : ¬ Waits w s) (hh : ∀ c, ¬ Holds w c s) : Owned w' := by
  have hcl : ∀ t, w'.clientsOf t = w.clientsOf t := fun t => by simp only [Host.clientsOf, ho.socks]
  have hws : ∀ x, Waits w' x ↔ Waits w x := fun x => by simp only [Waits, hcl]
  refine ⟨?_, fun fd hfd => ?_, fun c c' x hx hx' => ?_, fun c x hx => ?_, fun c x hx hc => ?_, fun x hx => ?_,
    fun t => hcl t ▸ h.queue t, fun t t' x => ?_⟩
  · rw [ho.netChilds]
    exact List.nodup_append.2 ⟨h.childs, List.nodup_singleton _, fun a ha b hb => by
      rw [List.mem_singleton.1 hb]
      rintro rfl
      exact hi.next_notMem ha⟩
  · obtain ⟨fd', hlst, _, hnode⟩ := ho.fd
    rw [hlst, List.mem_append, List.mem_singleton] at hfd
    rw [ho.netChilds, List.mem_append, List.mem_singleton]
    rcases hfd with hfd | rfl
    · exact Or.inl (h.fds fd hfd)
    · exact Or.inr hnode
  · rcases (ho.holds hi).1 hx with hc | ⟨hc, hs⟩ <;> rcases (ho.holds hi).1 hx' with hc' | ⟨hc', hs'⟩
    · exact h.one c c' x hc hc'
    · exact absurd (hs' ▸ hc) (hh c)
    · exact absurd (hs ▸ hc') (hh c')
    · rw [hc, hc']
  · rw [ho.next]
    rcases (ho.holds hi).1 hx with hx | ⟨_, rfl⟩
    · exact Nat.lt_succ_of_lt (Nat.lt_succ_of_lt (h.lt c x hx))
    · exact Nat.lt_succ_of_lt (Nat.lt_succ_of_lt hs)
  · rw [hws] at hx
    rcases (ho.holds hi).1 hc with hc | ⟨_, rfl⟩
    · exact h.apart c x hx hc
    · exact hw hx
  · rw [Host.devOf, ho.socks]
    exact h.dev x ((hws x).1 hx)
  · rw [hcl, hcl]
    exact h.once t t' x

theorem waits_setSock {s : Addr} {k : Socket} (hc : k.clients = w.clientsOf s) (x : Addr) :
    Waits (w.setSock s k) x ↔ Waits w x := by
  have he : ∀ t, (w.setSock s k).clientsOf t = w.clientsOf t := by
    intro t
    rw [clientsOf_setSock]
    split_ifs with ht
    · rw [hc, ht]
    · rfl
  simp only [Waits, he]

/-- a fresh socket is nowhere -/
theorem Owned.alloc (h : Owned w) (hi : w.Inv) {type : SockType} {s : Addr}
    (ha : netdevSockAlloc w type = .ok (s, w')) :
    Owned w' ∧ ¬ Waits w' s ∧ (∀ c, ¬ Holds w' c s) ∧ s < w'.fs.heap.next := by
  obtain ⟨k, n, rfl, hn, _, hd, hc, _, _, rfl⟩ := netdevSockAlloc_ok ha
  have hnone := (hi.fs.fresh _ le_rfl).2
  have hcl : k.clients = (w.withHeap { w.fs.heap with next := w.fs.heap.next + n }).clientsOf w.fs.heap.next := by
    simp [Host.clientsOf, Host.withHeap, hnone, hc]
  refine ⟨(h.withHeap (Nat.le_add_right _ n)).setSock (hcl ▸ List.Sublist.refl _) fun _ => hd, fun hw => ?_,
    fun c hh => lt_irrefl _ (h.lt c _ hh), Nat.lt_add_of_pos_right hn⟩
  obtain ⟨x, hx⟩ := hi.waits_live ((waits_setSock hcl _).1 hw)
  rw [hnone] at hx
  cases hx

/-! ## Every step keeps it -/

/-- a client that is taken off its server's list waits no more and has the server's device -/
theorem Owned.takeClient (h : Owned w) {s cl : Addr} {cls : List Addr} {k ck : Socket} (hk : w.socks s = some k)
    (hcl : k.clients = cl :: cls) (hck : w.socks cl = some ck) (hne : cl ≠ s) :
    Owned ((w.setSock cl { ck with dev := k.dev }).setSock s { k with clients := cls }) ∧
      ¬ Waits ((w.setSock cl { ck with dev := k.dev }).setSock s { k with clients := cls }) cl := by
  have hcs := clientsOf_some hk
  rw [hcl] at hcs
  have hsub : cls.Sublist (w.clientsOf s) := hcs ▸ List.sublist_cons_self cl cls
  -- first off the list, then the device
  have h1 : Owned (w.setSock s { k with clients := cls }) :=
    h.setSock hsub fun hw => devOf_some hk ▸ h.dev s hw
  have hnd := h.queue s
  rw [hcs, List.nodup_cons] at hnd
  have hnw : ¬ Waits (w.setSock s { k with clients := cls }) cl := by
    rintro ⟨t, ht⟩
    rw [clientsOf_setSock] at ht
    split_ifs at ht with he
    · exact hnd.1 ht
    · exact he (h.once t s cl ht (by simp [hcs]))
  have hclt : ({ ck with dev := k.dev } : Socket).clients = (w.setSock s { k with clients := cls }).clientsOf cl := by
    rw [clientsOf_setSock, if_neg hne, clientsOf_some hck]
  have heq : (w.setSock cl { ck with dev := k.dev }).setSock s { k with clients := cls } =
      (w.setSock s { k with clients := cls }).setSock cl { ck with dev := k.dev } := by
    simp only [Host.setSock, Table.set_comm _ hne]
  rw [heq]
  exact ⟨h1.setSock (hclt ▸ List.Sublist.refl _) fun hw => absurd hw hnw, fun hw => hnw ((waits_setSock hclt _).1 hw)⟩

theorem Effect.owned (hi : w.Inv) (h : Owned w) {op : Op} (he : Effect w op w') : Owned w' := by
  cases he with
  | same => exact h
  | config => exact h.frame rfl rfl rfl
  | @socket domain type s w1 k id _ ha hk ho =>
    obtain ⟨h1, hw, hh, hlt⟩ := h.alloc hi ha
    have hcl := clientsOf_some hk
    have h2 : Owned (w1.setSock s { k with addr := { k.addr with domain := domain } }) :=
      h1.setSock (hcl ▸ List.Sublist.refl _) fun hx => absurd hx hw
    have h3 : Owned { w1.setSock s { k with addr := { k.addr with domain := domain } } with fdId := w.fdId + 1 } :=
      h2.frame rfl rfl rfl
    refine h3.opened (hi.socketMade ha hk) ho hlt (fun hx => hw ?_) hh
    exact (waits_setSock (k := { k with addr := { k.addr with domain := domain } }) hcl.symm s).1 hx
  | assign _ hs =>
    obtain ⟨c, hc⟩ := h.held hs
    exact h.setSock (clientsOf_some (sock_of_fdSock hs) ▸ List.Sublist.refl _) fun hw => absurd hc (h.apart c _ hw)
  | connect hs =>
    obtain ⟨c, hc⟩ := h.held hs
    exact (h.setSock (clientsOf_some (sock_of_fdSock hs) ▸ List.Sublist.refl _)
      fun hw => absurd hc (h.apart c _ hw)).frame rfl rfl rfl
  | listen => exact h.frame rfl rfl rfl
  | unlisten => exact h.frame rfl rfl rfl
  | unlink => exact h.frame rfl rfl rfl
  | @accept fdId want s k cl cls ck k2 id _ hs ht hd hcl hck hk2 ho =>
    obtain ⟨c, hc⟩ := h.held hs
    have hk := sock_of_fdSock hs
    have hwait : Waits w cl := ⟨s, by simp [clientsOf_some hk, hcl]⟩
    have hne : cl ≠ s := by
      rintro rfl
      exact h.apart c _ hwait hc
    have hk2' : w.socks s = some k2 := (Table.set_ne _ _ hne.symm).symm.trans hk2
    obtain rfl := Option.some.inj (hk.symm.trans hk2')
    obtain ⟨h1, hnw⟩ := h.takeClient hk hcl hck hne
    exact h1.opened (hi.takeClient hk hcl hck hk2) ho (hi.live_lt hck) hnw fun c hx => h.apart c cl hwait hx
  | recvfrom hs =>
    have hk := sock_of_fdSock hs
    exact h.setSock (clientsOf_some hk ▸ List.Sublist.refl _) fun hw => devOf_some hk ▸ h.dev _ hw
  | evRecv _ _ hk =>
    exact (h.withHeap (Nat.le_add_right _ _)).setSock (clientsOf_some hk ▸ List.Sublist.refl _)
      fun hw => devOf_some hk ▸ h.dev _ hw
  | @evAccept l i remote t s w1 k tk ht ha hk _ htk =>
    obtain ⟨h1, hw, hh, _⟩ := h.alloc hi ha
    obtain ⟨_, _, _, k', hk', hd, _, _⟩ := hi.alloc ha
    rw [hk] at hk'
    cases hk'
    have hcl := clientsOf_some hk
    have h2 : Owned (w1.setSock s { k with addr := remote }) := h1.setSock (hcl ▸ List.Sublist.refl _) fun _ => hd
    have hw2 : ¬ Waits (w1.setSock s { k with addr := remote }) s := fun hx =>
      hw ((waits_setSock (k := { k with addr := remote }) hcl.symm s).1 hx)
    have h3 : Owned { w1.setSock s { k with addr := remote } with esp := w1.esp.setLink i (some s) } :=
      h2.frame rfl rfl rfl
    refine h3.enqueue htk hw2 hh ?_
    exact (devOf_some (w1.setSock_self s { k with addr := remote })).trans hd
  | @evClosed l i _ _ hd =>
    have h1 : Owned { w with esp := w.esp.setLink i none } := h.frame rfl rfl rfl
    exact h1.disconnect hd

theorem step_owned (hi : w.Inv) (h : Owned w) {op : Op} (hs : step w op = some w') : Owned w' := by
  obtain ⟨w1, he, hl⟩ := step_effect hi hs
  rw [hl]
  exact (he.owned hi h).frame rfl rfl rfl

/-- at the start the root has its link to itself and no more -/
theorem Booted.owned (h : Booted w) : Owned w := by
  have hc : w.netChilds = [3] := by simp [Host.netChilds, h.netRoot, h.nodes, bootFs]
  have hd : w.nodeData 3 = some 2 := by simp [Host.nodeData, h.nodes, bootFs]
  have hcl : ∀ t, w.clientsOf t = [] := fun t => by simp [Host.clientsOf, h.socks]
  have hh : ∀ c s, Holds w c s → c = 3 ∧ s = 2 := by
    rintro c s ⟨hm, hs⟩
    rw [hc, List.mem_singleton] at hm
    rw [hm, hd] at hs
    exact ⟨hm, (Option.some.inj hs).symm⟩
  have hn := h.next
  refine ⟨by simp [hc], by simp [h.fdLst], fun c c' s hx hy => (hh c s hx).1.trans (hh c' s hy).1.symm,
    fun c s hx => ?_, fun c s hx => ?_, fun s hx => ?_, fun t => by simp [hcl], fun t t' s hx => by simp [hcl] at hx⟩
  · rw [(hh c s hx).2]
    exact lt_of_lt_of_le (by decide) hn
  · obtain ⟨t, ht⟩ := hx
    simp [hcl] at ht
  · obtain ⟨t, ht⟩ := hx
    simp [hcl] at ht

/-- **In every reachable state each socket has one owner at most.** -/
theorem Reach.owned (h : Reach w) : Owned w := by
  obtain ⟨ok, junk, ans, tty, w0, ops, hb, hr⟩ := h
  have hstep : ∀ v op v', v.Inv ∧ Owned v → step v op = some v' → v'.Inv ∧ Owned v' :=
    fun v op v' hv hs => ⟨step_inv v op v' hv.1 hs, step_owned hv.1 hv.2 hs⟩
  exact (Machine.inv_run hstep ⟨boot_inv hb, (boot_booted hb).owned⟩ hr).2

/-! ## Nodes and descriptors over a step -/

theorem taken_of_clients {fdId : ℤ} {s cl : Addr} {cls : List Addr} {k : Socket} (hs : w.fdSock fdId = some (s, k))
    (ht : k.type = .stream) (hd : k.dev ≠ none) (hcl : k.clients = cl :: cls) : w.taken fdId = some cl := by
  simp [Host.taken, hs, ht, hd, hcl]

theorem Op.makes_assigns {op : Op} {p : ℤ × SockAddrInet} (h : op.assigns = some p) : op.makes w = false := by
  cases op <;> first | rfl | cases h

/-- where the socket of a new node comes from, the number the node is named after, and the counter -/
inductive Source (w w' : Host) : Op → ℕ → Addr → Prop where
  | socket {domain type s} (hs : w.socks s = none) (hc : w'.fdId = w.fdId + 1) :
      Source w w' (.socket domain type) (w.fdId + 1) s
  | accept {fdId want s} (hs : w.taken fdId = some s) (hc : w'.fdId = w.fdId) :
      Source w w' (.accept fdId want) (fdId + 1).toNat s

/-- what a step does below the root: nothing, a node and a descriptor for a socket, or a node loses its socket -/
inductive NodeChange (w : Host) (op : Op) (w' : Host) : Prop where
  | same (hop : op.makes w = false) (hn : w'.fs.nodes = w.fs.nodes) (hf : w'.fs.fdLst = w.fs.fdLst)
      (hc : w'.fs.fdCnt = w.fs.fdCnt) (hr : w'.netRoot = w.netRoot) (hd : w'.fdId = w.fdId)
  | opened {w2 : Host} {v : ℕ} {s : Addr} {id : ℤ} (hi : w2.Inv) (ho : Opened w2 w' (nodeName w2 v) s id)
      (hn : w2.fs.nodes = w.fs.nodes) (hf : w2.fs.fdLst = w.fs.fdLst) (hc : w2.fs.fdCnt = w.fs.fdCnt)
      (hr : w2.netRoot = w.netRoot) (hs : Source w w' op v s)
  | closed {l : ℤ} {i : Fin 5} {w2 : Host} (hop : op = .evClosed l) (hl : linkIdx l = .ok i)
      (hd : netdevSockDisconnect w2 (w.esp.links i) = .ok w') (hf : w2.fs = w.fs) (hr : w2.netRoot = w.netRoot)
      (hdi : w2.fdId = w.fdId)

theorem Opened.fdId {name : Bytes} {s : Addr} {id : ℤ} (ho : Opened w w' name s id) : w'.fdId = w.fdId := by
  rw [ho.rest]

theorem Effect.nodeChange (hi : w.Inv) {op : Op} (he : Effect w op w') : NodeChange w op w' := by
  cases he with
  | same hop => exact .same hop rfl rfl rfl rfl rfl
  | assign hop => exact .same (Op.makes_assigns hop) rfl rfl rfl rfl rfl
  | config | connect | listen | unlisten | unlink | recvfrom | evRecv => exact .same rfl rfl rfl rfl rfl rfl
  | socket ha hk ho =>
    obtain ⟨_, _, rfl, _, _, _, _, _, _, rfl⟩ := netdevSockAlloc_ok ha
    exact .opened (hi.socketMade ha hk) ho rfl rfl rfl rfl (.socket (hi.fs.fresh _ le_rfl).2 ho.fdId)
  | accept hs ht hd hcl hck hk2 ho =>
    exact .opened (hi.takeClient (sock_of_fdSock hs) hcl hck hk2) ho rfl rfl rfl rfl
      (.accept (taken_of_clients hs ht hd hcl) ho.fdId)
  | evAccept _ ha =>
    obtain ⟨_, _, rfl, _, _, _, _, _, _, rfl⟩ := netdevSockAlloc_ok ha
    exact .same rfl rfl rfl rfl rfl rfl
  | evClosed hl hd => exact .closed rfl hl hd rfl rfl rfl

theorem Opened.line {w1 : Host} {name : Bytes} {s : Addr} {id : ℤ} (ho : Opened w w1 name s id)
    (hl : SameButLine w1 w') : Opened w w' name s id := by
  rw [hl]
  refine ⟨ho.id_eq, ho.cnt, ho.next, ho.fd, ho.node, ho.root, ho.others, ?_⟩
  conv_lhs => rw [ho.rest]

theorem step_nodeChange (hi : w.Inv) {op : Op} (hs : step w op = some w') : NodeChange w op w' := by
  obtain ⟨w1, he, hl⟩ := step_effect hi hs
  cases he.nodeChange hi with
  | same hop hn hf hc hr hd =>
    rw [hl]
    exact .same hop hn hf hc hr hd
  | opened hi2 ho hn hf hc hr hv =>
    refine .opened hi2 (ho.line hl) hn hf hc hr ?_
    cases hv with
    | socket h1 h2 => exact .socket h1 (by rw [hl]; exact h2)
    | accept h1 h2 => exact .accept h1 (by rw [hl]; exact h2)
  | closed hop =>
    subst hop
    exact (evClosed_effect (toOption_some hs)).nodeChange hi

/-- the counter of the descriptors never goes back -/
theorem step_fdCnt_le {op : Op} (hi : w.Inv) (hs : step w op = some w') : w.fs.fdCnt ≤ w'.fs.fdCnt := by
  cases step_nodeChange hi hs with
  | same _ _ _ hc => exact hc.ge
  | opened _ ho _ _ hc =>
    rw [ho.cnt, hc]
    omega
  | closed _ _ hd hf =>
    rw [← hf]
    rcases netdevSockDisconnect_ok hd with rfl | ⟨c, nd, _, _, rfl⟩
    · exact le_rfl
    · exact le_rfl

theorem Reach.fdCnt_nonneg (h : Reach w) : 0 ≤ w.fs.fdCnt := by
  obtain ⟨ok, junk, ans, tty, w0, ops, hb, hr⟩ := h
  have hstep : ∀ v op v', v.Inv ∧ 0 ≤ v.fs.fdCnt → step v op = some v' → v'.Inv ∧ 0 ≤ v'.fs.fdCnt :=
    fun v op v' hv hs => ⟨step_inv v op v' hv.1 hs, hv.2.trans (step_fdCnt_le hv.1 hs)⟩
  exact (Machine.inv_run hstep ⟨boot_inv hb, (boot_booted hb).fdCnt.ge⟩ hr).2

/-- after it no node has the socket -/
theorem disconnect_free (ho : Owned w) {s : Addr} (hd : netdevSockDisconnect w (some s) = .ok w') (c : Addr) :
    ¬ Holds w' c s := by
  intro hc
  obtain ⟨_, hch, hdata, _⟩ := disconnect_data hd
  obtain ⟨hm, hs⟩ := hc
  rw [hch] at hm
  have hold : Holds w c s := ⟨hm, by
    rcases hdata c with he | he
    · rw [← he, hs]
    · rw [he] at hs
      cases hs⟩
  unfold netdevSockDisconnect at hd
  split at hd
  · cases hd
  · rename_i r hr
    obtain ⟨rn, hrn, hd⟩ := bind_ok.1 hd
    obtain ⟨found, hf, hd⟩ := bind_ok.1 hd
    have hcs : rn.childs = w.netChilds := by simp [Host.netChilds, hr, Host.node_ok.1 hrn]
    rw [hcs] at hf
    cases found with
    | none => exact findData_none hf c hm hold.2
    | some x =>
      obtain ⟨nd, hn, hd⟩ := bind_ok.1 hd
      cases hd
      obtain ⟨hx, nd', hn', hdata'⟩ := findData_some hf
      obtain rfl : x = c := ho.one x c s ⟨hx, by simp [Host.nodeData, hn', hdata']⟩ hold
      simp [Host.nodeData] at hs

/-- a descriptor is found again, and its node has the socket it had or none -/
theorem NodeChange.acquire {op : Op} (h : NodeChange w op w') (ho : Owned w) {id : ℤ} {fd : FsFiled}
    (hf : fsFdAcquire w.fs id = some fd) : fsFdAcquire w'.fs id = some fd ∧
      (w'.nodeData fd.node = w.nodeData fd.node ∨ w'.nodeData fd.node = none) := by
  have hm := ho.fds fd (List.mem_of_find?_eq_some hf)
  cases h with
  | same _ hn hfd => exact ⟨by rwa [fsFdAcquire, hfd], Or.inl (by simp only [Host.nodeData, hn])⟩
  | @opened w2 v s id' hi hop hn hfd _ hr =>
    obtain ⟨fd', hlst, _⟩ := hop.fd
    have hne : fd.node ≠ w2.fs.heap.next := fun he => hi.next_notMem (by
      rw [← he]
      simpa only [Host.netChilds, hr, hn] using hm)
    have hdata : w2.nodeData fd.node = w.nodeData fd.node := by simp only [Host.nodeData, hn]
    refine ⟨?_, Or.inl ((hop.nodeData_ne hne).trans hdata)⟩
    rw [fsFdAcquire, hlst, hfd, List.find?_append, show w.fs.fdLst.find? _ = some fd from hf]
    rfl
  | @closed l i w2 _ _ hd hf2 =>
    obtain ⟨hfd, _, hdata, _⟩ := disconnect_data hd
    have hd2 : w2.nodeData fd.node = w.nodeData fd.node := by simp only [Host.nodeData, hf2]
    exact ⟨by rwa [fsFdAcquire, hfd, hf2], hd2 ▸ hdata fd.node⟩

/-- a node has a socket it had, or a fresh one, or a client that was taken -/
theorem NodeChange.holds {op : Op} (h : NodeChange w op w') {c x : Addr} (hc : Holds w' c x) :
    Holds w c x ∨ w.socks x = none ∨ ∃ fdId want, op = .accept fdId want ∧ w.taken fdId = some x := by
  cases h with
  | same _ hn _ _ hr => exact Or.inl (by simpa only [Holds, Host.netChilds, Host.nodeData, hn, hr] using hc)
  | opened hi hop hn _ _ hr hs =>
    rcases (hop.holds hi).1 hc with hc | ⟨_, rfl⟩
    · exact Or.inl (by simpa only [Holds, Host.netChilds, Host.nodeData, hn, hr] using hc)
    · cases hs with
      | socket hnone => exact Or.inr (Or.inl hnone)
      | accept ht => exact Or.inr (Or.inr ⟨_, _, rfl, ht⟩)
  | @closed l i w2 _ _ hd hf hr =>
    obtain ⟨_, hch, hdata, _⟩ := disconnect_data hd
    obtain ⟨hm, hx⟩ := hc
    rw [hch] at hm
    rcases hdata c with he | he
    · rw [he] at hx
      exact Or.inl (by simpa only [Holds, Host.netChilds, Host.nodeData, hf, hr] using And.intro hm hx)
    · rw [he] at hx
      cases hx

end EspHostdriver
