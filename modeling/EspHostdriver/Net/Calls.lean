/-
What each socket call does in a reachable state: when it completes, and what it then returns.

The invariant makes most of the chain `descriptor → node → socket → device` safe: a descriptor that is found leads to a
live node, a node that has a socket leads to a live one, a socket that has a device to a registered one. What is left
are the null pointers that the calls check or do not check.

- `bosConnect_total`, `bosBind_total`, `bosListen_total`, `bosSendto_total`: these complete once the descriptor leads to a
  socket (`bos_sendto` also without one).
- `bosAccept_iff`, `bosRecvfrom_iff`: these complete under a further condition on the memory or the datagram.
- `openFd_iff`: a socket gets its node and descriptor exactly when both allocations succeed; `nodeName_fits`: the name
  always fits.
- `bosClose_cases`: the four ways out of `bos_close`; none of them changes a node or a descriptor.
-/
import EspHostdriver.Net.System

namespace EspHostdriver

variable {w : Host} {fdId : ℤ} {s : Addr} {k : Socket}

/-! ## Following a descriptor -/

/-- a descriptor leads to a live node; when that has a socket, the socket is live -/
theorem Host.Inv.fd_cases (h : w.Inv) (fdId : ℤ) :
    fsFdAcquire w.fs fdId = none ∨
    (∃ fd nd, fsFdAcquire w.fs fdId = some fd ∧ w.fs.nodes fd.node = some nd ∧ nd.data = none) ∨
    ∃ s k, w.fdSock fdId = some (s, k) := by
  cases hf : fsFdAcquire w.fs fdId with
  | none => exact Or.inl rfl
  | some fd =>
    obtain ⟨nd, hn, _, hl⟩ := h.fs.fd fd (List.mem_of_find?_eq_some hf)
    cases hd : nd.data with
    | none => exact Or.inr (Or.inl ⟨fd, nd, rfl, hn, hd⟩)
    | some s =>
      obtain ⟨k, hk⟩ := hl s hd
      exact Or.inr (Or.inr ⟨s, k, Host.fdSock_some.2 ⟨fd, nd, hf, hn, hd, hk⟩⟩)

theorem fdSock_none_of_data {fd : FsFiled} {nd : FsNode} (hf : fsFdAcquire w.fs fdId = some fd)
    (hn : w.fs.nodes fd.node = some nd) (hd : nd.data = none) : w.fdSock fdId = none := by
  simp [Host.fdSock, hf, hn, hd]

/-! ## Assigning a device, opening a descriptor -/

theorem assignNetdev_total (hk : w.socks s = some k) (addr : SockAddrInet) (n : ℕ) :
    ∃ r w', assignNetdev w (some s) addr n = .ok (r, w') := by
  unfold assignNetdev
  rw [sock_of_live hk]
  by_cases hn : n ≠ domainAddrLen k.addr.domain
  · exact ⟨-1, w, if_pos hn⟩
  · cases w.devLst.find? fun v => v.domain = addr.domain ∧ inetMatchAddr v.cfg addr n with
    | none => exact ⟨-1, w, if_neg hn⟩
    | some v => exact ⟨0, _, if_neg hn⟩

/-- the node and the descriptor can be allocated -/
def Opens (w : Host) : Prop := w.fs.heap.ok w.fs.heap.next = true ∧ w.fs.heap.ok (w.fs.heap.next + 1) = true

instance decidableOpens (w : Host) : Decidable (Opens w) := inferInstanceAs (Decidable (_ ∧ _))

/-- a number of 8 digits fits into a node, and what the stack holds instead of a longer one does -/
theorem nodeName_fits (w : Host) (v : ℕ) : (cstr (nodeName w v)).length ≤ 31 := by
  by_cases hv : v < 10 ^ 8
  · rw [nodeName, itoa_eq_dec hv, Option.getD_some]
    calc (cstr (dec v)).length ≤ (dec v).length := (List.takeWhile_prefix _).length_le
      _ ≤ 8 := dec_length_le (by norm_num) hv
      _ ≤ 31 := by norm_num
  · rw [nodeName, itoa_eq_none (not_lt.1 hv), Option.getD_none]
    exact (List.takeWhile_prefix _).length_le.trans (w.junk w.fs.heap.next).name.short

/-- without a node there is no descriptor -/
theorem openFd_noNode {name : Bytes}
    (h : ∃ fs1, fsNodeMake w.fs w.netRoot name (cstr name).length .reg (some s) w.netfsId = .ok (none, fs1)) :
    ¬ ∃ r w', openFd w name s = .ok (r, w') := by
  obtain ⟨fs1, h⟩ := h
  rintro ⟨r, w', ho⟩
  obtain ⟨n, fs1', fd, fs2, h1, _⟩ := openFd_ok ho
  rw [h] at h1; cases h1

/-- a socket gets its node and its descriptor -/
theorem openFd_iff (h : w.Inv) {name : Bytes} (hname : (cstr name).length ≤ 31) (s : Addr) :
    (∃ r w', openFd w name s = .ok (r, w')) ↔ Opens w := by
  obtain ⟨r, rn, hroot, hr, _⟩ := h.fs.root
  obtain ⟨f0, hf0, hid⟩ := h.fs.netfs
  obtain ⟨f, hf⟩ : ∃ f, w.fs.fsLst.find? (fun f => f.id = w.netfsId) = some f :=
    Option.isSome_iff_exists.1 (List.find?_isSome.2 ⟨f0, hf0, by simp [hid]⟩)
  have hne : w.fs.heap.next ≠ r := by
    intro he
    have := (h.fs.fresh w.fs.heap.next le_rfl).1
    rw [he, hr] at this; cases this
  have hfit : sizeT ((cstr name).length + 1) = (cstr name).length + 1 := sizeT_succ (by omega)
  have h1 : ¬ 32 < (cstr name).length + 1 := by omega
  cases h2 : w.fs.heap.ok w.fs.heap.next with
  | false =>
    refine iff_of_false (openFd_noNode ?_) fun ho => by rw [ho.1] at h2; cases h2
    simp only [fsNodeMake, hfit, h1, if_false, hf, Heap.malloc, h2, Bool.false_eq_true]
    exact ⟨_, rfl⟩
  | true =>
    cases h3 : w.fs.heap.ok (w.fs.heap.next + 1) with
    | false =>
      refine iff_of_false ?_ fun ho => by rw [ho.2] at h3; cases h3
      rintro ⟨v, w', ho⟩
      obtain ⟨n, fs1, fd, fs2, hm, ha, _⟩ := openFd_ok ho
      rw [hroot] at hm
      rcases fsNodeMake_ok hm with ⟨hx, _⟩ | ⟨pn, f', _, _, _, rfl⟩
      · cases hx
      · rw [fsFdAlloc] at ha
        simp [Heap.malloc, h3] at ha
    | true =>
      refine iff_of_true ?_ ⟨h2, h3⟩
      simp only [openFd, fsNodeCreate_leaf (show FileType.reg ≠ .dir by decide), fsNodeMake, hfit, h1, lt_irrefl,
        if_false, hroot, hf, Heap.malloc, h2, if_true, hr, fsFdAlloc, h3, bind, Except.bind, Table.set_ne _ _ hne,
        Table.set_self]
      exact ⟨_, _, rfl⟩

/-! ## Closing -/

/-- the ways out of `bos_close`: no descriptor, no socket, no device, or what the driver says -/
theorem bosClose_cases (h : w.Inv) (fdId : ℤ) :
    (fsFdAcquire w.fs fdId = none ∧ bosClose w fdId = .ok (-1, w)) ∨
    (∃ fd, fsFdAcquire w.fs fdId = some fd ∧ w.fdSock fdId = none ∧ bosClose w fdId = .ok (0, w)) ∨
    (∃ s k, w.fdSock fdId = some (s, k) ∧ k.dev = none ∧ bosClose w fdId = .ok (0, w)) ∨
    ∃ s k v, w.fdSock fdId = some (s, k) ∧ w.dev k.dev = .ok v ∧ k.dev ≠ none ∧ bosClose w fdId = espClose w s := by
  rcases h.fd_cases fdId with hf | ⟨fd, nd, hf, hn, hd⟩ | ⟨s, k, hs⟩
  · exact Or.inl ⟨hf, by simp [bosClose, hf]⟩
  · refine Or.inr (Or.inl ⟨fd, hf, fdSock_none_of_data hf hn hd, ?_⟩)
    simp [bosClose, hf, Host.fdData_some hn, hd, bind, Except.bind]
  · obtain ⟨fd, nd, hf, hn, hd, hk⟩ := Host.fdSock_some.1 hs
    right; right
    by_cases hdev : k.dev = none
    · refine Or.inl ⟨s, k, hs, hdev, ?_⟩
      simp [bosClose, hf, Host.fdData_some hn, hd, sock_of_live hk, hdev, bind, Except.bind]
    · obtain ⟨d, hd'⟩ := Option.ne_none_iff_exists'.1 hdev
      obtain ⟨v, hv, hfull⟩ := h.dev_ok hk hd'
      refine Or.inr ⟨s, k, v, hs, hv, hdev, ?_⟩
      have hops : v.ops.close = true := by rw [hfull]
      -- the node has a reference, so the driver's success changes nothing more
      have hdes : ∀ w' : Host, w'.fs = w.fs → fsNodeDestroy w'.fs fd.node = .ok (-1, w.fs) := by
        intro w' he
        rw [he]; exact h.destroy_fd (List.mem_of_find?_eq_some hf)
      have hfs : ∀ r w', espClose w s = .ok (r, w') → w'.fs = w.fs := by
        intro r w' he
        rcases espClose_cases hk hv with ⟨ws, _, hx⟩ | ⟨_, _, hx⟩ | ⟨l, ws, _, _, hx⟩ <;> rw [hx] at he
        · split_ifs at he <;> cases he <;> rfl
        · cases he; rfl
        · split_ifs at he <;> cases he <;> rfl
      cases he : espClose w s with
      | error e =>
        simp [bosClose, hf, Host.fdData_some hn, hd, sock_of_live hk, hdev, hv, hops, he, bind, Except.bind]
      | ok p =>
        obtain ⟨r, w'⟩ := p
        have hw' := hfs r w' he
        simp only [bosClose, hf, Host.fdData_some hn, hd, sock_of_live hk, hdev, hv, hops, he, bind, Except.bind,
          reduceCtorEq, if_false, if_true, hdes w' hw']
        split_ifs
        · rw [← hw']
        · rfl

/-! ## The other calls -/

theorem bosConnect_total (h : w.Inv) (hs : w.fdSock fdId = some (s, k)) (addr : SockAddrInet) (n : ℕ) :
    ∃ r w', bosConnect w fdId addr n = .ok (r, w') := by
  obtain ⟨fd, nd, hf, hn, hd, hk⟩ := Host.fdSock_some.1 hs
  simp only [bosConnect, hf, Host.fdData_some hn, hd, sock_of_live hk, bind, Except.bind]
  split_ifs with hdev
  · exact ⟨_, _, rfl⟩
  · obtain ⟨r, w1, ha⟩ := assignNetdev_total hk addr n
    simp only [ha]
    split_ifs with hr
    · exact ⟨_, _, rfl⟩
    · have h1 := h.assign ha
      obtain ⟨s', k', hx, hk', hcase⟩ := assignNetdev_ok ha
      cases hx
      rcases hcase with ⟨rfl, _⟩ | ⟨v, hv, _, rfl⟩
      · exact absurd hr (by decide)
      · have hks := w.setSock_self s { k' with dev := some v.self, addr := addr }
        obtain ⟨v', hv', hfull⟩ := h1.dev_ok hks rfl
        have hops : v'.ops.connect = true := by rw [hfull]
        simp only [sock_of_live hks, hv', hops, if_true]
        rcases espConnect_cases hks hv' with ⟨_, he⟩ | ⟨l, ws, _, he⟩
        · exact ⟨_, _, he⟩
        · rw [he]; split_ifs <;> exact ⟨_, _, rfl⟩

theorem bosBind_total (hs : w.fdSock fdId = some (s, k)) (addr : SockAddrInet) (n : ℕ) :
    ∃ r w', bosBind w fdId addr n = .ok (r, w') := by
  obtain ⟨r, w', ha⟩ := assignNetdev_total (sock_of_fdSock hs) addr n
  exact ⟨r, w', bind_ok.2 ⟨_, fdData_of_fdSock hs, ha⟩⟩

theorem bosListen_total (h : w.Inv) (hs : w.fdSock fdId = some (s, k)) (backlog : ℤ) :
    ∃ r w', bosListen w fdId backlog = .ok (r, w') := by
  have hk := sock_of_fdSock hs
  simp only [bosListen, fdData_of_fdSock hs, sock_of_live hk, bind, Except.bind]
  split_ifs with ht hdev
  · exact ⟨_, _, rfl⟩
  · exact ⟨_, _, rfl⟩
  · obtain ⟨d, hd⟩ := Option.ne_none_iff_exists'.1 hdev
    obtain ⟨v, hv, hfull⟩ := h.dev_ok hk hd
    have hops : v.ops.listen = true := by rw [hfull]
    simp only [hv, hops, if_true]
    rcases espListen_cases hk hv backlog with ⟨_, he⟩ | ⟨ws, _, _, he⟩
    · exact ⟨_, _, he⟩
    · rw [he]; split_ifs <;> exact ⟨_, _, rfl⟩

theorem espSend_total {v : Netdev} (hk : w.socks s = some k) (hd : w.dev k.dev = .ok v) (mem : Bytes) (n : ℕ) :
    ∃ r w', espSend w s mem n = .ok (r, w') := by
  by_cases h0 : n = 0
  · exact ⟨0, w, by simp [espSend, h0]⟩
  · rcases espSend_cases hk hd mem h0 with ⟨_, he⟩ | ⟨l, ws, _, _, he⟩
    · exact ⟨_, _, he⟩
    · rw [he]; split_ifs <;> exact ⟨_, _, rfl⟩

/-- the device a socket sends through is registered -/
theorem sendtoDev_total (h : w.Inv) (hk : w.socks s = some k) (addr : Option SockAddrInet) (n : ℕ) :
    ∃ d w', sendtoDev w s k addr n = .ok (d, w') ∧
      ∀ d', d = some d' → ∃ k' v, w'.socks s = some k' ∧ k'.dev = d' ∧ w'.dev d' = .ok v ∧ v.Full := by
  -- without an address it is the socket's own device
  have hown : ∀ d', (if k.dev = none then none else some k.dev) = some d' →
      ∃ k' v, w.socks s = some k' ∧ k'.dev = d' ∧ w.dev d' = .ok v ∧ v.Full := by
    intro d' hd'
    split_ifs at hd' with hdev
    cases hd'
    obtain ⟨d, hd⟩ := Option.ne_none_iff_exists'.1 hdev
    obtain ⟨v, hv, hfull⟩ := h.dev_ok hk hd
    exact ⟨k, v, hk, rfl, hv, hfull⟩
  cases ht : k.type with
  | stream =>
    cases addr with
    | none => exact ⟨_, w, by simp only [sendtoDev, ht], hown⟩
    | some a => exact ⟨none, w, by simp only [sendtoDev, ht], by rintro d' ⟨⟩⟩
  | dgram =>
    cases addr with
    | none => exact ⟨_, w, by simp only [sendtoDev, ht], hown⟩
    | some a =>
      simp only [sendtoDev, ht]
      split_ifs with hlen
      · exact ⟨none, w, rfl, by rintro d' ⟨⟩⟩
      · obtain ⟨r, w1, ha⟩ := assignNetdev_total hk a n
        have h1 := h.assign ha
        simp only [ha, bind, Except.bind]
        split_ifs with hr
        · exact ⟨none, w1, rfl, by rintro d' ⟨⟩⟩
        · obtain ⟨s', k', hx, hk', hcase⟩ := assignNetdev_ok ha
          cases hx
          rcases hcase with ⟨rfl, _⟩ | ⟨v, hv, _, rfl⟩
          · exact absurd hr (by decide)
          · have hks := w.setSock_self s { k' with dev := some v.self, addr := a }
            obtain ⟨v', hv', hfull⟩ := h1.dev_ok hks rfl
            simp only [sock_of_live hks]
            refine ⟨_, _, rfl, ?_⟩
            rintro d' ⟨⟩
            exact ⟨_, v', hks, rfl, hv', hfull⟩

theorem bosSendto_total (h : w.Inv) (hf : fsFdAcquire w.fs fdId ≠ none) (mem : Bytes) (n : ℕ)
    (addr : Option SockAddrInet) (addrLen : ℕ) : ∃ r w', bosSendto w fdId mem n addr addrLen = .ok (r, w') := by
  rcases h.fd_cases fdId with hx | ⟨fd, nd, hfd, hn, hd⟩ | ⟨s, k, hs⟩
  · exact absurd hx hf
  · exact ⟨-1, w, bind_ok.2 ⟨none, by rw [hfd, Host.fdData_some hn, hd], rfl⟩⟩
  · have hk := sock_of_fdSock hs
    obtain ⟨d, w1, hdev, hlive⟩ := sendtoDev_total h hk addr addrLen
    simp only [bosSendto, fdData_of_fdSock hs, reduceCtorEq, if_false, sock_of_live hk, hdev, bind, Except.bind]
    cases d with
    | none => exact ⟨_, _, rfl⟩
    | some d =>
      obtain ⟨k', v, hk', rfl, hv, hfull⟩ := hlive d rfl
      have hops : v.ops.send = true := by rw [hfull]
      obtain ⟨r, w2, he⟩ := espSend_total hk' hv mem n
      simp only [hv, hops, if_true, he]
      exact ⟨_, _, rfl⟩

theorem wrap_complete {α β : Type} {x : Except Fault (α × Host)} (f : α → β) :
    (∃ r w', x.bind (fun v => .ok (f v.1, v.2)) = .ok (r, w')) ↔ ∃ r w', x = .ok (r, w') := by
  cases x with
  | error e => simp [Except.bind]
  | ok p => exact iff_of_true ⟨_, _, rfl⟩ ⟨_, _, rfl⟩

/-- when a client waits on a server with a device, its descriptor must open -/
theorem bosAccept_iff (h : w.Inv) (hs : w.fdSock fdId = some (s, k)) (want : Option ℕ) :
    (∃ r w', bosAccept w fdId want = .ok (r, w')) ↔ (k.type = .stream → k.dev ≠ none → k.clients ≠ [] → Opens w) := by
  have hk := sock_of_fdSock hs
  simp only [bosAccept, fdData_of_fdSock hs, sock_of_live hk, bind, Except.bind]
  by_cases ht : k.type = .stream
  swap
  · exact iff_of_true ⟨_, _, if_pos ht⟩ fun hx => absurd hx ht
  by_cases hdev : k.dev = none
  · exact iff_of_true ⟨_, _, (if_neg (not_not.2 ht)).trans (if_pos hdev)⟩ fun _ hx => absurd hdev hx
  cases hcl : k.clients with
  | nil =>
    refine iff_of_true ⟨_, _, (if_neg (not_not.2 ht)).trans (if_neg hdev)⟩ fun _ _ hx => absurd rfl hx
  | cons cl cls =>
    obtain ⟨ck, hck⟩ := (h.socks s k hk).clients cl (by simp [hcl])
    obtain ⟨k2, hk2⟩ : Live (w.setSock cl { ck with dev := k.dev }).socks s := Table.live_set _ ⟨k, hk⟩
    have hi2 := h.takeClient hk hcl hck hk2
    have hopen := openFd_iff hi2 (nodeName_fits w (fdId + 1).toNat) cl
    simp only [ht, hdev, not_true, if_false, ne_eq, not_false_iff, reduceCtorEq, true_imp_iff, sock_of_live hck,
      sock_of_live hk2]
    exact (wrap_complete fun v => (⟨v, [], giveAddr w ck.addr (domainAddrLen ck.addr.domain) want⟩ : Ret)).trans hopen

/-- a queued datagram must have its read inside it -/
theorem bosRecvfrom_iff (h : w.Inv) (hs : w.fdSock fdId = some (s, k)) (n : ℕ) (want : Option ℕ) :
    (∃ r w', bosRecvfrom w fdId n want = .ok (r, w')) ↔ (k.type = .dgram → ∀ d ∈ k.dgrams.head?,
      d.idx + min n (sizeT (d.len - d.idx)) ≤ d.data.length) := by
  have hk := sock_of_fdSock hs
  cases ht : k.type with
  | stream =>
    refine iff_of_true ?_ (by rintro ⟨⟩)
    rw [bosRecvfrom_stream hs ht]
    rcases (h.socks s k hk).ring ht with hr | hr
    · have hd : k.stream.data ≠ [] := by
        intro he
        have := hr.1.len
        rw [he, hr.2] at this; cases this
      exact ⟨_, _, if_neg fun hx => hd hx.2⟩
    · rw [hr, ringbufRead_nullRing]
      exact ⟨_, _, if_neg fun hx => hx.1 rfl⟩
  | dgram =>
    rw [bosRecvfrom_dgram hs ht]
    cases hq : k.dgrams with
    | nil => exact iff_of_true ⟨_, _, rfl⟩ (by simp)
    | cons d ds =>
      simp only [List.head?_cons, Option.mem_some_iff, forall_eq', true_imp_iff]
      constructor
      · rintro ⟨r, w', hx⟩
        obtain ⟨p, hp, _⟩ := bind_ok.1 hx
        by_contra hlt
        rw [readDgram, if_neg hlt] at hp
        cases hp
      · intro hle
        exact ⟨_, _, bind_ok.2 ⟨_, if_pos hle, rfl⟩⟩

/-- the only other end: it goes on reading behind the datagram -/
theorem bosRecvfrom_overread (h : w.Inv) (hs : w.fdSock fdId = some (s, k)) {n : ℕ} {want : Option ℕ}
    (hno : ¬ ∃ r w', bosRecvfrom w fdId n want = .ok (r, w')) : bosRecvfrom w fdId n want = .error .overread := by
  have hx := mt (bosRecvfrom_iff h hs n want).2 hno
  simp only [not_forall] at hx
  obtain ⟨ht, d, hd, hx⟩ := hx
  obtain ⟨ds, hq⟩ := List.head?_eq_some_iff.1 hd
  simp only [bosRecvfrom_dgram hs ht, hq, readDgram, if_neg hx, bind, Except.bind]

/-- `bos_send` on a socket with a device is the driver's `send`, through an `int` -/
theorem bosSend_eq (h : w.Inv) (hs : w.fdSock fdId = some (s, k)) (hd : k.dev ≠ none) (mem : Bytes) (n : ℕ) :
    bosSend w fdId mem n = (espSend w s mem n).map fun p => (toInt32 p.1, p.2) := by
  have hk := sock_of_fdSock hs
  obtain ⟨d, hd'⟩ := Option.ne_none_iff_exists'.1 hd
  obtain ⟨v, hv, hfull⟩ := h.dev_ok hk hd'
  have hops : v.ops.send = true := by rw [hfull]
  have hdev : sendtoDev w s k none 0 = .ok (some k.dev, w) := by
    unfold sendtoDev
    cases k.type <;> simp [hd]
  simp only [bosSend, bosSendto, fdData_of_fdSock hs, reduceCtorEq, if_false, sock_of_live hk, hdev, hv, hops, if_true,
    bind, Except.bind]
  cases espSend w s mem n <;> rfl

end EspHostdriver
