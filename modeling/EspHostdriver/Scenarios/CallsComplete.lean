/-
Which socket calls complete on which descriptors.

All of them check the device where they need one, but only `bos_connect` and `bos_close` check the descriptor and only
`bos_sendto`, `bos_recvfrom` and `bos_close` the socket. So a call on an unknown descriptor, or on one whose peer has
closed, may follow a null pointer. `Safe` collects what is missing, call by call. How many bytes a call reads behind a
datagram or an address does not matter here.

- `calls_complete_iff`: in every reachable state a call completes exactly when it is safe.
- `calls_complete_fails`: binding a descriptor that does not exist follows a null pointer.
-/
import EspHostdriver.Net.Calls

namespace EspHostdriver.CallsComplete

/-! ## Model -/

/-- the calls on a descriptor -/
inductive Call where
  | connect (fdId : ℤ) (addr : SockAddrInet) (addrLen : ℕ)
  | bind (fdId : ℤ) (addr : SockAddrInet) (addrLen : ℕ)
  | listen (fdId backlog : ℤ)
  | accept (fdId : ℤ) (want : Option ℕ)
  | sendto (fdId : ℤ) (mem : Bytes) (dataLen : ℕ) (addr : Option SockAddrInet) (addrLen : ℕ)
  | recvfrom (fdId : ℤ) (dataLen : ℕ) (want : Option ℕ)
  | close (fdId : ℤ)

/-- the call returns; a null pointer or a pointer to a dead object that is followed ends it with a fault -/
def Completes (w : Host) : Call → Prop
  | .connect fd addr n => ∃ r w', bosConnect w fd addr n = .ok (r, w')
  | .bind fd addr n => ∃ r w', bosBind w fd addr n = .ok (r, w')
  | .listen fd backlog => ∃ r w', bosListen w fd backlog = .ok (r, w')
  | .accept fd want => ∃ r w', bosAccept w fd want = .ok (r, w')
  | .sendto fd mem n addr addrLen => ∃ r w', bosSendto w fd mem n addr addrLen = .ok (r, w')
  -- a read that goes on behind its datagram follows no such pointer
  | .recvfrom fd n want => (∃ r w', bosRecvfrom w fd n want = .ok (r, w')) ∨ bosRecvfrom w fd n want = .error .overread
  | .close fd => ∃ r w', bosClose w fd = .ok (r, w')

def Safe (w : Host) : Call → Prop
  -- a descriptor that exists must have a socket
  | .connect fd _ _ => fsFdAcquire w.fs fd = none ∨ w.fdSock fd ≠ none
  -- the descriptor must exist and have a socket
  | .bind fd _ _ => w.fdSock fd ≠ none
  | .listen fd _ => w.fdSock fd ≠ none
  -- and when a client waits on a server with a device, its node and descriptor are made
  | .accept fd _ => ∃ p ∈ w.fdSock fd, p.2.type = .stream → p.2.dev ≠ none → p.2.clients ≠ [] → Opens w
  -- the descriptor must exist
  | .sendto fd _ _ _ _ => fsFdAcquire w.fs fd ≠ none
  | .recvfrom fd _ _ => fsFdAcquire w.fs fd ≠ none
  | .close _ => True

/-! ## The null pointers -/

variable {w : Host} {fdId : ℤ}

/-- a call that follows the whole chain first needs a socket -/
theorem fdSock_of_bind {α : Type} {f : Addr × Socket → Except Fault α} {x : α}
    (h : (w.fdData (fsFdAcquire w.fs fdId) >>= fun d => w.sock d >>= f) = .ok x) : ∃ p, w.fdSock fdId = some p := by
  obtain ⟨d, hd, h⟩ := bind_ok.1 h
  obtain ⟨⟨s, k⟩, hs, _⟩ := bind_ok.1 h
  exact ⟨_, fdSock_of_ok hd hs⟩

theorem acquire_of_ok {α : Type} {f : Option Addr → Except Fault α} {x : α}
    (h : (w.fdData (fsFdAcquire w.fs fdId) >>= f) = .ok x) : fsFdAcquire w.fs fdId ≠ none := by
  obtain ⟨d, hd, _⟩ := bind_ok.1 h
  obtain ⟨fd, _, hf, _⟩ := Host.fdData_ok hd
  rw [hf]; exact Option.some_ne_none fd

theorem connect_safe (h : w.Inv) (fd : ℤ) (addr : SockAddrInet) (n : ℕ) :
    Completes w (.connect fd addr n) ↔ Safe w (.connect fd addr n) := by
  constructor
  · rintro ⟨r, w', hc⟩
    cases hf : fsFdAcquire w.fs fd with
    | none => exact Or.inl hf
    | some f =>
      unfold bosConnect at hc
      simp only [hf] at hc
      obtain ⟨d, hd, hc⟩ := bind_ok.1 hc
      obtain ⟨⟨s, k⟩, hs, _⟩ := bind_ok.1 hc
      rw [← hf] at hd
      exact Or.inr (by rw [fdSock_of_ok hd hs]; exact Option.some_ne_none _)
  · rintro (hf | hs)
    · exact ⟨-1, w, by simp only [bosConnect, hf]⟩
    · obtain ⟨⟨s, k⟩, hs⟩ := Option.ne_none_iff_exists'.1 hs
      exact bosConnect_total h hs addr n

theorem accept_safe (h : w.Inv) (fd : ℤ) (want : Option ℕ) :
    Completes w (.accept fd want) ↔ Safe w (.accept fd want) := by
  constructor
  · rintro ⟨r, w', hc⟩
    obtain ⟨⟨s, k⟩, hs⟩ := fdSock_of_bind hc
    exact ⟨(s, k), hs, (bosAccept_iff h hs want).1 ⟨r, w', hc⟩⟩
  · rintro ⟨⟨s, k⟩, hs, hx⟩
    exact (bosAccept_iff h hs want).2 hx

theorem recvfrom_safe (h : w.Inv) (fd : ℤ) (n : ℕ) (want : Option ℕ) :
    Completes w (.recvfrom fd n want) ↔ Safe w (.recvfrom fd n want) := by
  rcases h.fd_cases fd with he | ⟨f, nd, hfd, hn, hd⟩ | ⟨s, k, hs⟩
  · -- the descriptor is followed unchecked
    have hnull : bosRecvfrom w fd n want = .error .nullFd := by
      rw [bosRecvfrom, he]
      rfl
    refine iff_of_false ?_ fun hx => hx he
    rintro (⟨r, w', hc⟩ | hc)
    · rw [hnull] at hc
      cases hc
    · rw [hnull] at hc
      cases hc
  · exact iff_of_true (Or.inl ⟨_, _, bosRecvfrom_closed hfd hn hd n want⟩) (by rw [Safe, hfd]; exact Option.some_ne_none f)
  · refine iff_of_true ?_ ?_
    · by_cases hx : ∃ r w', bosRecvfrom w fd n want = .ok (r, w')
      · exact Or.inl hx
      · exact Or.inr (bosRecvfrom_overread h hs hx)
    · obtain ⟨f, _, hf, _⟩ := Host.fdSock_some.1 hs
      rw [Safe, hf]
      exact Option.some_ne_none f

/-- **Which calls complete.** In every reachable state, a call on any descriptor id completes exactly when none of the
missing checks would have been needed. -/
theorem calls_complete_iff (hw : Reach w) (c : Call) : Completes w c ↔ Safe w c := by
  have h := hw.inv
  cases c with
  | connect fd addr n => exact connect_safe h fd addr n
  | bind fd addr n =>
    constructor
    · rintro ⟨r, w', hc⟩
      obtain ⟨d, hd, hc⟩ := bind_ok.1 hc
      obtain ⟨⟨s, k⟩, hs, _⟩ := bind_ok.1 hc
      rw [Safe, fdSock_of_ok hd hs]; exact Option.some_ne_none _
    · intro hs
      obtain ⟨⟨s, k⟩, hs⟩ := Option.ne_none_iff_exists'.1 hs
      exact bosBind_total hs addr n
  | listen fd backlog =>
    constructor
    · rintro ⟨r, w', hc⟩
      obtain ⟨p, hp⟩ := fdSock_of_bind hc
      rw [Safe, hp]; exact Option.some_ne_none p
    · intro hs
      obtain ⟨⟨s, k⟩, hs⟩ := Option.ne_none_iff_exists'.1 hs
      exact bosListen_total h hs backlog
  | accept fd want => exact accept_safe h fd want
  | sendto fd mem n addr addrLen =>
    constructor
    · rintro ⟨r, w', hc⟩
      exact acquire_of_ok hc
    · intro hf
      exact bosSendto_total h hf mem n addr addrLen
  | recvfrom fd n want => exact recvfrom_safe h fd n want
  | close fd =>
    refine iff_of_true ?_ trivial
    rcases bosClose_cases h fd with ⟨_, he⟩ | ⟨_, _, _, he⟩ | ⟨_, _, _, _, he⟩ | ⟨s, k, v, hs, hv, _, he⟩
    · exact ⟨_, _, he⟩
    · exact ⟨_, _, he⟩
    · exact ⟨_, _, he⟩
    · rw [Completes, he]
      rcases espClose_cases (sock_of_fdSock hs) hv with ⟨ws, _, hx⟩ | ⟨_, _, hx⟩ | ⟨l, ws, _, _, hx⟩ <;> rw [hx]
      · split_ifs <;> exact ⟨_, _, rfl⟩
      · exact ⟨_, _, rfl⟩
      · split_ifs <;> exact ⟨_, _, rfl⟩

theorem calls_complete_sample : Completes (sampleConn .stream) (.listen 1 0) ∧
    ¬ Completes (sampleConn .stream) (.sendto 2 [65] 1 none 0) :=
  ⟨(calls_complete_iff (sampleConn_reach _) _).2 (by unfold Safe; decide +kernel),
    fun h => absurd ((calls_complete_iff (sampleConn_reach _) _).1 h) (by unfold Safe; decide +kernel)⟩

/-- **A null pointer is followed**: binding a descriptor that does not exist does not return. -/
theorem calls_complete_fails : ¬ ∀ w c, Reach w → Completes w c := by
  intro h
  obtain ⟨r, w', hb⟩ := h _ (.bind 2 samplePeer 12) (sampleConn_reach .stream)
  have he : (bosBind (sampleConn .stream) 2 samplePeer 12).toOption.isSome = false := by decide +kernel
  rw [hb] at he
  cases he

end EspHostdriver.CallsComplete
