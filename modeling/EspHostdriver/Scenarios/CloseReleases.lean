/-
What `bos_close` releases when it reports success.

Nothing counts the reference of the descriptor down: `fs_fd_free` is only called from the `close` callback of the file
system, which nobody calls, so `fs_node_destroy` finds the node in use and gives up, and its result is not looked at.
The two early exits (no socket, no device) return 0 without releasing anything.

- `bosClose_keeps`: a call that returns 0 leaves every descriptor and every node in place.
- `close_releases_iff`: so a successful close releases everything exactly when there is none: no such descriptor, or the
  driver refuses.
- `close_releases_fails`: a connected socket, closed with the module's OK, keeps its descriptor.
-/
import EspHostdriver.Net.Calls

namespace EspHostdriver.CloseReleases

/-! ## Model -/

/-- nothing refers to the descriptor, the node `n` and its socket any more -/
structure Released (w : Host) (fdId : ℤ) (n : Addr) (sock : Option Addr) : Prop where
  fd : fsFdAcquire w.fs fdId = none
  node : ∀ r rn, w.netRoot = some r → w.fs.nodes r = some rn → n ∉ rn.childs
  server : ∀ s, sock = some s → w.esp.tcpServer ≠ some s
  links : ∀ s l, sock = some s → w.esp.links l ≠ some s

/-- a close that returns 0 has released everything -/
def Releases (w : Host) (fdId : ℤ) : Prop :=
  ∀ w' fd nd, bosClose w fdId = .ok (0, w') → fsFdAcquire w.fs fdId = some fd → w.fs.nodes fd.node = some nd →
    Released w' fdId fd.node nd.data

/-- there is no such descriptor, or its socket has a device and the driver refuses: the socket neither listens nor
occupies a link, or the module does not answer OK -/
def closeRefused (w : Host) (fdId : ℤ) : Prop :=
  fsFdAcquire w.fs fdId = none ∨ ∃ p ∈ w.fdSock fdId, p.2.dev ≠ none ∧
    ((w.esp.tcpServer = some p.1 ∨ ∃ l, w.esp.links l = some p.1) → w.itf.ans w.itf.waits ≠ .ok)

instance decidableCloseRefused (w : Host) (fdId : ℤ) : Decidable (closeRefused w fdId) :=
  inferInstanceAs (Decidable (_ ∨ ∃ p ∈ w.fdSock fdId, _))

/-! ## What a close does -/

variable {w w' : Host} {fdId : ℤ}

/-- a close that returns 0 leaves the descriptors and the nodes as they are -/
theorem bosClose_keeps (h : w.Inv) (hc : bosClose w fdId = .ok (0, w')) : w'.fs = w.fs := by
  rcases bosClose_cases h fdId with ⟨_, he⟩ | ⟨_, _, _, he⟩ | ⟨_, _, _, _, he⟩ | ⟨s, k, v, hs, hv, _, he⟩ <;>
    rw [he] at hc
  · cases hc
  · cases hc; rfl
  · cases hc; rfl
  · rcases espClose_cases (sock_of_fdSock hs) hv with ⟨ws, _, hx⟩ | ⟨_, _, hx⟩ | ⟨l, ws, _, _, hx⟩ <;> rw [hx] at hc
    · split_ifs at hc <;> cases hc
      rfl
    · cases hc
    · split_ifs at hc <;> cases hc
      rfl

/-- a close that is refused does not return 0 -/
theorem closeRefused_ne_zero (h : w.Inv) (hr : closeRefused w fdId) : bosClose w fdId ≠ .ok (0, w') := by
  intro hc
  rcases bosClose_cases h fdId with ⟨_, he⟩ | ⟨fd, hf, hn, _⟩ | ⟨s, k, hs, hd, _⟩ | ⟨s, k, v, hs, hv, _, he⟩
  · rw [he] at hc; cases hc
  · rcases hr with hr | ⟨p, hp, _⟩
    · rw [hf] at hr; cases hr
    · rw [hn] at hp; cases hp
  · obtain ⟨fd, _, hf, _⟩ := Host.fdSock_some.1 hs
    rcases hr with hr | ⟨p, hp, hdev, _⟩
    · rw [hf] at hr; cases hr
    · rw [hs] at hp; cases hp; exact hdev hd
  · obtain ⟨fd, _, hf, _⟩ := Host.fdSock_some.1 hs
    rcases hr with hr | ⟨p, hp, _, hans⟩
    · rw [hf] at hr; cases hr
    · rw [hs] at hp; cases hp
      rw [he] at hc
      rcases espClose_cases (sock_of_fdSock hs) hv with ⟨ws, ht, hx⟩ | ⟨_, _, hx⟩ | ⟨l, ws, _, hl, hx⟩ <;>
        rw [hx] at hc
      · rw [if_neg (hans (Or.inl ht))] at hc; cases hc
      · cases hc
      · rw [if_neg (hans (Or.inr ⟨l, getLinkId_some hl⟩))] at hc; cases hc

/-- a close that is not refused returns 0 -/
theorem bosClose_zero (h : w.Inv) (hr : ¬ closeRefused w fdId) : ∃ w', bosClose w fdId = .ok (0, w') := by
  rcases bosClose_cases h fdId with ⟨hf, _⟩ | ⟨_, _, _, he⟩ | ⟨_, _, _, _, he⟩ | ⟨s, k, v, hs, hv, hdev, he⟩
  · exact absurd (Or.inl hf) hr
  · exact ⟨w, he⟩
  · exact ⟨w, he⟩
  · have hin : ¬ ((w.esp.tcpServer = some s ∨ ∃ l, w.esp.links l = some s) → w.itf.ans w.itf.waits ≠ .ok) :=
      fun hx => hr (Or.inr ⟨(s, k), hs, hdev, hx⟩)
    obtain ⟨hon, hans⟩ := Classical.not_imp.1 hin
    rw [he]
    rcases espClose_cases (sock_of_fdSock hs) hv with ⟨ws, _, hx⟩ | ⟨ht, hl, _⟩ | ⟨l, ws, _, _, hx⟩
    · exact ⟨_, hx.trans (by rw [if_pos (not_not.1 hans)])⟩
    · rcases hon with hon | ⟨l, hon⟩
      · exact absurd hon ht
      · exact absurd hon (getLinkId_none.1 hl l)
    · exact ⟨_, hx.trans (by rw [if_pos (not_not.1 hans)])⟩

/-- **A successful close never releases the descriptor**: everything is released after a 0 only where there is no 0. -/
theorem close_releases_iff (hw : Reach w) (fdId : ℤ) : Releases w fdId ↔ closeRefused w fdId := by
  constructor
  · intro hrel
    by_contra hr
    obtain ⟨w', hc⟩ := bosClose_zero hw.inv hr
    obtain ⟨fd, hf⟩ : ∃ fd, fsFdAcquire w.fs fdId = some fd :=
      Option.ne_none_iff_exists'.1 fun hx => hr (Or.inl hx)
    obtain ⟨nd, hn, _⟩ := hw.inv.fs.fd fd (List.mem_of_find?_eq_some hf)
    have := (hrel w' fd nd hc hf hn).fd
    rw [bosClose_keeps hw.inv hc, hf] at this
    cases this
  · intro hr w' fd nd hc
    exact absurd hc (closeRefused_ne_zero hw.inv hr)

theorem close_releases_sample : ¬ Releases (sampleConn .stream) 1 ∧ Releases (sampleConn .stream) 2 :=
  ⟨fun h => absurd ((close_releases_iff (sampleConn_reach _) 1).1 h) (by decide +kernel),
    (close_releases_iff (sampleConn_reach _) 2).2 (by decide +kernel)⟩

/-- the connected sample socket is closed with the module's OK and keeps its descriptor -/
theorem close_releases_fails : ¬ ∀ w fdId, Reach w → Releases w fdId := by
  intro h
  have hfd : (fsFdAcquire (sampleConn .stream).fs 1).isSome = true := by decide +kernel
  obtain ⟨fd, hf⟩ := Option.isSome_iff_exists.1 hfd
  obtain ⟨nd, hn, _⟩ := (sampleConn_reach .stream).inv.fs.fd fd (List.mem_of_find?_eq_some hf)
  have hc : ∃ w', bosClose (sampleConn .stream) 1 = .ok (0, w') ∧ (fsFdAcquire w'.fs 1).isSome = true := by
    have h0 : ((bosClose (sampleConn .stream) 1).toOption.map fun r => (r.1, (fsFdAcquire r.2.fs 1).isSome)) =
        some (0, true) := by decide +kernel
    obtain ⟨⟨r, w'⟩, hr, he⟩ := Option.map_eq_some_iff.1 h0
    obtain ⟨rfl, he⟩ := Prod.mk.injEq .. ▸ he
    exact ⟨w', toOption_some hr, he⟩
  obtain ⟨w', hc, hx⟩ := hc
  rw [(h _ 1 (sampleConn_reach _) w' fd nd hc hf hn).fd] at hx
  cases hx

end EspHostdriver.CloseReleases
