/-
From the bytes on the serial line to the bytes a reader of a socket gets.

A stream socket has a link, and keeps it: nobody closes it, and the module does not say that the connection ended or that
a new one took its link. On the line come frames, for all links and with any payloads, between lines of other kinds and
connections of other links. The program makes any calls, on any descriptors, between any two bytes. As in `WireEvents`,
a call is one step, the reader stands between two lines at the start, and `Framing.Quiet` holds.

- `link_stays`: what it takes for a link to go on to another socket.
- `event_stream`: the account of `PrivateQueues`, with the events of the line.
- `wire_delivery`: what was read from the socket and what it holds are the payloads of the frames of its link, in order
  and with nothing missing, exactly when every payload found room.
-/
import EspHostdriver.Scenarios.Isolation
import EspHostdriver.Scenarios.PrivateQueues
import EspHostdriver.Scenarios.WireEvents

namespace EspHostdriver.WireDelivery

open Machine Transducer WireEvents PrivateQueues
open DatagramDelivery (payloads returned)
open Framing (Output Quiet)
open Isolation (Homed placedStep step_homed homed_booted)

/-! ## Model -/

/-- an event of the line, with the watch on a socket -/
def eventWatch (s : Addr) (t : Watch) : Event → Option Watch
  | .op op => watchStep s t op
  | .query => (eventStep t.host .query).map fun w => { t with host := w }

/-- the program on its line, with the watch on a socket -/
def wireWatch (st : Stack) (s : Addr) : Watch × Reader → Input UInt8 Event → Option (Watch × Reader) :=
  (wire st).step (eventWatch s)

/-- a call of the program, not a handler -/
def Op.isCall : Op → Bool
  | .evRecv _ _ _ | .evAccept _ _ | .evClosed _ => false
  | _ => true

/-- the payloads of the frames of a link -/
def frames (l : Fin 5) (pieces : List Piece) : Bytes := pieces.flatMap fun
  | .output (.frame k data _ _ _) => if k = l then data else []
  | _ => []

/-- the connection of a link neither ends nor begins with this piece -/
def Piece.Spares (l : Fin 5) : Piece → Prop
  | .output (.closed k) => k ≠ l
  | .connection k _ _ => k ≠ l
  | .output (.frame _ _ _ _ _) | .output (.line _) => True

/-- the socket is not closed -/
def Stays (s : Addr) (t : Watch) : Event → Prop
  | .op (.close fdId) => (t.host.fdSock fdId).map Prod.fst ≠ some s
  | _ => True

/-- a payload for the socket finds room in its buffer -/
def Room (s : Addr) (t : Watch) : Event → Prop
  | .op op => PrivateQueues.Fits s t op
  | .query => True

instance decidableStays (s : Addr) (t : Watch) : ∀ e, Decidable (Stays s t e)
  | .op op => by cases op <;> first | exact isTrue trivial | exact inferInstanceAs (Decidable (_ ≠ _))
  | .query => isTrue trivial

instance decidableRoom (s : Addr) (t : Watch) : ∀ e, Decidable (Room s t e)
  | .op op => inferInstanceAs (Decidable (PrivateQueues.Fits s t op))
  | .query => isTrue trivial

/-! ## A link and its socket -/

variable {w w' : Host} {s : Addr} {k : Socket} {l : Fin 5}

/-- the connection of a link neither ends nor begins with this step -/
def Op.Spares (l : Fin 5) : Op → Prop
  | .evAccept i _ | .evClosed i => i ≠ (l : ℕ)
  | _ => True

theorem linkIdx_ne {i : ℤ} {j : Fin 5} (hi : linkIdx i = .ok j) (hne : i ≠ (l : ℕ)) : l ≠ j := by
  rintro rfl
  unfold linkIdx at hi
  split_ifs at hi
  cases hi
  exact hne (by simp only; omega)

theorem effect_link {op : Op} (he : Effect w op w') (hspare : Op.Spares l op)
    (hclose : ∀ fdId, op = .close fdId → (w.fdSock fdId).map Prod.fst ≠ some s) (hl : w.esp.links l = some s) :
    w'.esp.links l = some s := by
  have hother : ∀ {i : Fin 5} {x : Option Addr}, l ≠ i → (w.esp.setLink i x).links l = some s := by
    intro i x hne
    rw [Esp.setLink_apply, if_neg hne, hl]
  cases he with
  | same | config | assign | listen | unlisten | recvfrom | evRecv => exact hl
  | socket ha _ hop =>
    obtain ⟨_, _, _, _, _, _, _, _, _, rfl⟩ := netdevSockAlloc_ok ha
    rw [hop.rest]
    exact hl
  | accept _ _ _ _ _ _ hop =>
    rw [hop.rest]
    exact hl
  | connect _ _ _ hfree =>
    refine hother ?_
    rintro rfl
    rw [hl] at hfree
    cases hfree
  | @unlink fdId x kx i hs hi =>
    refine hother ?_
    rintro rfl
    obtain rfl := Option.some.inj (hl.symm.trans hi)
    exact hclose fdId rfl (by rw [hs]; rfl)
  | @evAccept i j remote t x w1 kx tk _ ha _ hi _ =>
    obtain ⟨_, _, _, _, _, _, _, _, _, rfl⟩ := netdevSockAlloc_ok ha
    exact hother (linkIdx_ne hi hspare)
  | evClosed hi hd =>
    rcases netdevSockDisconnect_ok hd with rfl | ⟨c, nd, _, _, rfl⟩ <;> exact hother (linkIdx_ne hi hspare)

/-- **A link stays with its socket** until the connection ends, a new one begins, or the socket is closed. -/
theorem link_stays (hi : w.Inv) {op : Op} (hs : step w op = some w') (hspare : Op.Spares l op)
    (hclose : ∀ fdId, op = .close fdId → (w.fdSock fdId).map Prod.fst ≠ some s) (hl : w.esp.links l = some s) :
    w'.esp.links l = some s := by
  obtain ⟨w1, he, hline⟩ := step_effect hi hs
  have hesp : w'.esp = w1.esp := by rw [hline]
  rw [hesp]
  exact effect_link he hspare hclose hl

theorem Reach.homed (h : Reach w) : ∃ homes, Homed ⟨w, homes⟩ := by
  obtain ⟨ok, junk, ans, tty, w0, ops, hb, hr⟩ := h
  have hstep : ∀ v op v', (∃ homes, Homed ⟨v, homes⟩) → step v op = some v' → ∃ homes, Homed ⟨v', homes⟩ := by
    rintro v op v' ⟨homes, hv⟩ hs
    exact ⟨_, step_homed ⟨v, homes⟩ op _ hv (by rw [placedStep, hs]; rfl)⟩
  exact inv_run hstep ⟨[], homed_booted (boot_booted hb) (boot_inv hb)⟩ hr

/-! ## The payloads of a link -/

/-- the payload that an event is for a link -/
def payloadOf (l : Fin 5) : Event → Bytes
  | .op (.evRecv i data _) => if i = (l : ℕ) then data else []
  | _ => []

def Event.Spares (l : Fin 5) : Event → Prop
  | .op op => Op.Spares l op
  | .query => True

/-- the socket is on this link and on no other one -/
structure Linked (s : Addr) (l : Fin 5) (t : Watch) : Prop where
  homed : ∃ homes, Homed ⟨t.host, homes⟩
  link : t.host.esp.links l = some s

theorem Linked.only {t : Watch} (h : Linked s l t) {i : Fin 5} (hi : t.host.esp.links i = some s) : i = l := by
  obtain ⟨homes, hh⟩ := h.homed
  exact hh.slot hi h.link

/-- a payload is for the socket when it is for its link -/
theorem Linked.touch {t : Watch} (h : Linked s l t) (op : Op) :
    payloads (PrivateQueues.touch t.host s op).toList = payloadOf l (.op op) := by
  cases op <;> try rfl
  · rename_i fdId n want
    simp only [PrivateQueues.touch, payloadOf]
    split_ifs <;> rfl
  · rename_i i data remote
    have hiff : linkSock t.host i = some s ↔ i = (l : ℕ) := by
      rw [linkSock_some]
      constructor
      · rintro ⟨j, hj, hs⟩
        obtain rfl := h.only hs
        unfold linkIdx at hj
        split_ifs at hj
        cases hj
        simp only
        omega
      · rintro rfl
        exact ⟨l, linkIdx_fin l, h.link⟩
    simp only [PrivateQueues.touch, payloadOf, hiff]
    split_ifs
    · exact List.append_nil _
    · rfl

theorem event_linked {t t' : Watch} {e : Event} (h : Linked s l t) (hstay : Stays s t e) (hspare : Event.Spares l e)
    (hs : eventWatch s t e = some t') : Linked s l t' ∧ payloads t'.acts = payloads t.acts ++ payloadOf l e := by
  obtain ⟨homes, hh⟩ := h.homed
  cases e with
  | query =>
    cases hs
    exact ⟨⟨⟨homes, hh.inv.setItf _, hh.owned.frame rfl rfl rfl, hh.placed, hh.one,
      fun x i hx => (hh.settled x i hx).frame rfl⟩, h.link⟩, (List.append_nil _).symm⟩
  | op op =>
    obtain ⟨w', hw, rfl⟩ := Option.map_eq_some_iff.1 hs
    have hclose : ∀ fdId, op = .close fdId → (t.host.fdSock fdId).map Prod.fst ≠ some s := by
      rintro fdId rfl
      exact hstay
    refine ⟨⟨⟨_, step_homed ⟨t.host, homes⟩ op _ hh (by rw [placedStep, hw]; rfl)⟩,
      link_stays hh.inv hw hspare hclose h.link⟩, ?_⟩
    rw [payloads_append, h.touch]

theorem run_linked {t t' : Watch} {evs : List Event} (h : Linked s l t)
    (hg : Guarded (eventWatch s) (Stays s) t evs) (hspare : ∀ e ∈ evs, Event.Spares l e)
    (hr : run (eventWatch s) t evs = some t') : payloads t'.acts = payloads t.acts ++ evs.flatMap (payloadOf l) := by
  induction evs generalizing t with
  | nil =>
    cases hr
    exact (List.append_nil _).symm
  | cons e evs ih =>
    obtain ⟨t1, h1, hr⟩ := run_cons_some.1 hr
    obtain ⟨hl1, hp1⟩ := event_linked h hg.head (hspare e List.mem_cons_self) h1
    rw [ih hl1 (hg.tail h1) (fun e he => hspare e (List.mem_cons_of_mem _ he)) hr, hp1, List.flatMap_cons,
      List.append_assoc]

/-! ## The pieces and their events -/

theorem call_spares {op : Op} (h : Op.isCall op = true) : Event.Spares l (.op op) ∧ payloadOf l (.op op) = [] := by
  cases op <;> first | exact ⟨trivial, rfl⟩ | cases h

theorem statusLine_events (st : Stack) (i : Fin 5) (lines : List StatusLine) :
    ∀ e ∈ (lines.flatMap fun x => x.calls st i).flatMap events, ∃ remote, e = .op (.evAccept (i : ℕ) remote) := by
  intro e he
  rw [List.mem_flatMap] at he
  obtain ⟨c, hc, he⟩ := he
  obtain ⟨x, _, hc⟩ := List.mem_flatMap.1 hc
  cases x with
  | text t plain kind => cases hc
  | conn j udp a p tail plain =>
    simp only [StatusLine.calls] at hc
    split_ifs at hc
    · rw [List.mem_singleton.1 hc] at he
      exact ⟨_, List.mem_singleton.1 he⟩
    · cases hc

/-- the events of a piece are about its link, and have its payload -/
theorem piece_events (st : Stack) {p : Piece} (hp : Piece.Spares l p) :
    (∀ e ∈ p.events st, Event.Spares l e) ∧ (p.events st).flatMap (payloadOf l) = frames l [p] := by
  have hfin : ∀ i : Fin 5, ((i : ℕ) : ℤ) = (l : ℕ) ↔ i = l := fun i => by
    rw [Int.natCast_inj, Fin.val_inj]
  cases p with
  | output o =>
    cases o with
    | frame i data size a port =>
      refine ⟨fun e he => ?_, ?_⟩
      · rw [List.mem_singleton.1 he]
        trivial
      · show (if ((i : ℕ) : ℤ) = (l : ℕ) then data else []) ++ [] = (if i = l then data else []) ++ []
        simp only [hfin]
    | closed i =>
      refine ⟨fun e he => ?_, rfl⟩
      rw [List.mem_singleton.1 he]
      exact fun h => hp ((hfin i).1 h)
    | line resp => exact ⟨fun _ he => (List.not_mem_nil he).elim, rfl⟩
  | connection i lines fits =>
    have hacc := statusLine_events st i lines
    refine ⟨fun e he => ?_, ?_⟩
    · rcases List.mem_cons.1 he with rfl | he
      · trivial
      · obtain ⟨remote, rfl⟩ := hacc e he
        exact fun h => hp ((hfin i).1 h)
    · refine List.flatMap_eq_nil_iff.2 fun e he => ?_
      rcases List.mem_cons.1 he with rfl | he
      · rfl
      · obtain ⟨remote, rfl⟩ := hacc e he
        rfl

theorem pieces_events (st : Stack) {pieces : List Piece} (hp : ∀ p ∈ pieces, Piece.Spares l p) :
    (∀ e ∈ pieces.flatMap (Piece.events st), Event.Spares l e) ∧
      (pieces.flatMap (Piece.events st)).flatMap (payloadOf l) = frames l pieces := by
  constructor
  · intro e he
    obtain ⟨p, hm, he⟩ := List.mem_flatMap.1 he
    exact (piece_events st (hp p hm)).1 e he
  · induction pieces with
    | nil => rfl
    | cons p ps ih =>
      rw [List.flatMap_cons, List.flatMap_append, (piece_events st (hp p List.mem_cons_self)).2,
        ih fun q hq => hp q (List.mem_cons_of_mem _ hq)]
      simp only [frames, List.flatMap_cons, List.flatMap_nil, List.append_nil]

/-! ## Delivery -/

/-- the account of a stream socket over an event -/
theorem event_stream {start : Bytes} (t : Watch) (e : Event) (t' : Watch) (h : StreamInv s start t)
    (hs : eventWatch s t e = some t') :
    StreamInv s start t' ∧ (Conserved s start t' ↔ Conserved s start t ∧ Room s t e) := by
  cases e with
  | op op => exact stream_step t op t' h hs
  | query =>
    cases hs
    exact ⟨⟨h.inv.setItf _, h.sock, h.le⟩, (and_iff_left trivial).symm⟩

/-- **From the line to the reader of a socket.** A stream socket has link `l`. Whole pieces come in, byte by byte, among
them any frames, but none that ends the connection of the link or begins a new one; the program makes any calls between
the bytes, but does not close the socket. Then what was read from the socket and what it holds is what it held at first
and the payloads of the frames of its link, in order, exactly when every payload found room in its buffer. -/
theorem wire_delivery {st : Stack} (hq : Quiet st) {r r' : Reader} (hr : r.Idle) (hw : Reach w)
    (hk : w.socks s = some k) (ht : k.type = .stream) (hl : w.esp.links l = some s) {pieces : List Piece}
    (hp : ∀ p ∈ pieces, Piece.Spares l p) {calls : List Op} (hc : ∀ op ∈ calls, Op.isCall op = true)
    {is : List (Input UInt8 Event)} {t : Watch}
    (hi : Interleaved ((calls.map Event.op).map .direct) ((pieces.flatMap Piece.bytes).map .raw) is)
    (hstay : Guarded (wireWatch st s) ((wire st).Through (Stays s)) (⟨w, [], []⟩, r) is)
    (hrun : run (wireWatch st s) (⟨w, [], []⟩, r) is = some (t, r')) :
    k.stream.contents ++ frames l pieces = returned t.log ++ held t.host s ↔
      Guarded (wireWatch st s) ((wire st).Through (Room s)) (⟨w, [], []⟩, r) is := by
  -- the events that the bytes and calls are
  have hcalls := (Reads.flatMap (reads_piece hq) pieces r hr).2
  have hout : (wire st).outputs r (pieces.flatMap Piece.bytes) = pieces.flatMap (Piece.events st) := by
    rw [wire_outputs hcalls, List.flatMap_assoc]
    rfl
  have hevs : Interleaved (calls.map Event.op) (pieces.flatMap (Piece.events st)) ((wire st).trace r is) :=
    hout ▸ trace_interleaved hi
  obtain ⟨hspare, hpayload⟩ := pieces_events st hp
  have hcall : ∀ e ∈ calls.map Event.op, Event.Spares l e ∧ payloadOf l e = [] := by
    intro e he
    obtain ⟨op, hop, rfl⟩ := List.mem_map.1 he
    exact call_spares (hc op hop)
  have hspares : ∀ e ∈ (wire st).trace r is, Event.Spares l e := by
    intro e he
    rcases hevs.mem he with he | he
    · exact (hcall e he).1
    · exact hspare e he
  rw [wireWatch, guarded_iff (wire_one st)] at hstay ⊢
  rw [wireWatch, run_eq, Option.map_eq_some_iff] at hrun
  obtain ⟨t', hrun, he⟩ := hrun
  cases he
  -- what came in is what the frames carried
  obtain ⟨homes, hh⟩ := Reach.homed hw
  have hacts : payloads t.acts = frames l pieces := by
    rw [run_linked ⟨⟨homes, hh⟩, hl⟩ hstay hspares hrun, hevs.flatMap_right fun e he => (hcall e he).2, hpayload]
    rfl
  have hheld := held_some hk
  have h0 : StreamInv s k.stream.contents ⟨w, [], []⟩ := ⟨hw.inv, ⟨k, hk, ht⟩, by simp [hheld, returned]⟩
  have hstart : Conserved s k.stream.contents ⟨w, [], []⟩ := by simp [Conserved, hheld, returned, payloads]
  rw [← hacts, ← Conserved, iff_run event_stream h0 hrun, and_iff_right hstart]

/-! ## A sample -/

theorem shout_size : (str "oh").length < 2 ^ 31 := by decide

/-- two frames for one link -/
def samplePieces (l : Fin 5) : List Piece :=
  [.output (.frame l (str "hi!") greeting_size 0x0a000001 80), .output (.frame l (str "oh") shout_size 0x0a000001 80)]

def sampleCalls : List Op := [.socket .afInet .stream, .recvfrom 1 2 none, .recvfrom 1 9 none]

/-- the first call comes inside the first payload, the others after everything -/
def sampleInputs (l : Fin 5) : List (Input UInt8 Event) :=
  (((samplePieces l).flatMap Piece.bytes).take 24).map .raw ++ .direct (.op (.socket .afInet .stream)) ::
    ((((samplePieces l).flatMap Piece.bytes).drop 24).map .raw ++
      [.direct (.op (.recvfrom 1 2 none)), .direct (.op (.recvfrom 1 9 none))])

theorem sampleInputs_interleaved (l : Fin 5) : Interleaved ((sampleCalls.map Event.op).map .direct)
    (((samplePieces l).flatMap Piece.bytes).map .raw) (sampleInputs l) := by
  have hlast := (Interleaved.left_only [.direct (.op (.recvfrom 1 2 none)), .direct (.op (.recvfrom 1 9 none))]).right_append
    ((((samplePieces l).flatMap Piece.bytes).drop 24).map (fun b : UInt8 => (.raw b : Input UInt8 Event)))
  rw [List.append_nil] at hlast
  have hall := (Interleaved.left (x := .direct (.op (.socket .afInet .stream))) hlast).right_append
    ((((samplePieces l).flatMap Piece.bytes).take 24).map .raw)
  rw [← List.map_append, List.take_append_drop] at hall
  exact hall

theorem sampleCalls_calls : ∀ op ∈ sampleCalls, Op.isCall op = true := by decide

theorem samplePieces_spare : ∀ p ∈ samplePieces 0, Piece.Spares 0 p := by
  intro p hp
  rcases List.mem_cons.1 hp with rfl | hp
  · trivial
  · rw [List.mem_singleton.1 hp]
    trivial

theorem wire_delivery_sample : ∃ t r', run (wireWatch Framing.sampleStack 7)
      (⟨sampleConn .stream, [], []⟩, Framing.sampleReader) (sampleInputs 0) = some (t, r') ∧
    t.log.map Ret.data = [str "hi", str "!oh"] ∧
    (sampleSock .stream).stream.contents ++ frames 0 (samplePieces 0) = returned t.log ++ held t.host 7 := by
  obtain ⟨⟨t, r'⟩, ht, hlog⟩ := Option.map_eq_some_iff.1 (show (run (wireWatch Framing.sampleStack 7)
    (⟨sampleConn .stream, [], []⟩, Framing.sampleReader) (sampleInputs 0)).map (fun p => p.1.log.map Ret.data) =
      some [str "hi", str "!oh"] by decide +kernel)
  have hk := sock_of_fdSock (sampleConn_sock .stream)
  refine ⟨t, r', ht, hlog, (wire_delivery Framing.sampleStack_quiet ⟨rfl, rfl, by decide⟩ (sampleConn_reach _) hk rfl
    (sampleConn_link _) samplePieces_spare sampleCalls_calls (sampleInputs_interleaved 0)
    (by decide +kernel) ht).2 (by decide +kernel)⟩

end EspHostdriver.WireDelivery
