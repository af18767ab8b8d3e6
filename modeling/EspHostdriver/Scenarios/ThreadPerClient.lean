/-
Which thread serves which client.

The server has one `arg` for all threads and hands out a pointer to it. A thread reads it when it gets to run; if the
next client has come in by then, it reads the next client.

- `logStep` is the program with the descriptors that were handed out so far.
- `OneEach`: the descriptors that the threads work on, or will read, are those that were handed out, each once.
- `thread_per_client`: this holds at every moment of a run exactly when every thread is made and has read its argument
  before the next one is handed out.
-/
import EspHostdriver.Scenarios.ProgramSafety

namespace EspHostdriver.ThreadPerClient

open Machine Program

/-! ## Model -/

/-- `clients`: the descriptors for which a thread was to be made -/
structure Log where
  prog : State
  clients : List ℤ

def handed (p : State) : Act → List ℤ
  | .spawn _ => [p.arg.sock]
  | .main | .input _ | .thread _ | .event _ => []

def logStep (t : Log) (a : Act) : Option Log := (next t.prog a).map fun p => ⟨p, t.clients ++ handed p a⟩

/-- what a thread works on: the argument as it is now, if it is still to read it -/
def socketOf (arg : ThreadArg) (th : Thread) : ℤ := if th.pc = .start then arg.sock else th.sock

def sockets (p : State) : List ℤ := p.threads.map (socketOf p.arg)

structure OneEach (t : Log) : Prop where
  served : sockets t.prog = t.clients
  once : t.clients.Nodup

/-- a thread is made, and the others have read their argument -/
def Ordered (t : Log) : Act → Prop
  | .spawn ok => ok = true ∧ ∀ th ∈ t.prog.threads, th.pc ≠ .start
  | .main | .input _ | .thread _ | .event _ => True

instance decidableOrdered (t : Log) : ∀ a, Decidable (Ordered t a)
  | .spawn _ => inferInstanceAs (Decidable (_ ∧ _))
  | .main | .input _ | .thread _ | .event _ => isTrue trivial

/-! ## The invariant -/

/-- no thread has been made yet -/
def Pc.early : Pc → Bool
  | .configure | .socket | .bind _ | .listen _ _ | .connect _ | .connected _ => true
  | .accept _ | .accepted _ _ | .prompt _ | .quit | .exit => false

structure LogInv (t : Log) : Prop where
  prog : Inv t.prog
  known : ∀ c ∈ t.clients, Known t.prog.host c
  last : t.prog.threads ≠ [] → t.prog.arg.sock ∈ t.clients
  fresh : ∀ sock c, t.prog.pc = .accepted sock c → c ∉ t.clients
  first : Pc.early t.prog.pc = true → t.clients = [] ∧ t.prog.threads = []
  once : t.clients.Nodup

variable {t t' : Log} {p q : State}

theorem known_next (hp : Inv p) (hq : q.host = p.host ∨ ∃ op, step p.host op = some q.host) {id : ℤ}
    (hk : Known p.host id) : Known q.host id := by
  rcases hq with he | ⟨op, hs⟩
  · exact he ▸ hk
  · exact known_step hp.reach hs hk

/-- where the main thread comes from -/
theorem main_pc (hs : p.main = some q) : (Pc.early q.pc = true → Pc.early p.pc = true) ∧
    ∀ sock c, q.pc = .accepted sock c → ∃ r, bosAccept p.host sock (some sizeofSockAddrInet) = .ok (r, q.host) ∧
      r.val = c ∧ 0 < c := by
  obtain ⟨host, opts, pc, arg, threads⟩ := p
  cases pc with
  | configure =>
    obtain ⟨r, w, hc, rfl⟩ := toOption_map_some hs
    refine ⟨fun _ => rfl, fun sock c hx => ?_⟩
    dsimp only at hx
    split_ifs at hx
  | socket =>
    obtain ⟨r, w, hc, rfl⟩ := toOption_map_some hs
    refine ⟨fun _ => rfl, fun sock c hx => ?_⟩
    dsimp only at hx
    split_ifs at hx
  | bind =>
    obtain ⟨r, w, hc, rfl⟩ := toOption_map_some hs
    exact ⟨fun _ => rfl, nofun⟩
  | listen =>
    obtain ⟨r, w, hc, rfl⟩ := toOption_map_some hs
    refine ⟨fun _ => rfl, fun sock c hx => ?_⟩
    dsimp only at hx
    split_ifs at hx
  | accept =>
    obtain ⟨r, w, hc, rfl⟩ := toOption_map_some hs
    dsimp only
    split_ifs with hr
    · exact ⟨nofun, nofun⟩
    · refine ⟨nofun, fun sock c hx => ?_⟩
      cases hx
      exact ⟨r, hc, rfl, not_le.1 hr⟩
  | connect =>
    obtain ⟨r, w, hc, rfl⟩ := toOption_map_some hs
    refine ⟨fun _ => rfl, fun sock c hx => ?_⟩
    dsimp only at hx
    split_ifs at hx
  | quit =>
    cases hs
    exact ⟨nofun, nofun⟩
  | accepted | connected | prompt | exit => cases hs

/-- a step that hands nothing out, and leaves the threads their sockets -/
theorem LogInv.quiet (h : LogInv t) {a : Act} (hs : next t.prog a = some q)
    (hhost : q.host = t.prog.host ∨ ∃ op, step t.prog.host op = some q.host) (harg : q.arg = t.prog.arg)
    (hnil : q.threads = [] ↔ t.prog.threads = [])
    (hfresh : ∀ sock c, q.pc = .accepted sock c → c ∉ t.clients)
    (hearly : Pc.early q.pc = true → Pc.early t.prog.pc = true) : LogInv ⟨q, t.clients⟩ where
  prog := next_inv _ _ _ h.prog hs
  known c hc := known_next h.prog hhost (h.known c hc)
  last hne := harg ▸ h.last (mt hnil.2 hne)
  fresh := hfresh
  first he := ⟨(h.first (hearly he)).1, hnil.2 (h.first (hearly he)).2⟩
  once := h.once

theorem OneEach.quiet (h : OneEach t) (hq : sockets q = sockets t.prog) : OneEach ⟨q, t.clients⟩ :=
  ⟨hq.trans h.served, h.once⟩

/-! ## Steps -/

/-- a thread that starts keeps the socket it would have read -/
theorem served_set {arg : ThreadArg} {ths : List Thread} {i : ℕ} {th th' : Thread} (hth : ths[i]? = some th)
    (hpc : th'.pc ≠ .start) (hsock : th'.sock = if th.pc = .start then arg.sock else th.sock) :
    (ths.set i th').map (socketOf arg) = ths.map (socketOf arg) := by
  have hsame : socketOf arg th' = socketOf arg th := by rw [socketOf, if_neg hpc, hsock, socketOf]
  apply List.ext_getElem?
  intro j
  rw [List.map_set, List.getElem?_set]
  split_ifs with hij hlt
  · rw [← hij, List.getElem?_map, hth, Option.map_some, hsame]
  · rw [← hij]
    exact (List.getElem?_eq_none (not_lt.1 hlt)).symm
  · rfl

/-- what is handed out: a descriptor that no thread has -/
theorem spawn_some (h : LogInv t) {ok : Bool} (hs : t.prog.spawn ok = some q) : ∃ arg pc,
    q = t.prog.handOver arg pc ok ∧ Known t.prog.host arg.sock ∧ arg.sock ∉ t.clients ∧ Pc.early pc = false ∧
      ∀ sock c, pc ≠ .accepted sock c := by
  unfold State.spawn at hs
  split at hs
  · rename_i sock client hpc
    cases hs
    exact ⟨_, _, rfl, h.prog.main client (by simp [hpc, Pc.ids]), h.fresh sock client hpc, rfl, by simp⟩
  · rename_i sock hpc
    cases hs
    have hfirst := h.first (by rw [hpc]; rfl)
    exact ⟨_, _, rfl, h.prog.main sock (by simp [hpc, Pc.ids]), by simp [hfirst.1], rfl, by simp⟩
  · cases hs

/-- the next argument is handed out: every thread serves what it served exactly when it has read its own -/
theorem served_handOver (h : LogInv t) (he : OneEach t) {arg : ThreadArg} (hnew : arg.sock ∉ t.clients) (pc : Pc)
    (ok : Bool) : sockets (t.prog.handOver arg pc ok) = t.clients ++ [arg.sock] ↔
      ok = true ∧ ∀ th ∈ t.prog.threads, th.pc ≠ .start := by
  have hlen : t.prog.threads.length = t.clients.length := by rw [← he.served, sockets, List.length_map]
  cases ok with
  | false =>
    refine iff_of_false (fun hx => ?_) nofun
    have := congrArg List.length hx
    simp only [sockets, State.handOver, List.length_map, List.length_append, List.length_singleton] at this
    simp at this
    omega
  | true =>
    have hsplit : sockets (t.prog.handOver arg pc true) = t.prog.threads.map (socketOf arg) ++ [arg.sock] := by
      simp [sockets, State.handOver, socketOf]
    rw [hsplit, List.append_left_inj, ← he.served]
    simp only [true_and, sockets]
    constructor
    · intro hx th hth hstart
      have hsock : socketOf arg th = socketOf t.prog.arg th := List.map_inj_left.1 hx th hth
      rw [socketOf, socketOf, if_pos hstart, if_pos hstart] at hsock
      exact hnew (hsock ▸ h.last (List.ne_nil_of_mem hth))
    · intro hall
      refine List.map_inj_left.2 fun th hth => ?_
      rw [socketOf, socketOf, if_neg (hall th hth), if_neg (hall th hth)]

theorem log_step {a : Act} (h : LogInv t) (he : OneEach t) (hs : logStep t a = some t') :
    LogInv t' ∧ (OneEach t' ↔ Ordered t a) := by
  obtain ⟨q, hq, rfl⟩ := Option.map_eq_some_iff.1 hs
  obtain ⟨_, hact⟩ := next_does hq
  cases a with
  | main =>
    obtain ⟨hframe, hcall⟩ := main_frame hact
    have hhost : q.host = t.prog.host ∨ ∃ op, step t.prog.host op = some q.host :=
      hcall.imp_right fun ⟨op, _, hs⟩ => ⟨op, hs⟩
    obtain ⟨hearly, hnew⟩ := main_pc hact
    have hthreads : q.threads = t.prog.threads := by rw [hframe]
    have harg : q.arg = t.prog.arg := by rw [hframe]
    simp only [handed, List.append_nil]
    refine ⟨h.quiet hq hhost harg (by rw [hthreads]) (fun sock c hpc hc => ?_) hearly,
      iff_of_true (he.quiet (by rw [sockets, sockets, hthreads, harg])) trivial⟩
    obtain ⟨r, ha, rfl, hpos⟩ := hnew sock c hpc
    exact (accept_new h.prog.reach ha hpos).2 (h.known _ hc)
  | spawn ok =>
    obtain ⟨arg, pc, rfl, hknown, hnew, hearly, hpc⟩ := spawn_some h hact
    have hiff := served_handOver h he hnew pc ok
    have hnodup : (t.clients ++ [arg.sock]).Nodup := List.nodup_append.2 ⟨h.once, List.nodup_singleton _, by
      intro a ha b hb hab
      rw [List.mem_singleton.1 hb] at hab
      exact hnew (hab ▸ ha)⟩
    refine ⟨⟨next_inv _ _ _ h.prog hq, fun c hc => ?_, fun _ => List.mem_append_right _ (List.mem_singleton_self _),
      fun sock c hx => absurd hx (hpc sock c), fun hx => ?_, hnodup⟩, fun hx => hiff.1 hx.served,
      fun hx => ⟨hiff.2 hx, hnodup⟩⟩
    · rcases List.mem_append.1 hc with hc | hc
      · exact h.known c hc
      · rw [List.mem_singleton.1 hc]
        exact hknown
    · rw [show (t.prog.handOver arg pc ok).pc = pc from rfl, hearly] at hx
      cases hx
  | input line =>
    obtain ⟨hframe, ⟨sock, hpc, hqpc⟩, op, _, hcall⟩ := input_frame hact
    have hthreads : q.threads = t.prog.threads := by rw [hframe]
    have harg : q.arg = t.prog.arg := by rw [hframe]
    simp only [handed, List.append_nil]
    refine ⟨h.quiet hq (Or.inr ⟨op, hcall⟩) harg (by rw [hthreads]) (fun sock c hx => ?_) fun hx => ?_,
      iff_of_true (he.quiet (by rw [sockets, sockets, hthreads, harg])) trivial⟩
    · rcases hqpc with hy | hy <;> rw [hy] at hx <;> cases hx
    · rcases hqpc with hy | hy <;> rw [hy] at hx <;> cases hx
  | thread i =>
    obtain ⟨th, th', hth, hframe, hpc, hsock, hhost⟩ := thread_frame hact
    have hthreads : q.threads = t.prog.threads.set i th' := by rw [hframe]; rfl
    have harg : q.arg = t.prog.arg := by rw [hframe]; rfl
    have hqpc : q.pc = t.prog.pc := by rw [hframe]; rfl
    simp only [handed, List.append_nil]
    exact ⟨h.quiet hq hhost harg (by rw [hthreads]; simp) (fun sock c hx => h.fresh sock c (hqpc ▸ hx)) (hqpc ▸ id),
      iff_of_true (he.quiet (by rw [sockets, sockets, hthreads, harg, served_set hth hpc hsock])) trivial⟩
  | event e =>
    obtain ⟨_, w, hw, rfl⟩ := hact
    simp only [handed, List.append_nil]
    exact ⟨h.quiet hq (Or.inr ⟨e, hw⟩) rfl Iff.rfl h.fresh id, iff_of_true (he.quiet rfl) trivial⟩

theorem log_start {given : List Given} {rest : ℕ} {ok : ℕ → Bool} {junk : Addr → Junk} {ans : ℕ → Res} {tty : Bool}
    {p0 : State} (hl : launch given rest ok junk ans tty = some p0) : LogInv ⟨p0, []⟩ ∧ OneEach ⟨p0, []⟩ := by
  have hthreads := (launch_blank hl).1
  exact ⟨⟨launch_inv hl, nofun, fun hne => absurd hthreads hne, fun _ _ _ => List.not_mem_nil,
    fun _ => ⟨rfl, hthreads⟩, List.nodup_nil⟩, by rw [sockets, hthreads]; rfl, List.nodup_nil⟩

/-- **A thread for each client.** At every moment the threads work on the descriptors that were handed out, each on its
own, exactly when each thread was made and had read its argument before the next descriptor was handed out. -/
theorem thread_per_client {given : List Given} {rest : ℕ} {ok : ℕ → Bool} {junk : Addr → Junk} {ans : ℕ → Res}
    {tty : Bool} {p0 : State} (hl : launch given rest ok junk ans tty = some p0) {acts : List Act} {t : Log}
    (hr : run logStep ⟨p0, []⟩ acts = some t) :
    (∀ as bs u, acts = as ++ bs → run logStep ⟨p0, []⟩ as = some u → OneEach u) ↔
        Guarded logStep Ordered ⟨p0, []⟩ acts := by
  obtain ⟨hstart, hone⟩ := log_start hl
  exact always_iff_run (p := fun _ => True) (fun t a t' hi he _ hs => log_step hi he hs) hstart hone
    (fun _ _ => trivial) hr

/-- a server that two clients come to -/
def sampleServer : Option State :=
  launch [(⟨none, 80, []⟩ : Dest).given] 0 (fun _ => true) (fun _ => blankJunk) (fun _ => .ok) true

def sampleClients : List Act :=
  [.main, .main, .main, .main, .event (.evAccept 0 samplePeer), .event (.evAccept 1 samplePeer), .main, .spawn true]

/-- the second client is taken before the first thread has run -/
theorem thread_per_client_sample : ∃ p0, sampleServer = some p0 ∧
    (∀ as bs u, sampleClients ++ [.thread 0, .main, .spawn true] = as ++ bs →
      run logStep ⟨p0, []⟩ as = some u → OneEach u) ∧
    ¬ ∀ as bs u, sampleClients ++ [.main, .spawn true] = as ++ bs → run logStep ⟨p0, []⟩ as = some u → OneEach u := by
  have hcheck : sampleServer.map (fun p0 =>
      ((run logStep ⟨p0, []⟩ (sampleClients ++ [.thread 0, .main, .spawn true])).isSome,
        decide (Guarded logStep Ordered ⟨p0, []⟩ (sampleClients ++ [.thread 0, .main, .spawn true])),
        (run logStep ⟨p0, []⟩ (sampleClients ++ [.main, .spawn true])).isSome,
        decide (Guarded logStep Ordered ⟨p0, []⟩ (sampleClients ++ [.main, .spawn true])))) =
      some (true, true, true, false) := by decide +kernel
  obtain ⟨p0, hl, hx⟩ := Option.map_eq_some_iff.1 hcheck
  simp only [Prod.mk.injEq, decide_eq_true_eq, decide_eq_false_iff_not] at hx
  obtain ⟨h1, hg1, h2, hg2⟩ := hx
  obtain ⟨t, ht⟩ := Option.isSome_iff_exists.1 h1
  obtain ⟨u, hu⟩ := Option.isSome_iff_exists.1 h2
  exact ⟨p0, hl, (thread_per_client hl ht).2 hg1, fun h => hg2 ((thread_per_client hl hu).1 h)⟩

end EspHostdriver.ThreadPerClient
