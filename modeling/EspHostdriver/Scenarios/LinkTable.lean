/-
One thread connects and closes while the reader handles what the module sends: whose socket gets a frame?

`connect` and `close` read the table, ask the module, and change `links[l]` after the answer. The reader does not wait
for that: it handles the next line as soon as it has handled the answer, and that line may be about the same link.

- `step` is the machine. The module opens a link for `AT+CIPSTART` or an incoming connection, closes it with a closed
  line (in front of the OK of `AT+CIPCLOSE`), may use it again, and sends frames while it is open. Its lines arrive in
  order. The calls take the steps: table read, answer from the module, answer handled by the reader, return of
  `send_cmd`, assignment.
- Connections are numbered; `owner` is the socket a connection belongs to, and `view` the connection on a link as far as
  its lines have been handled.
- `Agrees`: every frame handled so far was stored into the socket of its connection.
- `Inv`: the lines on the way lead each link from its handled connection to its open one (`Flow`), the answer on the
  way is the one the thread waits for, and an open connection has its socket in the slot unless the slot is about to be
  assigned.
- `link_table`: the frames go where they belong in every run in which, while a call has its OK and has not assigned
  `links[l]`, the reader handles no frame of a link being connected, and no connect line of `l` (but one of a connection
  that is closed again and has no frame). Any other such line can be followed by a frame that is stored elsewhere.
- `link_table_fails`: a frame right behind the OK of a connect finds an empty slot; a connection on a link just closed
  is wiped out by the assignment of the close; one on a link just connected gives way to the socket of the connect.
- `espConnect_run`, `espClose_run`, `espRecv_handle`, `espRecv_empty`, `espAccept_handle`, `espClosed_handle`: the
  driver's functions do to the table what the steps do.
-/
import EspHostdriver.Esp01.Driver

namespace EspHostdriver.LinkTable

open Machine

/-! ## Model -/

/-- a call of `connect` or `close` on a socket that has found its link -/
inductive Call where
  | connect (sock : Addr)
  | close
deriving DecidableEq

/-- where the thread is: the table is read, the module has answered, the reader has handled the answer, `send_cmd` has
returned 0 -/
inductive User where
  | idle
  | asked (op : Call) (l : Fin 5)
  | sent (op : Call) (l : Fin 5)
  | answered (op : Call) (l : Fin 5) (ok : Bool)
  | returned (op : Call) (l : Fin 5)
deriving DecidableEq

/-- what the module sends; `started` and `ended` are the OK of `AT+CIPSTART` and of `AT+CIPCLOSE` -/
inductive Line where
  | connect (l : Fin 5) (c : ℕ)
  | frame (l : Fin 5) (c : ℕ)
  | closed (l : Fin 5) (c : ℕ)
  | started (l : Fin 5) (c : ℕ)
  | ended (l : Fin 5)
  | error
deriving DecidableEq

/-- `conns` is the module's table, `heap` the next address of a socket; `stored` holds, for each handled frame, the
socket of its connection and the one it was stored into -/
structure State where
  esp : Esp
  user : User
  heap : Addr
  conns : Fin 5 → Option ℕ
  owner : ℕ → Addr
  view : Fin 5 → Option ℕ
  tty : List Line
  stored : List (Addr × Option Addr)
  next : ℕ

inductive Act where
  | socket
  | connect (sock : Addr)
  | close (sock : Addr)
  | exec (ok : Bool)
  | incoming (l : Fin 5)
  | hangup (l : Fin 5)
  | frame (l : Fin 5)
  | handle
  | ret
  | assign

/-- the thread has the OK of the call, and has not assigned `links[l]` yet -/
def User.pending (l : Fin 5) : User → Option Call
  | .answered op k true => if k = l then some op else none
  | .returned op k => if k = l then some op else none
  | _ => none

/-- what a call that is answered OK assigns to `links[l]` -/
def Call.value : Call → Option Addr
  | .connect a => some a
  | .close => none

/-- a listening socket at address 0, and nothing else -/
def boot : State := ⟨⟨fun _ => none, some 0⟩, .idle, 1, fun _ => none, fun _ => 0, fun _ => none, [], [], 0⟩

/-- the reader passes the final line of a command on to the thread -/
def User.answer (ok : Bool) : User → User
  | .sent op l => .answered op l ok
  | u => u

/-- the handler of a line -/
def handleLine (s : State) : Line → State
  | .connect l c => { s with
      esp := s.esp.setLink l (some s.heap), heap := s.heap + 1, owner := Function.update s.owner c s.heap,
      view := Function.update s.view l (some c) }
  | .frame l c => { s with stored := s.stored ++ [(s.owner c, s.esp.links l)] }
  | .closed l _ => { s with esp := s.esp.setLink l none, view := Function.update s.view l none }
  | .started l c => { s with user := s.user.answer true, view := Function.update s.view l (some c) }
  | .ended _ => { s with user := s.user.answer true }
  | .error => { s with user := s.user.answer false }

def step (s : State) : Act → Option State
  | .socket => some { s with heap := s.heap + 1 }
  | .connect a =>
    if s.user = .idle ∧ a < s.heap then
      match getLinkId s.esp none with
      | some l => some { s with user := .asked (.connect a) l }
      | none => some s
    else none
  | .close a =>
    if s.user = .idle ∧ s.esp.tcpServer ≠ some a then
      match getLinkId s.esp (some a) with
      | some l => some { s with user := .asked .close l }
      | none => some s
    else none
  | .exec ok =>
    match s.user with
    | .asked op l =>
      match ok, op, s.conns l with
      | true, .connect a, none => some { s with
          user := .sent op l, conns := Function.update s.conns l (some s.next),
          owner := Function.update s.owner s.next a, tty := s.tty ++ [.started l s.next], next := s.next + 1 }
      | true, .close, some c => some { s with
          user := .sent op l, conns := Function.update s.conns l none, tty := s.tty ++ [.closed l c, .ended l] }
      | false, _, _ => some { s with user := .sent op l, tty := s.tty ++ [.error] }
      | _, _, _ => none
    | _ => none
  | .incoming l =>
    match s.conns l with
    | none => some { s with
        conns := Function.update s.conns l (some s.next), tty := s.tty ++ [.connect l s.next], next := s.next + 1 }
    | some _ => none
  | .hangup l =>
    match s.conns l with
    | some c => some { s with conns := Function.update s.conns l none, tty := s.tty ++ [.closed l c] }
    | none => none
  | .frame l =>
    match s.conns l with
    | some c => some { s with tty := s.tty ++ [.frame l c] }
    | none => none
  | .handle =>
    match s.tty with
    | x :: xs => some { handleLine s x with tty := xs }
    | [] => none
  | .ret =>
    match s.user with
    | .answered op l true => some { s with user := .returned op l }
    | .answered _ _ false => some { s with user := .idle }
    | _ => none
  | .assign =>
    match s.user with
    | .returned op l => some { s with esp := s.esp.setLink l op.value, user := .idle }
    | _ => none

/-- every frame handled so far was stored into the socket of its connection -/
def Agrees (s : State) : Prop := ∀ d ∈ s.stored, d.2 = some d.1

/-- no frame of the connection is still to be handled -/
def Dead (s : State) (l : Fin 5) (c : ℕ) : Prop := s.conns l ≠ some c ∧ Line.frame l c ∉ s.tty

instance decidableDead (s : State) (l : Fin 5) (c : ℕ) : Decidable (Dead s l c) := inferInstanceAs (Decidable (_ ∧ _))

/-- the reader may handle a line: while `links[l]` is to be assigned by a connect, no frame on `l`; while it is to be
assigned, no connection on `l` that has a frame to come -/
def Clear (s : State) : Line → Prop
  | .frame l _ => ∀ op ∈ s.user.pending l, op = .close
  | .connect l c => s.user.pending l = none ∨ Dead s l c
  | _ => True

/-- the reader keeps off a link that a call is about to assign -/
def Apart (s : State) : Act → Prop
  | .handle => ∀ x ∈ s.tty.head?, Clear s x
  | _ => True

instance decidableClear (s : State) : ∀ x, Decidable (Clear s x)
  | .frame _ _ => inferInstanceAs (Decidable (∀ op ∈ _, _))
  | .connect _ _ => inferInstanceAs (Decidable (_ ∨ _))
  | .closed _ _ | .started _ _ | .ended _ | .error => isTrue trivial

instance decidableApart (s : State) : ∀ a, Decidable (Apart s a)
  | .handle => inferInstanceAs (Decidable (∀ x ∈ s.tty.head?, Clear s x))
  | .socket | .connect _ | .close _ | .exec _ | .incoming _ | .hangup _ | .frame _ | .ret | .assign => isTrue trivial

/-! ## The lines about one link -/

/-- the connection on `l` behind a line; `none` where the module sends no such line -/
def Line.on (l : Fin 5) (v : Option ℕ) : Line → Option (Option ℕ)
  | .connect k c | .started k c => if k ≠ l then some v else if v = none then some (some c) else none
  | .frame k c => if k ≠ l then some v else if v = some c then some v else none
  | .closed k c => if k ≠ l then some v else if v = some c then some none else none
  | .ended k => if k ≠ l then some v else if v = none then some none else none
  | .error => some v

/-- the link a line is about -/
def Line.about : Line → Option (Fin 5)
  | .connect k _ | .frame k _ | .closed k _ | .started k _ | .ended k => some k
  | .error => none

/-- the connection a line opens -/
def Line.opened : Line → Option ℕ
  | .connect _ c | .started _ c => some c
  | _ => none

/-- the answer to a command -/
def Line.final : Line → Bool
  | .started _ _ | .ended _ | .error => true
  | _ => false

def opens (xs : List Line) : List ℕ := xs.filterMap Line.opened

def finals (xs : List Line) : List Line := xs.filter Line.final

/-- the lines on the way lead from `v` to `v'` -/
def Flow (l : Fin 5) (v : Option ℕ) (xs : List Line) (v' : Option ℕ) : Prop := run (Line.on l) v xs = some v'

theorem flow_cons {l : Fin 5} {v v' : Option ℕ} {x : Line} {xs : List Line} :
    Flow l v (x :: xs) v' ↔ ∃ m, x.on l v = some m ∧ Flow l m xs v' := run_cons_some

theorem Flow.append {l : Fin 5} {v m v' : Option ℕ} {xs ys : List Line} (h : Flow l v xs m) (h' : Flow l m ys v') :
    Flow l v (xs ++ ys) v' := by
  rw [Flow, run_append, show run (Line.on l) v xs = some m from h]
  exact h'

theorem Line.on_other {l : Fin 5} {x : Line} (h : x.about ≠ some l) (v : Option ℕ) : x.on l v = some v := by
  cases x with
  | error => rfl
  | _ k =>
    have hk : k ≠ l := fun hk => h (hk ▸ rfl)
    simp [Line.on, hk]

/-- the only line about the link of a connection that leaves it open is a frame of it -/
theorem Line.on_open {l : Fin 5} {c : ℕ} {x : Line} (h : x.on l (some c) = some (some c)) :
    x = .frame l c ∨ x.about ≠ some l := by
  cases x <;> simp only [Line.on, Line.about] at h ⊢ <;> grind

/-- lines about other links -/
theorem flow_other {l : Fin 5} {xs : List Line} (h : ∀ x ∈ xs, x.about ≠ some l) (v : Option ℕ) : Flow l v xs v := by
  induction xs with
  | nil => rfl
  | cons x xs ih =>
    rw [List.forall_mem_cons] at h
    exact flow_cons.2 ⟨v, Line.on_other h.1 v, ih h.2⟩

/-- lines about one link, and what they make of its connection -/
theorem flow_update {l k : Fin 5} {conns : Fin 5 → Option ℕ} {v : Option ℕ} {ys : List Line}
    (h : Flow k (conns k) ys v) (hk : ∀ y ∈ ys, y.about = some k) :
    Flow l (conns l) ys (Function.update conns k v l) := by
  by_cases hl : l = k
  · subst hl
    rw [Function.update_self]
    exact h
  · rw [Function.update_of_ne hl]
    refine flow_other (fun y hy hyl => hl ?_) _
    rw [hk y hy] at hyl
    exact (Option.some.inj hyl).symm

/-- a connection that is not open now and not opened later has no frame, and is not open then -/
theorem Flow.gone {l : Fin 5} {c : ℕ} {xs : List Line} {v v' : Option ℕ} (h : Flow l v xs v') (hv : v ≠ some c)
    (hc : c ∉ opens xs) : v' ≠ some c ∧ Line.frame l c ∉ xs := by
  induction xs generalizing v with
  | nil =>
    obtain rfl : v = v' := by simpa [Flow] using h
    exact ⟨hv, List.not_mem_nil⟩
  | cons x xs ih =>
    obtain ⟨m, hm, hr⟩ := flow_cons.1 h
    have hx : m ≠ some c ∧ x ≠ .frame l c ∧ c ∉ opens xs := by
      cases x <;> simp only [opens, Line.on, Line.opened, List.filterMap_cons] at hm hc ⊢ <;> grind
    obtain ⟨hend, hframe⟩ := ih hr hx.1 hx.2.2
    refine ⟨hend, ?_⟩
    rw [List.mem_cons, not_or]
    exact ⟨Ne.symm hx.2.1, hframe⟩

/-- a line leaves a connection on a link only if it was there or is opened by the line -/
theorem Line.on_some {l : Fin 5} {c : ℕ} {v : Option ℕ} {x : Line} (h : x.on l v = some (some c)) :
    v = some c ∨ x.opened = some c := by
  cases x <;> simp only [Line.on, Line.opened] at h ⊢ <;> grind

theorem mem_opens_of_final {l : Fin 5} {c : ℕ} {xs : List Line} (h : Line.started l c ∈ xs) : c ∈ opens xs :=
  List.mem_filterMap.2 ⟨_, h, rfl⟩

/-! ## What the reader does with a line -/

section Handle

variable {s : State} {x : Line}

@[simp] theorem handleLine_conns : (handleLine s x).conns = s.conns := by cases x <;> rfl

@[simp] theorem handleLine_next : (handleLine s x).next = s.next := by cases x <;> rfl

theorem handleLine_view {l : Fin 5} {v : Option ℕ} (h : x.on l (s.view l) = some v) : (handleLine s x).view l = v := by
  cases x <;> simp only [Line.on, handleLine, Function.update_apply] at h ⊢ <;> grind

theorem handleLine_owner {c : ℕ} (h : x.opened ≠ some c) : (handleLine s x).owner c = s.owner c := by
  cases x with
  | connect l c' =>
    have hne : c ≠ c' := fun hc => h (hc ▸ rfl)
    simp [handleLine, hne]
  | _ => rfl

/-- only a line about a link changes its slot -/
theorem handleLine_links {l : Fin 5} (h : x.about ≠ some l) : (handleLine s x).esp.links l = s.esp.links l := by
  cases x with
  | connect k c | closed k c =>
    have hne : l ≠ k := fun hk => h (hk ▸ rfl)
    simp [handleLine, Esp.setLink_apply, hne]
  | _ => rfl

theorem handleLine_user (h : x.final = false) : (handleLine s x).user = s.user := by
  cases x <;> first | rfl | cases h

theorem handleLine_heap : s.heap ≤ (handleLine s x).heap := by cases x <;> simp [handleLine]

end Handle

/-! ## Invariant -/

/-- the call of the thread -/
def User.call : User → Option (Call × Fin 5)
  | .idle => none
  | .asked op l | .sent op l | .answered op l _ | .returned op l => some (op, l)

/-- the call while its answer is not handled -/
def User.waiting : User → Option (Call × Fin 5)
  | .asked op l | .sent op l => some (op, l)
  | _ => none

@[simp] theorem handleLine_call {s : State} {x : Line} : (handleLine s x).user.call = s.user.call := by
  cases x <;> cases hu : s.user <;> simp [handleLine, hu, User.answer, User.call]

/-- two stages of a call that do not differ in what is to come -/
structure User.Same (u u' : User) : Prop where
  call : u.call = u'.call
  waiting : u.waiting = u'.waiting
  pending : ∀ l, u.pending l = u'.pending l

theorem User.Same.refl (u : User) : u.Same u := ⟨rfl, rfl, fun _ => rfl⟩

theorem User.same_sent (op : Call) (l : Fin 5) : (User.sent op l).Same (.asked op l) := ⟨rfl, rfl, fun _ => rfl⟩

/-- a line that answers the call -/
def Call.Answer (owner : ℕ → Addr) (l : Fin 5) : Call → Line → Prop
  | _, .error => True
  | .connect a, .started k c => k = l ∧ owner c = a
  | .close, .ended k => k = l
  | _, _ => False

/-- there is an answer on the way exactly when the module has answered, and it answers the call -/
def Awaits (owner : ℕ → Addr) (xs : List Line) : User → Prop
  | .sent op l => ∃ f, finals xs = [f] ∧ op.Answer owner l f
  | _ => finals xs = []

/-- the slot of a link with an open connection -/
def Held (slot : Option Addr) (o : Addr) : Option Call → Prop
  | none => slot = some o
  | some (.connect a) => slot = none ∧ o = a
  | some .close => False

structure Inv (s : State) : Prop where
  good : Agrees s
  flow : ∀ l, Flow l (s.view l) s.tty (s.conns l)
  nodup : (opens s.tty).Nodup
  fresh : ∀ c ∈ opens s.tty, c < s.next
  seen : ∀ l c, s.view l = some c → c < s.next ∧ c ∉ opens s.tty
  sock : ∀ a l, s.user.call = some (.connect a, l) → a < s.heap
  awaits : Awaits s.owner s.tty s.user
  free : ∀ a l, s.user.waiting = some (.connect a, l) → s.view l = none → s.esp.links l = none
  held : ∀ l c, s.view l = some c → Dead s l c ∨ Held (s.esp.links l) (s.owner c) (s.user.pending l)

theorem inv_boot : Inv boot where
  good := by simp [Agrees, boot]
  flow _ := rfl
  nodup := List.nodup_nil
  fresh := by simp [opens, boot]
  seen := by simp [boot]
  sock := by simp [boot, User.call]
  awaits := rfl
  free := by simp [boot, User.waiting]
  held := by simp [boot]

@[simp] theorem opens_append (xs ys : List Line) : opens (xs ++ ys) = opens xs ++ opens ys := List.filterMap_append

@[simp] theorem finals_append (xs ys : List Line) : finals (xs ++ ys) = finals xs ++ finals ys := List.filter_append ..

/-- lines that answer nothing change nothing for the thread -/
theorem Awaits.append {owner : ℕ → Addr} {xs ys : List Line} {u : User} (h : Awaits owner xs u) (hy : finals ys = []) :
    Awaits owner (xs ++ ys) u := by
  cases u <;> simpa [Awaits, hy] using h

/-- the module sends lines: each link goes from its connection to the new one, and connections are numbered on -/
theorem Inv.send {s : State} {ys : List Line} {u : User} {conns : Fin 5 → Option ℕ} {owner : ℕ → Addr} {n : ℕ}
    (h : Inv s) (hflow : ∀ l, Flow l (s.conns l) ys (conns l))
    (hopens : opens ys = [] ∧ n = s.next ∨ opens ys = [s.next] ∧ n = s.next + 1)
    (howner : ∀ c < s.next, owner c = s.owner c) (hawaits : Awaits owner (s.tty ++ ys) u)
    (hsame : u.Same s.user) : Inv { s with user := u, conns := conns, owner := owner, tty := s.tty ++ ys, next := n } := by
  have hnew : ∀ c < s.next, c ∉ opens ys := by
    intro c hc
    obtain ⟨ho, -⟩ | ⟨ho, -⟩ := hopens <;> simp [ho]
    omega
  have hle : s.next ≤ n := by omega
  refine ⟨h.good, fun l => (h.flow l).append (hflow l), ?_, ?_, ?_, ?_, hawaits, ?_, ?_⟩
  · obtain ⟨ho, -⟩ | ⟨ho, -⟩ := hopens
    · simpa [ho] using h.nodup
    · rw [opens_append, ho]
      refine List.Nodup.append h.nodup (List.nodup_singleton _) ?_
      rw [List.disjoint_singleton]
      intro hm
      exact absurd (h.fresh _ hm) (lt_irrefl _)
  · intro c hc
    rw [opens_append, List.mem_append] at hc
    obtain hc | hc := hc
    · exact lt_of_lt_of_le (h.fresh c hc) hle
    · obtain ⟨ho, rfl⟩ | ⟨ho, rfl⟩ := hopens
      · simp [ho] at hc
      · obtain rfl : c = s.next := by simpa [ho] using hc
        exact Nat.lt_succ_self _
  · intro l c hv
    obtain ⟨hlt, hc⟩ := h.seen l c hv
    refine ⟨lt_of_lt_of_le hlt hle, ?_⟩
    rw [opens_append, List.mem_append, not_or]
    exact ⟨hc, hnew c hlt⟩
  · rw [hsame.call]
    exact h.sock
  · rw [hsame.waiting]
    exact h.free
  · intro l c hv
    have hlt := (h.seen l c hv).1
    have hheld := h.held l c hv
    rw [← howner c hlt, ← hsame.pending l] at hheld
    refine hheld.imp_left ?_
    rintro ⟨hconn, hframe⟩
    obtain ⟨hconn', hframe'⟩ := (hflow l).gone hconn (hnew c hlt)
    exact ⟨hconn', by simp [hframe, hframe']⟩

/-! ## What each step keeps -/

section Handle

variable {s : State} {x : Line} {xs : List Line}

theorem Inv.head_flow (h : Inv s) (ht : s.tty = x :: xs) (l : Fin 5) :
    ∃ v, x.on l (s.view l) = some v ∧ Flow l v xs (s.conns l) := flow_cons.1 (ht ▸ h.flow l)

theorem opens_cons (ht : s.tty = x :: xs) : opens s.tty = x.opened.toList ++ opens xs := by
  rw [ht]
  cases ho : x.opened <;> simp [opens, ho]

/-- the connection of a frame is open, and its socket is in the slot unless the slot is about to be assigned -/
theorem Inv.frame_held {l : Fin 5} {c : ℕ} (h : Inv s) (ht : s.tty = .frame l c :: xs) :
    Held (s.esp.links l) (s.owner c) (s.user.pending l) := by
  obtain ⟨v, hv, -⟩ := h.head_flow ht l
  have hview : s.view l = some c := by
    simp only [Line.on, ne_eq, not_true_eq_false, if_false] at hv
    split_ifs at hv with hc
    exact hc
  have hlive : ¬ Dead s l c := fun hd => hd.2 (by simp [ht])
  exact (h.held l c hview).resolve_left hlive

/-- an answer at the head is the one the thread waits for -/
theorem Inv.head_answer (h : Inv s) (ht : s.tty = x :: xs) (hf : x.final = true) :
    ∃ op l, s.user = .sent op l ∧ op.Answer s.owner l x ∧ finals xs = [] := by
  have hcons : finals s.tty = x :: finals xs := by simp [ht, finals, hf]
  have hawaits := h.awaits
  cases hu : s.user with
  | sent op l =>
    simp only [hu, Awaits, hcons, List.cons.injEq] at hawaits
    obtain ⟨f, ⟨rfl, hxs⟩, hans⟩ := hawaits
    exact ⟨op, l, rfl, hans, hxs⟩
  | _ => simp [hu, Awaits, hcons] at hawaits

theorem Inv.handle_good (h : Inv s) (ht : s.tty = x :: xs) (hc : Clear s x) : Agrees (handleLine s x) := by
  cases x with
  | frame l c =>
    have hheld := h.frame_held ht
    intro d hd
    obtain hd | rfl := by simpa [handleLine] using hd
    · exact h.good d hd
    cases hp : s.user.pending l with
    | none =>
      rw [hp] at hheld
      exact hheld
    | some op =>
      -- the guard leaves only a close, whose link has no connection
      obtain rfl : op = .close := hc op hp
      rw [hp] at hheld
      exact hheld.elim
  | _ => exact h.good

theorem Inv.handle_awaits (h : Inv s) (ht : s.tty = x :: xs) :
    Awaits (handleLine s x).owner xs (handleLine s x).user := by
  cases hf : x.final with
  | true =>
    obtain ⟨op, l, hu, -, hxs⟩ := h.head_answer ht hf
    cases x with
    | started _ _ | ended _ | error => simpa [handleLine, hu, User.answer, Awaits] using hxs
    | _ => cases hf
  | false =>
    have hfinals : finals s.tty = finals xs := by simp [ht, finals, hf]
    have hawaits := h.awaits
    rw [handleLine_user hf]
    cases hu : s.user with
    | sent op l =>
      simp only [hu, Awaits, hfinals] at hawaits
      obtain ⟨f, hxs, hans⟩ := hawaits
      refine ⟨f, hxs, ?_⟩
      cases op with
      | close => cases f <;> exact hans
      | connect a =>
        cases f with
        | started k c =>
          -- the connection that is announced is not the one the line opens
          have hmem : Line.started k c ∈ finals xs := hxs ▸ List.mem_singleton_self _
          have hc : c ∈ opens xs := mem_opens_of_final (List.mem_of_mem_filter hmem)
          have hne : x.opened ≠ some c := by
            intro ho
            have hnodup := opens_cons ht ▸ h.nodup
            rw [ho] at hnodup
            exact (List.nodup_cons.1 hnodup).1 hc
          exact ⟨hans.1, (handleLine_owner hne).trans hans.2⟩
        | error => trivial
        | _ => exact hans
    | _ => simpa [hu, Awaits, hfinals] using hawaits

theorem Inv.handle_free (h : Inv s) (ht : s.tty = x :: xs) {a : Addr} {l : Fin 5}
    (hw : (handleLine s x).user.waiting = some (.connect a, l)) (hv : (handleLine s x).view l = none) :
    (handleLine s x).esp.links l = none := by
  cases hf : x.final with
  | true =>
    obtain ⟨op, k, hu, -, -⟩ := h.head_answer ht hf
    cases x with
    | started _ _ | ended _ | error => simp [handleLine, hu, User.answer, User.waiting] at hw
    | _ => cases hf
  | false =>
    rw [handleLine_user hf] at hw
    have hfree := h.free a l hw
    cases x with
    | connect k c =>
      have hne : l ≠ k := by
        rintro rfl
        simp [handleLine] at hv
      simp only [handleLine, Function.update_apply, Esp.setLink_apply, hne, if_false] at hv ⊢
      exact hfree hv
    | closed k c =>
      simp only [handleLine, Function.update_apply, Esp.setLink_apply] at hv ⊢
      split_ifs at hv ⊢ with hk
      · rfl
      · exact hfree hv
    | frame k c => exact hfree hv
    | _ => cases hf

theorem Inv.handle_held (h : Inv s) (ht : s.tty = x :: xs) (hc : Clear s x) {l : Fin 5} {c : ℕ}
    (hv : (handleLine s x).view l = some c) :
    Dead { handleLine s x with tty := xs } l c ∨
      Held ((handleLine s x).esp.links l) ((handleLine s x).owner c) ((handleLine s x).user.pending l) := by
  have hdead : Dead s l c → Dead { handleLine s x with tty := xs } l c := by
    rintro ⟨hconn, hframe⟩
    rw [ht, List.mem_cons, not_or] at hframe
    exact ⟨by simpa using hconn, hframe.2⟩
  have hkeep : s.view l = some c → Dead { handleLine s x with tty := xs } l c ∨
      Held (s.esp.links l) (s.owner c) (s.user.pending l) := fun hv => (h.held l c hv).imp_left hdead
  cases x with
  | frame k c' => exact hkeep hv
  | closed k c' =>
    simp only [handleLine, Function.update_apply] at hv
    split_ifs at hv with hk
    simpa [handleLine, Esp.setLink_apply, hk] using hkeep hv
  | error =>
    obtain ⟨op, k, hu, -, -⟩ := h.head_answer ht rfl
    simpa [handleLine, hu, User.answer, User.pending] using hkeep hv
  | ended k =>
    obtain ⟨op, k', hu, hans, -⟩ := h.head_answer ht rfl
    obtain ⟨rfl, rfl⟩ : op = .close ∧ k = k' := by cases op <;> simp_all [Call.Answer]
    -- the closed line came before: there is no connection on the link
    obtain ⟨v, hon, -⟩ := h.head_flow ht k
    have hne : k ≠ l := by
      rintro rfl
      simp [Line.on, show s.view k = some c from hv] at hon
    simpa [handleLine, hu, User.answer, User.pending, hne] using hkeep hv
  | connect k c' =>
    by_cases hk : l = k
    · subst hk
      obtain rfl : c' = c := by simpa [handleLine] using hv
      obtain hp | hd := hc
      · right
        simp [handleLine, Esp.setLink_apply, hp, Held]
      · exact Or.inl (hdead hd)
    · have hview : s.view l = some c := by simpa [handleLine, hk] using hv
      have hne : c ≠ c' := by
        rintro rfl
        exact (h.seen l c hview).2 (by simp [opens_cons ht, Line.opened])
      simpa [handleLine, Esp.setLink_apply, hk, hne] using hkeep hview
  | started k c' =>
    obtain ⟨op, k', hu, hans, -⟩ := h.head_answer ht rfl
    cases op with
    | close => exact hans.elim
    | connect a =>
      obtain ⟨rfl, ha⟩ := hans
      by_cases hk : l = k
      · subst hk
        obtain rfl : c' = c := by simpa [handleLine] using hv
        obtain ⟨v, hon, -⟩ := h.head_flow ht l
        have hnone : s.view l = none := by
          simp only [Line.on, ne_eq, not_true_eq_false, if_false] at hon
          split_ifs at hon with hn
          exact hn
        right
        simpa [handleLine, hu, User.answer, User.pending, Held, ha] using h.free a l (by simp [hu, User.waiting]) hnone
      · have hview : s.view l = some c := by simpa [handleLine, hk] using hv
        simpa [handleLine, hu, User.answer, User.pending, Ne.symm hk] using hkeep hview

theorem Inv.handle (h : Inv s) (ht : s.tty = x :: xs) (hc : Clear s x) : Inv { handleLine s x with tty := xs } where
  good := h.handle_good ht hc
  flow l := by
    obtain ⟨v, hon, hv⟩ := h.head_flow ht l
    rw [handleLine_view hon, handleLine_conns]
    exact hv
  nodup := (List.nodup_append.1 (opens_cons ht ▸ h.nodup)).2.1
  fresh c hc := by
    rw [handleLine_next]
    exact h.fresh c (by simp [opens_cons ht, hc])
  seen l c hv := by
    obtain ⟨v, hon, -⟩ := h.head_flow ht l
    rw [handleLine_view hon] at hv
    rw [handleLine_next]
    obtain hview | ho := Line.on_some (hv ▸ hon)
    · obtain ⟨hlt, hc⟩ := h.seen l c hview
      rw [opens_cons ht, List.mem_append, not_or] at hc
      exact ⟨hlt, hc.2⟩
    · have hcons := opens_cons ht
      rw [ho] at hcons
      have hnodup := h.nodup
      rw [hcons] at hnodup
      exact ⟨h.fresh c (by simp [hcons]), (List.nodup_cons.1 hnodup).1⟩
  sock a l hcall := by
    refine lt_of_lt_of_le (h.sock a l ?_) handleLine_heap
    rw [← handleLine_call (x := x)]
    exact hcall
  awaits := h.handle_awaits ht
  free _ _ := h.handle_free ht
  held _ _ := h.handle_held ht hc

end Handle

/-- the module answers a command -/
theorem Inv.exec {s s' : State} {ok : Bool} (h : Inv s) (hs : step s (.exec ok) = some s') : Inv s' := by
  simp only [step] at hs
  cases hu : s.user with
  | asked op k =>
    have hquiet : finals s.tty = [] := by simpa [hu, Awaits] using h.awaits
    have hsame : (User.sent op k).Same s.user := hu ▸ User.same_sent op k
    simp only [hu] at hs
    split at hs <;> cases hs
    case h_1 a hconn =>
      -- a new connection, which belongs to the socket of the call
      refine h.send (fun l => flow_update ?_ ?_) (Or.inr ⟨rfl, rfl⟩) ?_ ?_ hsame
      · simp [Flow, run_cons, Line.on, hconn]
      · simp [Line.about]
      · intro c hc
        rw [Function.update_of_ne (ne_of_lt hc)]
      · exact ⟨.started k s.next, by rw [finals_append, hquiet]; rfl, by simp [Call.Answer]⟩
    case h_2 c hconn =>
      refine h.send (fun l => flow_update ?_ ?_) (Or.inl ⟨rfl, rfl⟩) (fun _ _ => rfl) ?_ hsame
      · simp [Flow, run_cons, Line.on, hconn]
      · simp [Line.about]
      · exact ⟨.ended k, by rw [finals_append, hquiet]; rfl, by simp [Call.Answer]⟩
    case h_3 =>
      refine h.send (fun l => flow_other ?_ _) (Or.inl ⟨rfl, rfl⟩) (fun _ _ => rfl) ?_ hsame
      · simp [Line.about]
      · exact ⟨.error, by rw [finals_append, hquiet]; rfl, by simp [Call.Answer]⟩
  | _ => simp [hu] at hs

/-- the module opens or closes a link for itself, or sends a frame -/
theorem Inv.module {s : State} {k : Fin 5} {y : Line} {v : Option ℕ} {n : ℕ} (h : Inv s)
    (hon : y.on k (s.conns k) = some v) (habout : y.about = some k) (hfinal : y.final = false)
    (hopens : y.opened = none ∧ n = s.next ∨ y.opened = some s.next ∧ n = s.next + 1) :
    Inv { s with conns := Function.update s.conns k v, tty := s.tty ++ [y], next := n } := by
  refine h.send (fun l => flow_update ?_ ?_) ?_ (fun _ _ => rfl) (h.awaits.append ?_) (User.Same.refl _)
  · simp [Flow, run_cons, hon]
  · simp [habout]
  · refine hopens.imp (And.imp_left ?_) (And.imp_left ?_) <;>
    · intro ho
      simp [opens, ho]
  · simp [finals, hfinal]

/-- the thread goes on without an answer on the way -/
theorem Inv.turn {s : State} {u : User} (h : Inv s) (hawaits : Awaits s.owner s.tty u)
    (hsock : ∀ a l, u.call = some (.connect a, l) → a < s.heap)
    (hfree : ∀ a l, u.waiting = some (.connect a, l) → s.esp.links l = none)
    (hpending : ∀ l, u.pending l = s.user.pending l) : Inv { s with user := u } :=
  { h with
    sock := hsock
    awaits := hawaits
    free := fun a l hc _ => hfree a l hc
    held := by
      intro l c hv
      have hheld := h.held l c hv
      rw [← hpending l] at hheld
      exact hheld }

theorem Inv.assign {s : State} {op : Call} {k : Fin 5} (h : Inv s) (hu : s.user = .returned op k) :
    Inv { s with esp := s.esp.setLink k op.value, user := .idle } := by
  have hquiet : finals s.tty = [] := by simpa [hu, Awaits] using h.awaits
  refine { h with sock := ?_, awaits := hquiet, free := ?_, held := ?_ }
  · simp [User.call]
  · simp [User.waiting]
  · intro l c hv
    refine (h.held l c hv).imp_right ?_
    intro hheld
    rw [hu] at hheld
    by_cases hl : k = l
    · -- the slot gets the socket the connection belongs to
      subst hl
      simp only [User.pending, if_true] at hheld
      cases op with
      | connect a =>
        obtain ⟨-, rfl⟩ := hheld
        simp [Esp.setLink_apply, Call.value, User.pending, Held]
      | close => exact hheld.elim
    · simpa [Esp.setLink_apply, Ne.symm hl, hl, User.pending] using hheld

theorem inv_step (s : State) (a : Act) (s' : State) (h : Inv s) (hg : Apart s a) (hs : step s a = some s') :
    Inv s' := by
  have hawaits := h.awaits
  cases a with
  | socket =>
    cases hs
    exact { h with sock := fun a l hc => Nat.lt_succ_of_lt (h.sock a l hc) }
  | connect a =>
    simp only [step] at hs
    split_ifs at hs with hidle
    obtain ⟨hu, ha⟩ := hidle
    split at hs <;> cases hs
    case h_1 k hk =>
      rw [hu] at hawaits
      refine h.turn hawaits ?_ ?_ (by rw [hu]; intro l; rfl)
      · intro b l hc
        obtain ⟨hb, -⟩ : a = b ∧ k = l := by simpa [User.call] using hc
        exact hb ▸ ha
      · intro b l hc
        obtain ⟨-, hl⟩ : a = b ∧ k = l := by simpa [User.waiting] using hc
        exact hl ▸ getLinkId_some hk
    case h_2 => exact h
  | close a =>
    simp only [step] at hs
    split_ifs at hs with hidle
    obtain ⟨hu, -⟩ := hidle
    split at hs <;> cases hs
    case h_1 k hk =>
      rw [hu] at hawaits
      exact h.turn hawaits (by simp [User.call]) (by simp [User.waiting]) (by rw [hu]; intro l; rfl)
    case h_2 => exact h
  | exec ok => exact h.exec hs
  | incoming k =>
    simp only [step] at hs
    split at hs <;> cases hs
    case h_1 hconn => exact h.module (by simp [Line.on, hconn]) rfl rfl (Or.inr ⟨rfl, rfl⟩)
  | hangup k =>
    simp only [step] at hs
    split at hs <;> cases hs
    case h_1 c hconn => exact h.module (by simp [Line.on, hconn]) rfl rfl (Or.inl ⟨rfl, rfl⟩)
  | frame k =>
    simp only [step] at hs
    split at hs <;> cases hs
    case h_1 c hconn =>
      have hsame : Function.update s.conns k (some c) = s.conns := by rw [← hconn, Function.update_eq_self]
      rw [← hsame]
      exact h.module (by simp [Line.on, hconn]) rfl rfl (Or.inl ⟨rfl, rfl⟩)
  | handle =>
    simp only [step] at hs
    split at hs <;> cases hs
    case h_1 x xs ht => exact h.handle ht (hg x (by simp [ht]))
  | ret =>
    simp only [step] at hs
    split at hs <;> cases hs
    case h_1 op k hu =>
      rw [hu] at hawaits
      exact h.turn hawaits (fun b l hc => h.sock b l (hu ▸ hc)) (by simp [User.waiting]) (by rw [hu]; intro l; rfl)
    case h_2 op k hu =>
      rw [hu] at hawaits
      exact h.turn hawaits (by simp [User.call]) (by simp [User.waiting]) (by rw [hu]; intro l; rfl)
  | assign =>
    simp only [step] at hs
    split at hs <;> cases hs
    case h_1 op k hu => exact h.assign hu

/-! ## Where the other steps lead -/

theorem not_agrees {s : State} {d : Addr × Option Addr} (hd : d ∈ s.stored) (h : d.2 ≠ some d.1) : ¬ Agrees s :=
  fun hs => h (hs d hd)

theorem User.pending_some {u : User} {l : Fin 5} {op : Call} (h : u.pending l = some op) :
    u = .answered op l true ∨ u = .returned op l := by
  cases u with
  | answered op' k ok =>
    cases ok with
    | true => simp_all [User.pending]
    | false => simp [User.pending] at h
  | returned op' k => simp_all [User.pending]
  | _ => simp [User.pending] at h

/-- the thread returns from `send_cmd` and assigns before the reader takes the next line -/
theorem run_settle {s : State} {l : Fin 5} {op : Call} (h : s.user.pending l = some op) :
    ∃ bs, run step s bs = some { s with esp := s.esp.setLink l op.value, user := .idle } := by
  obtain hu | hu := User.pending_some h
  · exact ⟨[.ret, .assign], by simp [run_cons, step, hu]⟩
  · exact ⟨[.assign], by simp [run_cons, step, hu]⟩

/-- the reader gets to a frame of an open connection whose socket is not in the slot -/
theorem run_to_frame {s : State} {l : Fin 5} {c : ℕ} {v : Option ℕ} (hview : s.view l = some c)
    (hflow : Flow l (some c) s.tty v) (hc : c ∉ opens s.tty) (hframe : Line.frame l c ∈ s.tty)
    (hslot : s.esp.links l ≠ some (s.owner c)) : ∃ bs t, run step s bs = some t ∧ ¬ Agrees t := by
  induction ht : s.tty generalizing s with
  | nil => simp [ht] at hframe
  | cons x xs ih =>
    have hstep : step s .handle = some { handleLine s x with tty := xs } := by simp [step, ht]
    rw [ht] at hflow hframe
    rw [opens_cons ht, List.mem_append, not_or] at hc
    obtain ⟨m, hm, hr⟩ := flow_cons.1 hflow
    by_cases hx : x = .frame l c
    · subst hx
      refine ⟨[.handle], _, run_cons_some.2 ⟨_, hstep, rfl⟩, ?_⟩
      exact not_agrees (d := (s.owner c, s.esp.links l)) (by simp [handleLine]) hslot
    · have hrest : Line.frame l c ∈ xs := by
        obtain h | h := List.mem_cons.1 hframe
        · exact absurd h.symm hx
        · exact h
      have hopens : x.opened ≠ some c := by simpa using hc.1
      -- the line cannot end the connection: its frame is still to come
      obtain rfl : m = some c := by
        by_contra hne
        exact (hr.gone hne hc.2).2 hrest
      have hlinks : (handleLine s x).esp.links l = s.esp.links l := handleLine_links ((Line.on_open hm).resolve_left hx)
      obtain ⟨bs, t, hrun, hbad⟩ := ih (s := { handleLine s x with tty := xs }) (handleLine_view (hview ▸ hm)) hr hc.2
        hrest (by rw [hlinks, handleLine_owner hopens]; exact hslot) rfl
      exact ⟨.handle :: bs, t, run_cons_some.2 ⟨_, hstep, hrun⟩, hbad⟩

/-- a connection that has a frame to come is wiped out by the assignment -/
theorem run_wiped {s : State} {l : Fin 5} {c : ℕ} {op : Call} (hview : s.view l = some c)
    (hflow : Flow l (some c) s.tty (s.conns l)) (hc : c ∉ opens s.tty) (hlive : ¬ Dead s l c)
    (hop : s.user.pending l = some op) (hvalue : op.value ≠ some (s.owner c)) :
    ∃ bs t, run step s bs = some t ∧ ¬ Agrees t := by
  obtain ⟨bs, hbs⟩ := run_settle hop
  by_cases hframe : Line.frame l c ∈ s.tty
  · obtain ⟨cs, t, hcs, hbad⟩ := run_to_frame (s := { s with esp := s.esp.setLink l op.value, user := .idle }) hview
      hflow hc hframe (by simpa [Esp.setLink_apply] using hvalue)
    exact ⟨bs ++ cs, t, by rw [run_append, hbs]; exact hcs, hbad⟩
  · have hconn : s.conns l = some c := by
      by_contra hne
      exact hlive ⟨hne, hframe⟩
    -- the module sends the frame now
    have hsend : Flow l (s.conns l) [.frame l c] (s.conns l) := by simp [Flow, run_cons, Line.on, hconn]
    obtain ⟨cs, t, hcs, hbad⟩ := run_to_frame
      (s := { s with esp := s.esp.setLink l op.value, user := .idle, tty := s.tty ++ [.frame l c] }) hview
      (hflow.append hsend) (by simpa [opens, Line.opened] using hc) (by simp)
      (by simpa [Esp.setLink_apply] using hvalue)
    refine ⟨bs ++ .frame l :: cs, t, ?_, hbad⟩
    rw [run_append, hbs, Option.bind_some, run_cons_some]
    exact ⟨_, by simp [step, hconn], hcs⟩

theorem sharp_step (s : State) (a : Act) (s' : State) (h : Inv s) (hs : step s a = some s') (hn : ¬ Apart s a) :
    ∃ bs t, run step s' bs = some t ∧ ¬ Agrees t := by
  cases a with
  | handle =>
    simp only [step] at hs
    split at hs <;> cases hs
    case h_1 x xs ht =>
      have hclear : ¬ Clear s x := fun hx => hn (by simpa [Apart, ht] using hx)
      cases x with
      | frame l c =>
        obtain ⟨op, hop, hne⟩ : ∃ op, s.user.pending l = some op ∧ op ≠ .close := by simpa [Clear] using hclear
        have hheld := h.frame_held ht
        rw [hop] at hheld
        cases op with
        | close => exact absurd rfl hne
        | connect b =>
          refine ⟨[], _, rfl, not_agrees (d := (s.owner c, s.esp.links l)) (by simp [handleLine]) ?_⟩
          simp [hheld.1]
      | connect l c =>
        obtain ⟨hpending, hlive⟩ := not_or.1 hclear
        obtain ⟨op, hop⟩ := Option.ne_none_iff_exists'.1 hpending
        obtain ⟨v, hon, hflow⟩ := h.head_flow ht l
        obtain rfl : v = some c := by
          simp only [Line.on, ne_eq, not_true_eq_false, if_false] at hon
          split_ifs at hon
          simpa using hon.symm
        refine run_wiped (by simp [handleLine]) hflow ?_ ?_ hop ?_
        · have hnodup := h.nodup
          rw [opens_cons ht] at hnodup
          exact (List.nodup_cons.1 hnodup).1
        · rintro ⟨hconn, hframe⟩
          exact hlive ⟨hconn, by simpa [ht] using hframe⟩
        · cases op with
          | close => simp [Call.value]
          | connect b =>
            -- the new socket is younger than the one being connected
            have hb : b < s.heap := by
              obtain hu | hu := User.pending_some hop <;> exact h.sock b l (by rw [hu]; rfl)
            simpa [Call.value, handleLine] using ne_of_lt hb
      | _ => exact absurd trivial hclear
  | _ => exact absurd trivial hn

/-! ## The driver's functions -/

section Driver

variable {w w' : Host} {s : State} {l : Fin 5} {c : ℕ}

theorem setLink_setLink (e : Esp) (a b : Option Addr) : (e.setLink l a).setLink l b = e.setLink l b := by
  simp only [Esp.setLink, Esp.mk.injEq, and_true]
  funext i
  split_ifs <;> rfl

/-- `connect` with nothing in between is a run from the table before to the table after -/
theorem espConnect_run {a : Addr} {k : Socket} {v : Netdev} {r : ℤ} (hs : w.socks a = some k) (hd : w.dev k.dev = .ok v)
    (h : espConnect w a = .ok (r, w')) (he : s.esp = w.esp) (hu : s.user = .idle) (ha : a < s.heap) (ht : s.tty = [])
    (hfree : ∀ l, w.esp.links l = none → s.conns l = none) :
    ∃ bs, (run step s (.connect a :: bs)).map (fun t => (t.esp, t.user)) = some (w'.esp, .idle) := by
  obtain ⟨hnone, hok⟩ | ⟨l, ws, hl, hok⟩ := espConnect_cases hs hd
  · obtain ⟨-, rfl⟩ : -1 = r ∧ w = w' := by simpa using hok.symm.trans h
    exact ⟨[], by simp [run_cons, step, hu, ha, he, hnone]⟩
  · have hconn := hfree l (getLinkId_some hl)
    rw [hok] at h
    split_ifs at h <;> cases h
    · refine ⟨[.exec true, .handle, .ret, .assign], ?_⟩
      simp [run_cons, step, hu, ha, he, hl, hconn, ht, handleLine, User.answer, Call.value]
    · refine ⟨[.exec false, .handle, .ret], ?_⟩
      simp [run_cons, step, hu, ha, he, hl, ht, handleLine, User.answer]

/-- the same for `close` of a socket that is not the server -/
theorem espClose_run {a : Addr} {k : Socket} {v : Netdev} {r : ℤ} (hs : w.socks a = some k) (hd : w.dev k.dev = .ok v)
    (hserver : w.esp.tcpServer ≠ some a) (h : espClose w a = .ok (r, w')) (he : s.esp = w.esp) (hu : s.user = .idle)
    (ht : s.tty = []) (hopen : ∀ l, w.esp.links l = some a → s.conns l ≠ none) :
    ∃ bs, (run step s (.close a :: bs)).map (fun t => (t.esp, t.user)) = some (w'.esp, .idle) := by
  obtain ⟨_, hsrv, -⟩ | ⟨-, hnone, hok⟩ | ⟨l, ws, -, hl, hok⟩ := espClose_cases hs hd
  · exact absurd hsrv hserver
  · obtain ⟨-, rfl⟩ : -1 = r ∧ w = w' := by simpa using hok.symm.trans h
    exact ⟨[], by simp [run_cons, step, hu, he, hserver, hnone]⟩
  · obtain ⟨c, hconn⟩ := Option.ne_none_iff_exists'.1 (hopen l (getLinkId_some hl))
    rw [hok] at h
    split_ifs at h <;> cases h
    · refine ⟨[.exec true, .handle, .handle, .ret, .assign], ?_⟩
      simp [run_cons, step, hu, he, hserver, hl, hconn, ht, handleLine, User.answer, Call.value,
        setLink_setLink]
    · refine ⟨[.exec false, .handle, .ret], ?_⟩
      simp [run_cons, step, hu, he, hserver, hl, ht, handleLine, User.answer]

/-- `recv` stores a payload into the socket the slot holds, and into no other -/
theorem espRecv_handle {data : Bytes} {remote : SockAddrInet} (h : espRecv w (l : ℕ) data remote = .ok w')
    (he : s.esp = w.esp) :
    ∃ a, (handleLine s (.frame l c)).stored = s.stored ++ [(s.owner c, some a)] ∧ w'.esp = w.esp ∧
      ∀ b, b ≠ a → w'.socks b = w.socks b := by
  obtain ⟨i, a, k, hi, hl, hk, hw⟩ := espRecv_ok h
  rw [linkIdx_fin] at hi
  cases hi
  refine ⟨a, by simp [handleLine, he, hl], ?_⟩
  obtain ⟨-, rfl⟩ | ⟨-, -, rfl⟩ := hw
  · exact ⟨rfl, fun b hb => Table.set_ne _ _ hb⟩
  · exact ⟨rfl, fun b hb => Table.set_ne _ _ hb⟩

/-- for an empty slot it goes through a null pointer, where the step stores for no socket -/
theorem espRecv_empty (data : Bytes) (remote : SockAddrInet) (h : w.esp.links l = none) (he : s.esp = w.esp) :
    espRecv w (l : ℕ) data remote = .error .nullSock ∧
      (handleLine s (.frame l c)).stored = s.stored ++ [(s.owner c, none)] := by
  refine ⟨?_, by simp [handleLine, he, h]⟩
  simp [espRecv, linkIdx_fin, h, Host.sock, bind, Except.bind]

/-- `accept` puts a fresh socket into the slot -/
theorem espAccept_handle {remote : SockAddrInet} (h : espAccept w (l : ℕ) remote = .ok w')
    (hserver : w.esp.tcpServer ≠ none) (he : s.esp = w.esp) (hheap : s.heap = w.fs.heap.next) :
    w'.esp = (handleLine s (.connect l c)).esp := by
  obtain ⟨hnone, -⟩ | ⟨t, a, w1, k, i, tk, -, ha, -, hi, -, rfl⟩ := espAccept_ok h
  · exact absurd hnone hserver
  · rw [linkIdx_fin] at hi
    cases hi
    obtain ⟨k', n, rfl, -, -, -, -, -, -, rfl⟩ := netdevSockAlloc_ok ha
    rw [← hheap]
    simp [handleLine, he, Host.setSock, Host.withHeap]

/-- `closed` empties the slot -/
theorem espClosed_handle (h : espClosed w (l : ℕ) = .ok w') (he : s.esp = w.esp) :
    w'.esp = (handleLine s (.closed l c)).esp := by
  obtain ⟨i, hi, hd⟩ := espClosed_ok h
  rw [linkIdx_fin] at hi
  cases hi
  obtain rfl | ⟨_, _, -, -, rfl⟩ := netdevSockDisconnect_ok hd
  · simp [handleLine, he]
  · simp [handleLine, he]

end Driver

/-! ## Main result -/

/-- **The slot of a link.** Every frame goes to the socket of its connection as long as the reader, while a call has its
OK and has not assigned `links[l]` yet, handles no frame on a link being connected and no connection on `l` that has a
frame to come; each such line can be followed by a frame that is stored elsewhere. -/
theorem link_table {acts : List Act} {s : State} (hg : Guarded step Apart boot acts)
    (hr : run step boot acts = some s) : Exact step Apart Agrees s :=
  exact_run inv_step (fun _ h => h.good) sharp_step inv_boot hg hr

/-! ## Samples -/

/-- a socket connects, gets a frame and is closed; an incoming connection uses the link again and gets a frame too -/
def sampleActs (l : Fin 5) : List Act :=
  [.socket, .connect 1, .exec true, .handle, .ret, .assign, .frame l, .handle, .close 1, .exec true, .handle, .handle,
    .ret, .assign, .incoming l, .handle, .frame l, .handle]

theorem link_table_sample : ∃ s, run step boot (sampleActs 0) = some s ∧ s.stored = [(1, some 1), (2, some 2)] ∧
    Exact step Apart Agrees s := by
  have hr : (run step boot (sampleActs 0)).map State.stored = some [(1, some 1), (2, some 2)] := by decide +kernel
  obtain ⟨s, hs, hv⟩ := Option.map_eq_some_iff.1 hr
  exact ⟨s, hs, hv, link_table (by decide +kernel) hs⟩

/-- a frame right behind the OK of a connect; a connection on the link of a close before its assignment; the same for a
connect -/
theorem link_table_fails :
    (∃ s, run step boot [.socket, .connect 1, .exec true, .frame 0, .handle, .handle] = some s ∧
      s.stored = [(1, none)] ∧ ¬ Agrees s) ∧
    (∃ s, run step boot [.incoming 0, .handle, .close 1, .exec true, .incoming 0, .handle, .handle, .handle, .ret,
      .assign, .frame 0, .handle] = some s ∧ s.stored = [(2, none)] ∧ ¬ Agrees s) ∧
    (∃ s, run step boot [.socket, .connect 1, .exec true, .hangup 0, .incoming 0, .handle, .handle, .handle, .ret,
      .assign, .frame 0, .handle] = some s ∧ s.stored = [(2, some 1)] ∧ ¬ Agrees s) := by
  have hbad : ∀ (acts : List Act) (d : Addr × Option Addr), d.2 ≠ some d.1 →
      (run step boot acts).map State.stored = some [d] →
      ∃ s, run step boot acts = some s ∧ s.stored = [d] ∧ ¬ Agrees s := by
    intro acts d hne hr
    obtain ⟨s, hs, hv⟩ := Option.map_eq_some_iff.1 hr
    exact ⟨s, hs, hv, not_agrees (d := d) (by rw [hv]; exact List.mem_singleton_self d) hne⟩
  refine ⟨?_, ?_, ?_⟩
  · exact hbad _ (1, none) (by decide) (by decide +kernel)
  · exact hbad _ (2, none) (by decide) (by decide +kernel)
  · exact hbad _ (2, some 1) (by decide) (by decide +kernel)

end EspHostdriver.LinkTable
