/-
The file system layer on memory, over every sequence of calls.

A caller has pointers: what `fs_fd_alloc`, `fs_fd_acquire` and `fs_node_create` gave it, or anything else. `Known` only
says that it has no pointer to the object that is allocated next. `Allowed` is what the callers promise: a descriptor is
allocated on a node that exists and freed while it exists, a node is created below one that exists with a length of its
name below `SIZE_MAX`, and a node that exists and has a parent is destroyed. A directory without parent has room for its
first link. Memory may run short at any other call, and holds anything at the start.

- `memory_refines`: with the same calls, the layer on memory ends where the one on sequences does, has given the same
  answers up to there, and holds its state.
- `memory_safe`: allowed calls never access an object that was freed or follow a null pointer, and afterwards the
  objects that were not freed are those on exactly one list, and the nodes without parent.
-/
import EspHostdriver.Bos.Memory
import EspHostdriver.Scenarios.DescriptorTable

namespace EspHostdriver.MemorySafety

open Machine Memory

/-! ## Model -/

inductive Call where
  | register (ops : Option FsOps)
  | alloc (node : Ptr) (mode modeMask : UInt32)
  | free (fd : Ptr)
  | acquire (id : ℤ)
  | create (parent : Ptr) (name : Bytes) (nameLen : ℕ) (type : FileType) (data : Option Addr) (fsId : ℤ)
  | destroy (node : Ptr)

inductive Answer where
  | num (r : ℤ)
  | ptr (p : Ptr)
  | void
deriving DecidableEq

/-- a call on memory -/
def memCall (m : Mem) : Call → Option (Answer × Mem)
  | .register ops => (Memory.fsRegister m ops).map fun r => (.num r.1, r.2)
  | .alloc node mode mask => (Memory.fsFdAlloc m node mode mask).map fun r => (.ptr r.1, r.2)
  | .free fd => (Memory.fsFdFree m fd).map fun m => (.void, m)
  | .acquire id => (Memory.fsFdAcquire m id).map fun p => (.ptr p, m)
  | .create parent name nameLen type data fsId =>
    (Memory.fsNodeCreate m parent name nameLen type data fsId).map fun r => (.ptr r.1, r.2)
  | .destroy node => (Memory.fsNodeDestroy m node).map fun r => (.num r.1, r.2)

/-- the call on sequences; pointers lead to the entries at their addresses -/
def seqCall (fs : Fs) : Call → Option (Answer × Fs)
  | .register ops => (some (fsRegister fs ops)).map fun r => (.num r.1, r.2)
  | .alloc node mode mask =>
    (fsFdAlloc fs node mode mask).toOption.map fun r => (.ptr (r.1.map FsFiled.self), r.2)
  | .free fd => ((fdAt fs fd).bind fun f => (fsFdFree fs f).toOption).map fun fs => (.void, fs)
  | .acquire id => some (.ptr ((fsFdAcquire fs id).map FsFiled.self), fs)
  | .create parent name nameLen type data fsId =>
    (fsNodeCreate fs parent name nameLen type data fsId).toOption.map fun r => (.ptr r.1, r.2)
  | .destroy node =>
    (node.bind fun a => (fsNodeDestroy fs a).toOption).map fun r => (.num r.1, r.2)

/-- a state with the answers so far -/
structure Log (σ : Type) where
  answers : List Answer
  state : σ

def logged {σ : Type} (call : σ → Call → Option (Answer × σ)) (t : Log σ) (c : Call) : Option (Log σ) :=
  (call t.state c).map fun r => ⟨t.answers ++ [r.1], r.2⟩

/-- no file systems, nodes and descriptors; what memory holds does not matter -/
def emptyMem (hp : Heap) (links : ListMem) : Mem := ⟨hp, links, none, none, 0, fun _ => none, fun _ => none, fun _ => none⟩

def emptyFs (hp : Heap) : Fs := ⟨hp, [], [], 0, fun _ => none⟩

/-- the caller does not know the address that is handed out next -/
def Known (t : Log Fs) : Call → Prop
  | .create parent _ _ _ _ _ => ∀ p ∈ parent, p < t.state.heap.next
  | .register _ | .alloc _ _ _ | .free _ | .acquire _ | .destroy _ => True

instance decidableKnown (t : Log Fs) : ∀ c, Decidable (Known t c)
  | .create parent _ _ _ _ _ => inferInstanceAs (Decidable (∀ p ∈ parent, p < t.state.heap.next))
  | .register _ | .alloc _ _ _ | .free _ | .acquire _ | .destroy _ => inferInstanceAs (Decidable True)

/-- what the callers promise -/
def Allowed (t : Log Mem) : Call → Prop
  | .register _ | .acquire _ => True
  | .alloc node _ _ => (deref t.state.nodes node).isSome
  | .free fd => (deref t.state.fds fd).isSome
  | .create parent _ nameLen type _ _ => nameLen + 1 < 2 ^ 64 ∧
    if parent = none then type = .dir → t.state.heap.ok (t.state.heap.next + 1) = true
    else (deref t.state.nodes parent).isSome
  | .destroy node => ((deref t.state.nodes node).bind fun n => n.2.parent).isSome

instance decidableAllowed (t : Log Mem) : ∀ c, Decidable (Allowed t c)
  | .register _ | .acquire _ => inferInstanceAs (Decidable True)
  | .alloc node _ _ => inferInstanceAs (Decidable ((deref t.state.nodes node).isSome = true))
  | .free fd => inferInstanceAs (Decidable ((deref t.state.fds fd).isSome = true))
  | .create parent _ nameLen type _ _ => inferInstanceAs (Decidable (nameLen + 1 < 2 ^ 64 ∧ if parent = none then
      type = .dir → t.state.heap.ok (t.state.heap.next + 1) = true else (deref t.state.nodes parent).isSome = true))
  | .destroy node => inferInstanceAs (Decidable (((deref t.state.nodes node).bind fun n => n.2.parent).isSome = true))

/-- is the object on this list -/
def OnList (m : Mem) (k : Key) (a : Addr) : Prop := ∃ xs, Represents ⟨m.head k, m.links⟩ xs ∧ a ∈ xs

/-- a node without parent -/
def Root (m : Mem) (a : Addr) : Prop := ∃ n, m.nodes a = some n ∧ n.parent = none

/-- no object is lost or on two lists, and no pointer dangles -/
structure Sound (m : Mem) : Prop where
  linked : ∀ k, ∃ xs, Represents ⟨m.head k, m.links⟩ xs
  live : ∀ k a, OnList m k a → m.live a = true
  held : ∀ a, m.live a = true → (Root m a ↔ ∀ k, ¬ OnList m k a)
  one : ∀ a k k', OnList m k a → OnList m k' a → k = k'
  parent : ∀ a n p, m.nodes a = some n → n.parent = some p → (m.nodes p).isSome
  node : ∀ a f, m.fds a = some f → (deref m.nodes f.node).isSome

/-! ## Both levels in lockstep -/

/-- the same answers, and the memory holds the state -/
def Same (t : Log Mem) (u : Log Fs) : Prop := t.answers = u.answers ∧ Sim t.state u.state

theorem rel_map {α β γ δ : Type} {R : α → β → Prop} {S : γ → δ → Prop} {f : α → γ} {g : β → δ}
    (hS : ∀ a b, R a b → S (f a) (g b)) {x : Option α} {y : Option β} (h : Option.Rel R x y) :
    Option.Rel S (x.map f) (y.map g) := by
  cases h with
  | some hR => exact .some (hS _ _ hR)
  | none => exact .none

theorem Agree.map {α : Type} {x : Option (α × Mem)} {y : Option (α × Fs)} (h : Agree x y) (f : α → Answer) :
    Agree (x.map fun r => (f r.1, r.2)) (y.map fun r => (f r.1, r.2)) :=
  rel_map (fun _ _ hR => ⟨congrArg f hR.1, hR.2⟩) h

theorem call_agrees {m : Mem} {fs : Fs} (h : Sim m fs) {c : Call} (hk : ∀ as, Known ⟨as, fs⟩ c) :
    Agree (memCall m c) (seqCall fs c) := by
  cases c with
  | register ops => exact Agree.map (register_agrees h ops) .num
  | alloc node mode mask =>
    have hmap := Agree.map (alloc_agrees h node mode mask) .ptr
    rw [Option.map_map] at hmap
    exact hmap
  | free fd =>
    exact rel_map (R := Sim) (S := fun (p : Answer × Mem) (q : Answer × Fs) => p.1 = q.1 ∧ Sim p.2 q.2)
      (fun _ _ hR => ⟨rfl, hR⟩) (free_agrees h fd)
  | acquire id =>
    rw [memCall, seqCall, acquire_agrees h id]
    exact .some ⟨rfl, h⟩
  | create parent name nameLen type data fsId =>
    exact Agree.map (create_agrees h (hk []) name nameLen type data fsId) .ptr
  | destroy node => exact Agree.map (destroy_agrees h node) .num

theorem step_agrees (t : Log Mem) (u : Log Fs) (c : Call) (h : Same t u) (hk : Known u c) :
    Option.Rel Same (logged memCall t c) (logged seqCall u c) := by
  obtain ⟨ha, hs⟩ := h
  have hk' : ∀ as, Known ⟨as, u.state⟩ c := fun as => by
    cases c <;> exact hk
  exact rel_map (fun p q hR => ⟨by rw [ha, hR.1], hR.2⟩) (call_agrees hs hk')

theorem empty_sim (hp : Heap) (links : ListMem) : Sim (emptyMem hp links) (emptyFs hp) where
  heap := rfl
  cnt := rfl
  lists k := by cases k <;> exact ⟨rfl, List.nodup_nil, trivial, trivial⟩
  fss a := rfl
  fds a := rfl
  nodes a := rfl
  apart := by
    refine ⟨Built.tree (Built.start fun _ => rfl), fun k hk a ha => ?_, fun k k' hk _ a ha => ?_, fun k hk a ha => ?_⟩ <;>
      cases k with
      | fs => cases ha
      | fd => cases ha
      | childs n => exact hk.elim

/-- **The layer on memory does what the layer on sequences does**, over every sequence of calls. -/
theorem memory_refines (hp : Heap) (links : ListMem) {calls : List Call}
    (hk : Guarded (logged seqCall) Known ⟨[], emptyFs hp⟩ calls) :
    Option.Rel Same (run (logged memCall) ⟨[], emptyMem hp links⟩ calls)
      (run (logged seqCall) ⟨[], emptyFs hp⟩ calls) :=
  agree_run step_agrees ⟨rfl, empty_sim hp links⟩ hk

/-- every allocation works -/
def sampleHeap : Heap := ⟨fun _ => true, 1⟩

/-- what memory holds before the first call -/
def sampleLinks : ListMem := ⟨fun _ => some 7, fun a => some (a + 1), fun _ _ => 0⟩

/-- a file system with a directory and a node in it; the node is opened, found, closed and destroyed -/
def sampleCalls : List Call :=
  [.register (some ⟨true, true⟩), .create none (str "dir") 3 .dir none 0, .create (some 2) (str "n") 1 .reg none 0,
    .alloc (some 4) oRdwr 0, .acquire 1, .destroy (some 4), .free (some 5), .destroy (some 4), .acquire 1]

theorem memory_refines_sample : Option.Rel Same
    (run (logged memCall) ⟨[], emptyMem sampleHeap sampleLinks⟩ sampleCalls)
    (run (logged seqCall) ⟨[], emptyFs sampleHeap⟩ sampleCalls) :=
  memory_refines sampleHeap sampleLinks (by decide +kernel)

/-! ## Allowed calls -/

theorem onList_iff {m : Mem} {fs : Fs} (h : Sim m fs) {k : Key} {a : Addr} : OnList m k a ↔ a ∈ elems fs k := by
  have hk := h.lists k
  refine ⟨fun ⟨xs, hx, ha⟩ => ?_, fun ha => ⟨_, hk, ha⟩⟩
  have he : xs = elems fs k := hx.links.next.unique hk.links.next (hx.head.symm.trans hk.head)
  exact he ▸ ha

theorem root_iff {m : Mem} {fs : Fs} (h : Sim m fs) {a : Addr} :
    Root m a ↔ ∃ nd, fs.nodes a = some nd ∧ nd.parent = none := by
  rw [Root, h.nodes]
  cases fs.nodes a <;> simp [nodeRec]

/-- an object that was not freed is on a list, or a node -/
theorem live_cases {m : Mem} {fs : Fs} (h : Sim m fs) {a : Addr} (ha : m.live a = true) :
    (∃ k : Key, a ∈ elems fs k ∧ k.Flat) ∨ ∃ nd, fs.nodes a = some nd := by
  rw [Mem.live, h.fss, h.fds, h.nodes] at ha
  simp only [Option.isSome_map, Bool.or_eq_true, List.find?_isSome, decide_eq_true_eq] at ha
  rcases ha with (⟨f, hf, rfl⟩ | ⟨f, hf, rfl⟩) | hn
  · exact Or.inl ⟨.fs, List.mem_map_of_mem hf, trivial⟩
  · exact Or.inl ⟨.fd, List.mem_map_of_mem hf, trivial⟩
  · exact Or.inr (Option.isSome_iff_exists.1 hn)

theorem sim_sound {m : Mem} {fs : Fs} (h : Sim m fs)
    (hlive : ∀ fd ∈ fs.fdLst, ∃ nd, fs.nodes fd.node = some nd) : Sound m where
  linked k := ⟨_, h.lists k⟩
  live k a ha := h.live k a ((onList_iff h).1 ha)
  held a ha := by
    simp only [root_iff h, onList_iff h]
    constructor
    · rintro ⟨nd, hn, hp⟩ k hk
      cases k with
      | childs p =>
        obtain ⟨bn, hb, hbp⟩ := h.apart.child hk
        rw [hn] at hb
        cases hb
        rw [hp] at hbp
        cases hbp
      | fs =>
        rw [h.apart.flatNode .fs trivial a hk] at hn
        cases hn
      | fd =>
        rw [h.apart.flatNode .fd trivial a hk] at hn
        cases hn
    · intro hk
      obtain ⟨k, hm, _⟩ | ⟨nd, hn⟩ := live_cases h ha
      · exact absurd hm (hk k)
      · refine ⟨nd, hn, Option.eq_none_iff_forall_not_mem.2 fun p hp => hk (.childs p) ?_⟩
        obtain ⟨pn, hpn, hm⟩ := h.apart.tree.up a nd p hn hp
        exact (elems_childs hpn).symm ▸ hm
  one a k k' ha ha' := h.apart.one ((onList_iff h).1 ha) ((onList_iff h).1 ha')
  parent a n p hn hp := by
    rw [h.nodes, Option.map_eq_some_iff] at hn
    obtain ⟨nd, hnd, rfl⟩ := hn
    obtain ⟨pn, hpn, _⟩ := h.apart.tree.up a nd p hnd hp
    rw [h.nodes, hpn]
    rfl
  node a f hf := by
    rw [h.fds, Option.map_eq_some_iff] at hf
    obtain ⟨fd, hfd, rfl⟩ := hf
    obtain ⟨nd, hn⟩ := hlive fd (List.mem_of_find?_eq_some hfd)
    rw [h.deref_node, fdRec, Option.bind_some, hn]
    rfl

/-- registering a file system leaves nodes and descriptors alone -/
theorem register_inv {fs : Fs} {given : List FsFiled} {freed : List ℤ} (h : DescriptorTable.Inv ⟨fs, given, freed⟩)
    (ops : Option FsOps) : DescriptorTable.Inv ⟨(fsRegister fs ops).2, given, freed⟩ := by
  have hadd : ∃ k l, (fsRegister fs ops).2 = { fs with heap := ⟨fs.heap.ok, fs.heap.next + k⟩, fsLst := l } := by
    unfold fsRegister
    dsimp only
    split_ifs
    · exact ⟨0, _, rfl⟩
    · cases ops with
      | none => exact ⟨0, _, rfl⟩
      | some ops =>
        dsimp only
        split_ifs
        · exact ⟨0, _, rfl⟩
        · split
          · rename_i hm
            obtain ⟨_, rfl⟩ := malloc_none hm
            exact ⟨1, _, rfl⟩
          · rename_i hm
            obtain ⟨_, _, rfl⟩ := malloc_some hm
            exact ⟨1, _, rfl⟩
  obtain ⟨k, l, he⟩ := hadd
  rw [he]
  exact ⟨h.tree.congr (Nat.le_add_right _ k) rfl, h.start, h.table, h.ids, h.idsNodup,
    fun fd hfd => (h.selfs fd hfd).trans_le (Nat.le_add_right _ k), h.selfsNodup, h.freed, h.live, h.count⟩

/-- the sequences stand for the memory, and the invariant of the layer holds of them -/
def Backed (m : Mem) : Prop := ∃ fs given freed, Sim m fs ∧ DescriptorTable.Inv ⟨fs, given, freed⟩

theorem Backed.sound {m : Mem} : Backed m → Sound m := fun ⟨_, _, _, h, hi⟩ => sim_sound h hi.live

/-- a pointer to a node that exists -/
theorem deref_isSome {m : Mem} {fs : Fs} (h : Sim m fs) {p : Ptr} (hp : (deref m.nodes p).isSome = true) :
    ∃ a nd, p = some a ∧ fs.nodes a = some nd ∧ deref m.nodes p = some (a, nodeRec nd (m.head (.childs a))) := by
  have hd := h.deref_node p
  rw [hd] at hp
  cases p with
  | none => cases hp
  | some a =>
    rw [Option.bind_some] at hp hd
    cases hn : fs.nodes a with
    | none =>
      rw [hn] at hp
      cases hp
    | some nd =>
      rw [hn] at hd
      exact ⟨a, nd, rfl, hn, hd⟩

theorem Agree.backed {α : Type} {x : Option (α × Mem)} {r : α} {fs' : Fs} {given : List FsFiled} {freed : List ℤ}
    (h : Agree x (some (r, fs'))) (hi : DescriptorTable.Inv ⟨fs', given, freed⟩) :
    ∃ r m', x = some (r, m') ∧ Backed m' := by
  obtain ⟨m', hx, hs⟩ := h.ok
  exact ⟨r, m', hx, fs', given, freed, hs, hi⟩

/-- an allowed call comes back and leaves no pointer dangling -/
theorem call_safe {m : Mem} (h : Backed m) {c : Call} {as : List Answer} (ha : Allowed ⟨as, m⟩ c) :
    ∃ r m', memCall m c = some (r, m') ∧ Backed m' := by
  obtain ⟨fs, given, freed, hs, hi⟩ := h
  have hmap : ∀ {α β : Type} {x : Option (α × Mem)} (f : α → β), (∃ r m', x = some (r, m') ∧ Backed m') →
      ∃ r m', x.map (fun r => (f r.1, r.2)) = some (r, m') ∧ Backed m' := by
    rintro α β x f ⟨r, m', rfl, hb⟩
    exact ⟨f r, m', rfl, hb⟩
  cases c with
  | register ops => exact hmap Answer.num (Agree.backed (register_agrees hs ops) (register_inv hi ops))
  | alloc node mode mask =>
    obtain ⟨n, nd, rfl, hn, _⟩ := deref_isSome hs ha
    obtain ⟨r, fs', hr, _, hi'⟩ := DescriptorTable.alloc_inv hi hn mode mask
    have hagree := alloc_agrees hs (some n) mode mask
    rw [hr] at hagree
    exact hmap Answer.ptr (Agree.backed hagree hi')
  | free fd =>
    have hfd : (deref m.fds fd).isSome = true := ha
    rw [deref_fd hs, Option.isSome_map] at hfd
    obtain ⟨f, hf⟩ := Option.isSome_iff_exists.1 hfd
    have hmem : f ∈ fs.fdLst := by
      obtain ⟨a, _, hfind⟩ := Option.bind_eq_some_iff.1 hf
      exact List.mem_of_find?_eq_some hfind
    obtain ⟨fs', hr, _, hi'⟩ := DescriptorTable.free_inv hi hmem
    have hagree := free_agrees hs fd
    rw [hf, Option.bind_some, hr] at hagree
    generalize hx : Memory.fsFdFree m fd = x at hagree
    cases hagree with
    | @some m' _ hs' => exact ⟨.void, m', by rw [memCall, hx]; rfl, fs', given, _, hs', hi'⟩
  | acquire id => exact ⟨_, m, by rw [memCall, acquire_agrees hs]; rfl, fs, given, freed, hs, hi⟩
  | create parent name nameLen type data fsId =>
    have hc : CreateOk fs parent nameLen type := by
      have hcall : nameLen + 1 < 2 ^ 64 ∧ if parent = none then type = .dir → m.heap.ok (m.heap.next + 1) = true
          else (deref m.nodes parent).isSome = true := ha
      obtain ⟨hlen, hcall⟩ := hcall
      cases parent with
      | none =>
        rw [if_pos rfl, hs.heap] at hcall
        exact ⟨parentOk_none fs, hlen, fun _ => hcall⟩
      | some p =>
        obtain ⟨a, nd, he, hn, _⟩ := deref_isSome hs hcall
        cases he
        exact ⟨parentOk_some hn, hlen, nofun⟩
    obtain ⟨r, fs', hr, ht, he⟩ := fsNodeCreate_spec hi.tree hc name data fsId
    have hp : ∀ p, parent = some p → p < fs.heap.next := fun p hp => by
      obtain ⟨pn, hpn⟩ := hc.here p hp
      exact hi.tree.fresh p pn hpn
    have hagree := create_agrees hs hp name nameLen type data fsId
    rw [hr] at hagree
    exact hmap Answer.ptr (Agree.backed hagree (DescriptorTable.edited_inv hi ht he))
  | destroy node =>
    obtain ⟨p, hp⟩ := Option.isSome_iff_exists.1 (show ((deref m.nodes node).bind fun n => n.2.parent).isSome = true from ha)
    obtain ⟨n, hn, hnp⟩ := Option.bind_eq_some_iff.1 hp
    obtain ⟨a, nd, rfl, hnd, hd⟩ := deref_isSome hs (Option.isSome_iff_exists.2 ⟨n, hn⟩)
    rw [hd] at hn
    cases hn
    obtain ⟨r, fs', hr, ht, hpr, _⟩ := fsNodeDestroy_spec hi.tree hnd hnp
    have hagree := destroy_agrees hs (some a)
    rw [Option.bind_some, hr] at hagree
    exact hmap Answer.num (Agree.backed hagree (DescriptorTable.edited_inv hi ht hpr.edited))

theorem step_safe (t : Log Mem) (c : Call) (h : Backed t.state) (ha : Allowed t c) :
    ∃ t', logged memCall t c = some t' ∧ Backed t'.state := by
  obtain ⟨r, m', hr, hb⟩ := call_safe h ha
  exact ⟨⟨t.answers ++ [r], m'⟩, by rw [logged, hr]; rfl, hb⟩

/-- **The layer is safe on memory.** Every sequence of allowed calls comes back, and leaves memory without lost
objects and without pointers to what was freed. -/
theorem memory_safe (hp : Heap) (links : ListMem) {calls : List Call}
    (hg : Guarded (logged memCall) Allowed ⟨[], emptyMem hp links⟩ calls) :
    ∃ t, run (logged memCall) ⟨[], emptyMem hp links⟩ calls = some t ∧ Sound t.state := by
  have hstart : Backed (emptyMem hp links) :=
    ⟨emptyFs hp, [], [], empty_sim hp links, DescriptorTable.unused_inv ⟨rfl, rfl, fun _ => rfl⟩⟩
  obtain ⟨t, ht, hb⟩ := total_run step_safe hstart hg
  exact ⟨t, ht, hb.sound⟩

theorem memory_safe_sample : ∃ t, run (logged memCall) ⟨[], emptyMem sampleHeap sampleLinks⟩ sampleCalls = some t ∧
    Sound t.state := memory_safe sampleHeap sampleLinks (by decide +kernel)

end EspHostdriver.MemorySafety
