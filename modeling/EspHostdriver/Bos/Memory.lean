/-
`bos/fs.c` on memory: file systems, nodes and descriptors as objects that are linked through their `prev` and `next`,
allocated and freed.

`Bos.Fs` has the lists of the layer as sequences and the nodes in a table. Here a list is a pointer to its first element:
`fs_lst` and `fd_lst` are variables, `childs` is a field of the parent. An object may be accessed from its `malloc` to its
`free`; any other access, and any null pointer that is followed, ends the call (`none`). Loops and the recursion of
`fs_node_destroy` run on fuel, one unit for each allocation so far and one to spare.

- `Sim`: the memory holds the state of `Bos.Fs`. Each list is linked in the order of its sequence, there are no other
  live objects than its elements and the nodes, and no two lists share one.
- `register_agrees`, `alloc_agrees`, `free_agrees`, `acquire_agrees`, `create_agrees`, `destroy_agrees`: each function
  ends exactly where the one on sequences does, with the same result and in a state that corresponds.
-/
import EspHostdriver.Bos.Creation
import EspHostdriver.Sys.Checked

namespace EspHostdriver.Memory

open Checked

/-! ## Model -/

/-- `fs_t` without its links -/
structure FsRec where
  id : ℤ
  ops : FsOps
deriving DecidableEq

/-- `fs_filed_t` without its links -/
structure FdRec where
  id : ℤ
  fp : ℕ
  node : Ptr
  mode : UInt32
  modeMask : UInt32
deriving DecidableEq

/-- `fs_node_t` without its links; `childs` points to the first child -/
structure NodeRec where
  fsId : ℤ
  ops : Addr
  data : Option Addr
  refCnt : ℕ
  type : FileType
  childs : Ptr
  parent : Ptr
  name : Bytes
deriving DecidableEq

/-- the links of all objects, the variables of `fs.c`, and what else is in the objects that were not freed -/
structure Mem where
  heap : Heap
  links : ListMem
  fsLst : Ptr
  fdLst : Ptr
  fdCnt : ℤ
  fss : Table FsRec
  fds : Table FdRec
  nodes : Table NodeRec

/-- is there an object at this address -/
def Mem.live (m : Mem) (a : Addr) : Bool := (m.fss a).isSome || (m.fds a).isSome || (m.nodes a).isSome

/-- the object a pointer leads to -/
def deref {α : Type} (t : Table α) (p : Ptr) : Option (Addr × α) := p.bind fun a => (t a).map fun x => (a, x)

/-- the id that `fs_register` gives away next: `list_last(fs_lst)->id + 1` -/
def nextId (m : Mem) : Option ℤ :=
  if m.fsLst = none then some 0
  else do
    let last ← m.links.getPrev (m.fsLst.filter m.live)
    let f ← deref m.fss last
    some (toInt32 (f.2.id + 1))

def fsRegister (m : Mem) (ops : Option FsOps) : Option (ℤ × Mem) := do
  let id ← nextId m
  if id < 0 then some (-1, m)
  else match ops with
    | none => some (-1, m)
    | some ops =>
      if !ops.opens || !ops.closes then some (-1, m)
      else match m.heap.malloc with
        | (none, h) => some (-1, { m with heap := h })
        | (some a, h) => do
          let m := { m with heap := h, fss := m.fss.set a ⟨id, ops⟩ }
          let s ← addTail m.live ⟨m.fsLst, m.links⟩ (some a)
          some (id, { m with fsLst := s.head, links := s.mem })

def fsFdAlloc (m : Mem) (node : Ptr) (mode modeMask : UInt32) : Option (Ptr × Mem) :=
  let id := m.fdCnt + 1
  match m.heap.malloc with
  | (none, h) => some (none, { m with heap := h, fdCnt := id })
  | (some a, h) => do
    let fd : FdRec := ⟨id, 0, node, (mode &&& ~~~modeMask) ||| (fmodeDefault &&& modeMask), modeMask⟩
    let m := { m with heap := h, fdCnt := id, fds := m.fds.set a fd }
    let s ← addTail m.live ⟨m.fdLst, m.links⟩ (some a)
    let m := { m with fdLst := s.head, links := s.mem }
    let n ← deref m.nodes node
    some (some a, { m with nodes := m.nodes.set n.1 { n.2 with refCnt := n.2.refCnt + 1 } })

def fsFdFree (m : Mem) (fd : Ptr) : Option Mem := do
  let s ← ForEach.listRm m.live ⟨m.fdLst, m.links⟩ fd
  let m := { m with fdLst := s.head, links := s.mem }
  let f ← deref m.fds fd
  let n ← deref m.nodes f.2.node
  let m := { m with nodes := m.nodes.set n.1 { n.2 with refCnt := n.2.refCnt - 1 } }
  some { m with fds := m.fds.free f.1 }

/-- rounds enough for any loop and levels enough for any tree -/
def Mem.fuel (m : Mem) : ℕ := m.heap.next + 1

def fsFdAcquire (m : Mem) (id : ℤ) : Option Ptr :=
  find m.live m.links (fun a => (m.fds a).map fun f => decide (f.id = id)) m.fuel m.fdLst

/-- `fs_node_create` up to the links of a directory -/
def fsNodeMake (m : Mem) (parent : Ptr) (name : Bytes) (nameLen : ℕ) (type : FileType) (data : Option Addr)
    (fsId : ℤ) : Option (Ptr × Mem) :=
  if 32 < sizeT (nameLen + 1) then some (none, m)
  else do
    let fs ← find m.live m.links (fun a => (m.fss a).map fun f => decide (f.id = fsId)) m.fuel m.fsLst
    match fs with
    | none => some (none, m)
    | some f =>
      match m.heap.malloc with
      | (none, h) => some (none, { m with heap := h })
      | (some a, h) =>
        -- the length SIZE_MAX passes the check; `strncpy` pads to it, and the block has no room for a name
        if sizeT (nameLen + 1) < nameLen + 1 then none
        else
          let node : NodeRec := ⟨fsId, f, data, 0, type, none, parent, (cstr name).take nameLen⟩
          let m := { m with heap := h, nodes := m.nodes.set a node }
          if parent = none then some (some a, m)
          else do
            let p ← deref m.nodes parent
            let s ← addTail m.live ⟨p.2.childs, m.links⟩ (some a)
            some (some a, { m with links := s.mem, nodes := m.nodes.set p.1 { p.2 with childs := s.head } })

/-- the loop of `fs_node_destroy` over the children: go on while they are destroyed -/
def destroyLoop (destroy : Mem → Ptr → Option (ℤ × Mem)) : ℕ → Ptr → Ptr → Mem → Option (ℤ × Mem)
  | 0, _, _, _ => none
  | fuel + 1, child, next, m =>
    if child = none then some (0, m)
    else do
      let r ← destroy m child
      if r.1 ≠ 0 then some (-1, r.2)
      else do
        let after ← readAhead r.2.live r.2.links next
        destroyLoop destroy fuel next after r.2

/-- the end of `fs_node_destroy` -/
def unlink (m : Mem) (node : Ptr) : Option Mem := do
  let n ← deref m.nodes node
  let p ← deref m.nodes n.2.parent
  let s ← ForEach.listRm m.live ⟨p.2.childs, m.links⟩ node
  let m := { m with links := s.mem, nodes := m.nodes.set p.1 { p.2 with childs := s.head } }
  some { m with nodes := m.nodes.free n.1 }

def fsNodeDestroyAux : ℕ → Mem → Ptr → Option (ℤ × Mem)
  | 0, _, _ => none
  | depth + 1, m, node => do
    let n ← deref m.nodes node
    if 0 < n.2.refCnt then some (-1, m)
    else do
      let next ← readAhead m.live m.links n.2.childs
      let r ← destroyLoop (fsNodeDestroyAux depth) m.fuel n.2.childs next m
      if r.1 ≠ 0 then some (-1, r.2)
      else do
        let m ← unlink r.2 node
        some (0, m)

def fsNodeDestroy (m : Mem) (node : Ptr) : Option (ℤ × Mem) := fsNodeDestroyAux m.fuel m node

/-- the way out of `fs_node_create` when a link could not be created -/
def fsNodeUndo (m : Mem) (node : Ptr) : Option (Ptr × Mem) := (fsNodeDestroy m node).map fun r => (none, r.2)

def fsNodeCreate (m : Mem) (parent : Ptr) (name : Bytes) (nameLen : ℕ) (type : FileType) (data : Option Addr)
    (fsId : ℤ) : Option (Ptr × Mem) := do
  let r ← fsNodeMake m parent name nameLen type data fsId
  if r.1 = none ∨ type ≠ .dir then some r
  else do
    let dot ← fsNodeMake r.2 r.1 (str ".") 1 .lnk r.1 fsId
    if dot.1 = none then fsNodeUndo dot.2 r.1
    else if parent = none then some (r.1, dot.2)
    else do
      let p ← deref dot.2.nodes parent
      let up ← fsNodeMake dot.2 r.1 (str "..") 2 .lnk parent p.2.fsId
      if up.1 = none then fsNodeUndo up.2 r.1 else some (r.1, up.2)

/-! ## The lists in memory -/

/-- the lists: file systems, descriptors, the children of a node -/
inductive Key where
  | fs
  | fd
  | childs (n : Addr)
deriving DecidableEq

/-- the pointer to the first element -/
def Mem.head (m : Mem) : Key → Ptr
  | .fs => m.fsLst
  | .fd => m.fdLst
  | .childs n => (m.nodes n).bind NodeRec.childs

/-- the sequence it stands for; an address without a node has no children -/
def elems (fs : Fs) : Key → List Addr
  | .fs => fs.fsLst.map FsT.self
  | .fd => fs.fdLst.map FsFiled.self
  | .childs n => ((fs.nodes n).map FsNode.childs).getD []

def fsRec (f : FsT) : FsRec := ⟨f.id, f.ops⟩

def fdRec (f : FsFiled) : FdRec := ⟨f.id, f.fp, some f.node, f.mode, f.modeMask⟩

def nodeRec (nd : FsNode) (childs : Ptr) : NodeRec :=
  ⟨nd.fsId, nd.ops, nd.data, nd.refCnt, nd.type, childs, nd.parent, nd.name⟩

/-- a list that is not one of children -/
def Key.Flat : Key → Prop
  | .childs _ => False
  | .fs | .fd => True

/-- an address is that of a file system, of a descriptor or of a node -/
structure Apart (fs : Fs) : Prop where
  tree : Tree fs
  flatLt : ∀ k : Key, k.Flat → ∀ a ∈ elems fs k, a < fs.heap.next
  flatOne : ∀ k k' : Key, k.Flat → k'.Flat → ∀ a ∈ elems fs k, a ∈ elems fs k' → k = k'
  flatNode : ∀ k : Key, k.Flat → ∀ a ∈ elems fs k, fs.nodes a = none

/-- the memory holds this state -/
structure Sim (m : Mem) (fs : Fs) : Prop where
  heap : m.heap = fs.heap
  cnt : m.fdCnt = fs.fdCnt
  lists : ∀ k, Represents ⟨m.head k, m.links⟩ (elems fs k)
  fss : ∀ a, m.fss a = (fs.fsLst.find? fun f => f.self = a).map fsRec
  fds : ∀ a, m.fds a = (fs.fdLst.find? fun f => f.self = a).map fdRec
  nodes : ∀ a, m.nodes a = (fs.nodes a).map fun nd => nodeRec nd (m.head (.childs a))
  apart : Apart fs

/-! ## No two lists share an element -/

variable {m m' : Mem} {fs fs' : Fs} {a b p : Addr} {nd pn : FsNode} {k k' : Key}

theorem elems_childs (ha : fs.nodes a = some nd) : elems fs (.childs a) = nd.childs := by simp [elems, ha]

theorem elems_dead (ha : fs.nodes a = none) : elems fs (.childs a) = [] := by simp [elems, ha]

theorem mem_childs (h : b ∈ elems fs (.childs a)) : ∃ nd, fs.nodes a = some nd ∧ b ∈ nd.childs := by
  cases ha : fs.nodes a with
  | none =>
    rw [elems_dead ha] at h
    cases h
  | some nd => exact ⟨nd, rfl, elems_childs ha ▸ h⟩

namespace Apart

/-- a child is a node -/
theorem child (h : Apart fs) (hb : b ∈ elems fs (.childs a)) : ∃ bn, fs.nodes b = some bn ∧ bn.parent = some a := by
  obtain ⟨nd, ha, hm⟩ := mem_childs hb
  exact (h.tree.down a nd b ha hm).2

theorem lt (h : Apart fs) (ha : a ∈ elems fs k) : a < fs.heap.next := by
  cases k with
  | fs => exact h.flatLt .fs trivial a ha
  | fd => exact h.flatLt .fd trivial a ha
  | childs n =>
    obtain ⟨bn, hb, _⟩ := h.child ha
    exact h.tree.fresh a bn hb

/-- the address that is handed out next is new to every list -/
theorem next_notMem (h : Apart fs) (k : Key) : fs.heap.next ∉ elems fs k := fun hm => lt_irrefl _ (h.lt hm)

theorem one (h : Apart fs) (hk : a ∈ elems fs k) (hk' : a ∈ elems fs k') : k = k' := by
  have hflat : ∀ j n, Key.Flat j → a ∈ elems fs j → a ∉ elems fs (.childs n) := by
    intro j n hj hm hn
    obtain ⟨bn, hb, _⟩ := h.child hn
    rw [h.flatNode j hj a hm] at hb
    cases hb
  cases k with
  | childs n =>
    cases k' with
    | childs n' =>
      obtain ⟨bn, hb, hp⟩ := h.child hk
      obtain ⟨bn', hb', hp'⟩ := h.child hk'
      rw [hb] at hb'
      cases hb'
      rw [hp] at hp'
      rw [Option.some.inj hp']
    | fs => exact absurd hk (hflat .fs n trivial hk')
    | fd => exact absurd hk (hflat .fd n trivial hk')
  | fs =>
    cases k' with
    | childs n => exact absurd hk' (hflat .fs n trivial hk)
    | fs => rfl
    | fd => exact h.flatOne .fs .fd trivial trivial a hk hk'
  | fd =>
    cases k' with
    | childs n => exact absurd hk' (hflat .fd n trivial hk)
    | fs => exact h.flatOne .fd .fs trivial trivial a hk hk'
    | fd => rfl

/-- the flat lists have lost elements at most, and so have the nodes -/
theorem shrink (h : Apart fs) (ht : Tree fs') (hn : fs.heap.next ≤ fs'.heap.next)
    (hsub : ∀ k : Key, k.Flat → elems fs' k ⊆ elems fs k) (hnodes : ∀ a, fs.nodes a = none → fs'.nodes a = none) :
    Apart fs' where
  tree := ht
  flatLt k hk a ha := lt_of_lt_of_le (h.flatLt k hk a (hsub k hk ha)) hn
  flatOne k k' hk hk' a ha ha' := h.flatOne k k' hk hk' a (hsub k hk ha) (hsub k' hk' ha')
  flatNode k hk a ha := hnodes a (h.flatNode k hk a (hsub k hk ha))

/-- a flat list has got the next address as a new element -/
theorem append (h : Apart fs) (hnext : fs'.heap.next = fs.heap.next + 1) (hnodes : fs'.nodes = fs.nodes)
    (hnew : elems fs' k = elems fs k ++ [fs.heap.next]) (hold : ∀ k', k' ≠ k → elems fs' k' = elems fs k') :
    Apart fs' := by
  have hmem : ∀ j a, a ∈ elems fs' j → a ∈ elems fs j ∨ j = k ∧ a = fs.heap.next := by
    intro j a ha
    by_cases hj : j = k
    · rw [hj, hnew, List.mem_append, List.mem_singleton] at ha
      rw [hj]
      exact ha.imp_right fun he => ⟨rfl, he⟩
    · exact Or.inl (hold j hj ▸ ha)
  refine ⟨h.tree.congr (by omega) hnodes, fun j hj a ha => ?_, fun j j' hj hj' a ha ha' => ?_, fun j hj a ha => ?_⟩
  · rw [hnext]
    rcases hmem j a ha with ha | ⟨_, rfl⟩
    · exact Nat.lt_succ_of_lt (h.flatLt j hj a ha)
    · exact Nat.lt_succ_self _
  · rcases hmem j a ha with hm | ⟨hjk, rfl⟩ <;> rcases hmem j' _ ha' with hm' | ⟨hjk', he⟩
    · exact h.flatOne j j' hj hj' a hm hm'
    · exact absurd (he ▸ hm) (h.next_notMem j)
    · exact absurd hm' (h.next_notMem j')
    · rw [hjk, hjk']
  · rw [hnodes]
    rcases hmem j a ha with ha | ⟨_, rfl⟩
    · exact h.flatNode j hj a ha
    · exact h.tree.fresh_none le_rfl

end Apart

namespace Sim

theorem live_fs (h : Sim m fs) (ha : a ∈ elems fs .fs) : m.live a = true := by
  obtain ⟨f, hf, rfl⟩ := List.mem_map.1 ha
  have hs : (fs.fsLst.find? fun g => g.self = f.self).isSome := List.find?_isSome.2 ⟨f, hf, by simp⟩
  simp [Mem.live, h.fss, hs]

theorem live_fd (h : Sim m fs) (ha : a ∈ elems fs .fd) : m.live a = true := by
  obtain ⟨f, hf, rfl⟩ := List.mem_map.1 ha
  have hs : (fs.fdLst.find? fun g => g.self = f.self).isSome := List.find?_isSome.2 ⟨f, hf, by simp⟩
  simp [Mem.live, h.fds, hs]

theorem live_node (h : Sim m fs) (ha : fs.nodes a = some nd) : m.live a = true := by
  simp [Mem.live, h.nodes, ha]

/-- the elements of every list may be accessed -/
theorem live (h : Sim m fs) (k : Key) : ∀ a ∈ elems fs k, m.live a = true := by
  intro a ha
  cases k with
  | fs => exact h.live_fs ha
  | fd => exact h.live_fd ha
  | childs n =>
    obtain ⟨bn, hb, _⟩ := h.apart.child ha
    exact h.live_node hb

/-- a list is shorter than the number of allocations -/
theorem length_lt (h : Sim m fs) (k : Key) : (elems fs k).length < m.fuel := by
  have hnodup : (elems fs k).Nodup := (h.lists k).links.nodup
  have hsub : elems fs k ⊆ List.range fs.heap.next := fun a ha => List.mem_range.2 (h.apart.lt ha)
  have hle := (List.subperm_of_subset hnodup hsub).length_le
  rw [List.length_range] at hle
  rw [Mem.fuel, h.heap]
  omega

theorem deref_node (h : Sim m fs) (p : Ptr) : deref m.nodes p =
    (p.bind fun a => (fs.nodes a).map fun nd => (a, nodeRec nd (m.head (.childs a)))) := by
  cases p with
  | none => rfl
  | some a =>
    rw [deref, Option.bind_some, Option.bind_some, h.nodes, Option.map_map]
    rfl

/-- an operation on list `k` that is about its elements and one more object leaves the other lists alone -/
theorem relist {s : List2} {el : Addr} (h : Sim m fs) (k : Key) (hs : Represents s (elems fs' k))
    (hsame : ∀ c, c ∉ elems fs k → c ≠ el → SameLinks ⟨m.head k, m.links⟩ s c)
    (hel : ∀ k', k' ≠ k → el ∉ elems fs k') (hlinks : m'.links = s.mem) (hhead : m'.head k = s.head)
    (hheads : ∀ k', k' ≠ k → m'.head k' = m.head k' ∧ elems fs' k' = elems fs k') (k' : Key) :
    Represents ⟨m'.head k', m'.links⟩ (elems fs' k') := by
  by_cases hk : k' = k
  · rw [hk, hlinks, hhead]
    exact hs
  · obtain ⟨hh, he⟩ := hheads k' hk
    rw [hlinks, hh, he]
    refine Represents.frame (s := ⟨m.head k, m.links⟩) (h.lists k') hsame fun a ha => ⟨fun hm => ?_, ?_⟩
    · exact hk (h.apart.one ha hm)
    · rintro rfl
      exact hel k' hk ha

end Sim

/-! ## The calls on the lists of file systems and descriptors -/

/-- the two levels agree on a call: neither comes to an end, or both do, with one result and in states that correspond -/
def Agree {α : Type} (x : Option (α × Mem)) (y : Option (α × Fs)) : Prop :=
  Option.Rel (fun p q => p.1 = q.1 ∧ Sim p.2 q.2) x y

theorem Agree.ok {α : Type} {x : Option (α × Mem)} {r : α} (h : Agree x (some (r, fs))) :
    ∃ m, x = some (r, m) ∧ Sim m fs := by
  cases h with
  | @some p _ hrel =>
    obtain ⟨hr, hs⟩ := hrel
    exact ⟨p.2, congrArg some (Prod.ext hr rfl), hs⟩

theorem Agree.stuck {α : Type} {x : Option (α × Mem)} (h : Agree x none) : x = none := by
  cases h
  rfl

/-- the entry of a list is found by its address -/
theorem find_self {β : Type} {f : β → Addr} {l : List β} (hn : (l.map f).Nodup) {x : β} (hx : x ∈ l) :
    l.find? (fun y => f y = f x) = some x := by
  have hsome : (l.find? fun y => f y = f x).isSome := List.find?_isSome.2 ⟨x, hx, by simp⟩
  obtain ⟨y, hy⟩ := Option.isSome_iff_exists.1 hsome
  have hm := List.mem_of_find?_eq_some hy
  have he : f y = f x := by simpa using List.find?_some hy
  rw [hy, List.inj_on_of_nodup_map hn hm hx he]

theorem find_none {β : Type} {f : β → Addr} {l : List β} (ha : a ∉ l.map f) : l.find? (fun y => f y = a) = none := by
  apply List.find?_eq_none.2
  intro y hy he
  exact ha (List.mem_map.2 ⟨y, hy, of_decide_eq_true he⟩)

theorem find_map {β : Type} {f : β → Addr} {l : List β} {t : Addr → Bool} {q : β → Bool}
    (ht : ∀ x ∈ l, t (f x) = q x) : (l.map f).find? t = (l.find? q).map f := by
  rw [List.find?_map]
  exact congrArg _ (List.find?_congr fun x hx => ht x hx)

/-- the id that `fs_register` gives away -/
def idAfter (fs : Fs) : ℤ := (fs.fsLst.getLast?.map fun f => toInt32 (f.id + 1)).getD 0

theorem nextId_eq (h : Sim m fs) : nextId m = some (idAfter fs) := by
  have hl : Represents ⟨m.fsLst, m.links⟩ (elems fs .fs) := h.lists .fs
  have hlast := listLast_spec hl
  have hempty : m.fsLst = (fs.fsLst.map FsT.self).head? := hl.head
  cases hf : fs.fsLst.getLast? with
  | none =>
    rw [List.getLast?_eq_none_iff.1 hf] at hempty
    simp only [nextId, hempty, List.map_nil, List.head?_nil, if_true, idAfter, hf, Option.map_none, Option.getD_none]
  | some f =>
    have hm : f ∈ fs.fsLst := List.mem_of_getLast? hf
    have hne : m.fsLst ≠ none := by
      rw [hempty]
      intro h0
      rw [List.map_eq_nil_iff.1 (List.head?_eq_none_iff.1 h0)] at hm
      cases hm
    have hhead : m.fsLst.filter m.live = m.fsLst :=
      ForEach.filter_valid fun x hx => h.live .fs x (List.mem_of_head? (hl.head ▸ hx))
    have hprev : m.links.getPrev m.fsLst = some (some f.self) := by
      rw [listLast, if_pos hne] at hlast
      rw [hlast, elems, List.getLast?_map, hf, Option.map_some]
    have hrec : deref m.fss (some f.self) = some (f.self, fsRec f) := by
      rw [deref, Option.bind_some, h.fss, find_self hl.links.nodup hm, Option.map_some, Option.map_some]
    simp only [nextId, hne, if_false, hhead, hprev, bind, Option.bind_some, hrec, fsRec, idAfter, hf, Option.map_some,
      Option.getD_some]

theorem fsRegister_eq (fs : Fs) (ops : Option FsOps) : EspHostdriver.fsRegister fs ops =
    if idAfter fs < 0 then (-1, fs)
    else match ops with
      | none => (-1, fs)
      | some ops =>
        if !ops.opens || !ops.closes then (-1, fs)
        else match fs.heap.malloc with
          | (none, h) => (-1, { fs with heap := h })
          | (some a, h) => (idAfter fs, { fs with heap := h, fsLst := fs.fsLst ++ [⟨a, idAfter fs, ops⟩] }) := by
  unfold EspHostdriver.fsRegister idAfter
  cases fs.fsLst.getLast? <;> rfl

/-- memory is short -/
theorem Sim.skip (h : Sim m fs) (n : ℕ) (cnt : ℤ) :
    Sim { m with heap := { fs.heap with next := fs.heap.next + n }, fdCnt := cnt }
      { fs with heap := { fs.heap with next := fs.heap.next + n }, fdCnt := cnt } where
  heap := rfl
  cnt := rfl
  lists := h.lists
  fss := h.fss
  fds := h.fds
  nodes := h.nodes
  apart := h.apart.shrink (h.apart.tree.congr (Nat.le_add_right _ n) rfl) (Nat.le_add_right _ n)
    (fun k _ => by cases k <;> exact List.Subset.refl _) fun _ ha => ha

theorem find_append_new {β : Type} {f : β → Addr} {l : List β} {x : β} (hx : f x ∉ l.map f) (a : Addr) :
    (l ++ [x]).find? (fun y => f y = a) = if a = f x then some x else l.find? fun y => f y = a := by
  rw [List.find?_append]
  split_ifs with ha
  · rw [ha, find_none hx]
    simp
  · simp [Ne.symm ha]

/-- a new object becomes the last element of a list -/
theorem Sim.addTail {live : Addr → Bool} (h : Sim m fs) (k : Key) (hold : ∀ a, m.live a = true → live a = true)
    (hnew : live fs.heap.next = true) : ∃ s, Checked.addTail live ⟨m.head k, m.links⟩ (some fs.heap.next) = some s ∧
      Represents s (elems fs k ++ [fs.heap.next]) ∧
      ∀ c, c ∉ elems fs k → c ≠ fs.heap.next → SameLinks ⟨m.head k, m.links⟩ s c :=
  addTail_spec (h.lists k) (fun a ha => hold a (h.live k a ha)) hnew (h.apart.next_notMem k)

/-- one more file system -/
theorem Sim.addFs (h : Sim m fs) (id : ℤ) (ops : FsOps) : ∃ s,
    Checked.addTail (Mem.live { m with
      heap := { fs.heap with next := fs.heap.next + 1 }, fss := m.fss.set fs.heap.next ⟨id, ops⟩ }) ⟨m.fsLst, m.links⟩
        (some fs.heap.next) = some s ∧
    Sim { m with
        heap := { fs.heap with next := fs.heap.next + 1 }, links := s.mem, fsLst := s.head,
        fss := m.fss.set fs.heap.next ⟨id, ops⟩ }
      { fs with
        heap := { fs.heap with next := fs.heap.next + 1 }, fsLst := fs.fsLst ++ [⟨fs.heap.next, id, ops⟩] } := by
  have hold : ∀ a, m.live a = true → Mem.live { m with
      heap := { fs.heap with next := fs.heap.next + 1 }, fss := m.fss.set fs.heap.next ⟨id, ops⟩ } a = true := by
    intro a ha
    simp only [Mem.live, Table.set_apply] at ha ⊢
    split_ifs
    · simp
    · exact ha
  obtain ⟨s, hs, hrep, hsame⟩ := h.addTail .fs hold (by simp [Mem.live])
  have helems : elems { fs with
      heap := { fs.heap with next := fs.heap.next + 1 }, fsLst := fs.fsLst ++ [⟨fs.heap.next, id, ops⟩] } .fs =
      elems fs .fs ++ [fs.heap.next] := by simp [elems]
  have hothers : ∀ k', k' ≠ Key.fs → elems { fs with
      heap := { fs.heap with next := fs.heap.next + 1 }, fsLst := fs.fsLst ++ [⟨fs.heap.next, id, ops⟩] } k' =
      elems fs k' := by
    intro k' hk
    cases k' with
    | fs => exact absurd rfl hk
    | fd => rfl
    | childs n => rfl
  refine ⟨s, hs, ⟨rfl, h.cnt, ?_, fun a => ?_, h.fds, h.nodes, h.apart.append (k := .fs) rfl rfl helems hothers⟩⟩
  · refine h.relist .fs (helems ▸ hrep) hsame (fun k' _ => h.apart.next_notMem k') rfl rfl fun k' hk => ?_
    refine ⟨?_, hothers k' hk⟩
    cases k' with
    | fs => exact absurd rfl hk
    | fd => rfl
    | childs n => rfl
  · have hnew : (fs.fsLst ++ [(⟨fs.heap.next, id, ops⟩ : FsT)]).find? (fun f => f.self = a) =
        if a = fs.heap.next then some ⟨fs.heap.next, id, ops⟩ else fs.fsLst.find? fun f => f.self = a :=
      find_append_new (h.apart.next_notMem .fs) a
    simp only [hnew, Table.set_apply, h.fss]
    split_ifs <;> rfl

theorem register_agrees (h : Sim m fs) (ops : Option FsOps) :
    Agree (fsRegister m ops) (some (EspHostdriver.fsRegister fs ops)) := by
  rw [fsRegister_eq, fsRegister, nextId_eq h]
  simp only [bind, Option.bind_some]
  split_ifs with hid
  · exact .some ⟨rfl, h⟩
  cases ops with
  | none => exact .some ⟨rfl, h⟩
  | some ops =>
    dsimp only
    split_ifs with hops
    · exact .some ⟨rfl, h⟩
    rw [h.heap]
    cases hm : fs.heap.malloc with
    | mk r hp =>
      cases r with
      | none =>
        obtain ⟨_, rfl⟩ := malloc_none hm
        have hskip := h.skip 1 fs.fdCnt
        exact .some ⟨rfl, h.cnt ▸ hskip⟩
      | some a =>
        obtain ⟨rfl, _, rfl⟩ := malloc_some hm
        obtain ⟨s, hs, hsim⟩ := h.addFs (idAfter fs) ops
        simp only [hs, Option.bind_some]
        exact .some ⟨rfl, hsim⟩

/-- one more descriptor -/
theorem Sim.addFd (h : Sim m fs) (fd : FsFiled) (hself : fd.self = fs.heap.next) (cnt : ℤ) : ∃ s,
    Checked.addTail (Mem.live { m with
      heap := { fs.heap with next := fs.heap.next + 1 }, fdCnt := cnt, fds := m.fds.set fs.heap.next (fdRec fd) })
        ⟨m.fdLst, m.links⟩ (some fs.heap.next) = some s ∧
    Sim { m with
        heap := { fs.heap with next := fs.heap.next + 1 }, links := s.mem, fdLst := s.head, fdCnt := cnt,
        fds := m.fds.set fs.heap.next (fdRec fd) }
      { fs with heap := { fs.heap with next := fs.heap.next + 1 }, fdCnt := cnt, fdLst := fs.fdLst ++ [fd] } := by
  have hold : ∀ a, m.live a = true → Mem.live { m with
      heap := { fs.heap with next := fs.heap.next + 1 }, fdCnt := cnt,
      fds := m.fds.set fs.heap.next (fdRec fd) } a = true := by
    intro a ha
    simp only [Mem.live, Table.set_apply] at ha ⊢
    split_ifs
    · simp
    · exact ha
  obtain ⟨s, hs, hrep, hsame⟩ := h.addTail .fd hold (by simp [Mem.live])
  have helems : elems { fs with
      heap := { fs.heap with next := fs.heap.next + 1 }, fdCnt := cnt, fdLst := fs.fdLst ++ [fd] } .fd =
      elems fs .fd ++ [fs.heap.next] := by simp [elems, hself]
  have hothers : ∀ k', k' ≠ Key.fd → elems { fs with
      heap := { fs.heap with next := fs.heap.next + 1 }, fdCnt := cnt, fdLst := fs.fdLst ++ [fd] } k' = elems fs k' := by
    intro k' hk
    cases k' with
    | fd => exact absurd rfl hk
    | fs => rfl
    | childs n => rfl
  refine ⟨s, hs, ⟨rfl, rfl, ?_, h.fss, fun a => ?_, h.nodes, h.apart.append (k := .fd) rfl rfl helems hothers⟩⟩
  · refine h.relist .fd (helems ▸ hrep) hsame (fun k' _ => h.apart.next_notMem k') rfl rfl fun k' hk => ?_
    refine ⟨?_, hothers k' hk⟩
    cases k' with
    | fd => exact absurd rfl hk
    | fs => rfl
    | childs n => rfl
  · have hnew : (fs.fdLst ++ [fd]).find? (fun f => f.self = a) =
        if a = fd.self then some fd else fs.fdLst.find? fun f => f.self = a :=
      find_append_new (hself ▸ h.apart.next_notMem .fd) a
    simp only [hnew, Table.set_apply, h.fds, hself]
    split_ifs <;> rfl

/-- a node gets another count -/
theorem Sim.setRef (h : Sim m fs) (ha : fs.nodes a = some nd) (n : ℕ) :
    Sim { m with nodes := m.nodes.set a { nodeRec nd (m.head (.childs a)) with refCnt := n } }
      { fs with nodes := fs.nodes.set a { nd with refCnt := n } } := by
  have helems : ∀ k, elems { fs with nodes := fs.nodes.set a { nd with refCnt := n } } k = elems fs k := by
    intro k
    cases k with
    | fs => rfl
    | fd => rfl
    | childs b =>
      simp only [elems, Table.set_apply]
      split_ifs with hb
      · simp [hb, ha]
      · rfl
  have hheads : ∀ k, Mem.head { m with nodes := m.nodes.set a { nodeRec nd (m.head (.childs a)) with refCnt := n } } k =
      m.head k := by
    intro k
    cases k with
    | fs => rfl
    | fd => rfl
    | childs b =>
      simp only [Mem.head, Table.set_apply]
      split_ifs with hb
      · simp [hb, nodeRec]
      · rfl
  refine ⟨h.heap, h.cnt, fun k => ?_, h.fss, h.fds, fun b => ?_, ?_⟩
  · rw [helems, hheads]
    exact h.lists k
  · rw [hheads]
    simp only [Table.set_apply]
    split_ifs with hb
    · rw [hb, Option.map_some]
      rfl
    · exact h.nodes b
  · refine h.apart.shrink (h.apart.tree.setRef ha n le_rfl rfl) le_rfl (fun k _ => helems k ▸ List.Subset.refl _)
      fun b hb => ?_
    simp only [Table.set_apply]
    split_ifs with hba
    · rw [hba, ha] at hb
      cases hb
    · exact hb

theorem alloc_agrees (h : Sim m fs) (node : Option Addr) (mode mask : UInt32) : Agree (fsFdAlloc m node mode mask)
    ((EspHostdriver.fsFdAlloc fs node mode mask).toOption.map fun r => (r.1.map FsFiled.self, r.2)) := by
  unfold fsFdAlloc EspHostdriver.fsFdAlloc
  dsimp only
  rw [h.heap, h.cnt]
  cases hm : fs.heap.malloc with
  | mk r hp =>
    cases r with
    | none =>
      obtain ⟨_, rfl⟩ := malloc_none hm
      exact .some ⟨rfl, h.skip 1 (fs.fdCnt + 1)⟩
    | some a =>
      obtain ⟨rfl, _, rfl⟩ := malloc_some hm
      cases node with
      | none =>
        -- the descriptor is on its list when the null pointer is followed
        have hnone : ∀ x : Option List2, (x.bind fun s => (none : Option (Ptr × Mem))) = none := fun x => by
          cases x <;> rfl
        simp only [deref, bind, Option.bind_none, hnone]
        exact .none
      | some n =>
        obtain ⟨s, hs, hsim⟩ := h.addFd ⟨fs.heap.next, fs.fdCnt + 1, 0, n,
          (mode &&& ~~~mask) ||| (fmodeDefault &&& mask), mask⟩ rfl (fs.fdCnt + 1)
        have hderef := hsim.deref_node (some n)
        simp only [fdRec] at hs hderef
        simp only [bind, hs, Option.bind_some, hderef]
        cases hn : fs.nodes n with
        | none => exact .none
        | some nd => exact .some ⟨rfl, hsim.setRef hn _⟩

/-- an element of a list is taken off, wherever it stands -/
theorem Sim.rm (h : Sim m fs) (k : Key) (ha : a ∈ elems fs k) :
    ∃ s, ForEach.listRm m.live ⟨m.head k, m.links⟩ (some a) = some s ∧
      Represents s ((elems fs k).filter (· ≠ a)) ∧ ∀ c, c ∉ elems fs k → c ≠ a → SameLinks ⟨m.head k, m.links⟩ s c := by
  obtain ⟨as, bs, he⟩ := List.append_of_mem ha
  have hrep := h.lists k
  have hlive := h.live k
  rw [he] at hrep hlive
  obtain ⟨s, hs, hr, hsame⟩ := rm_spec hrep hlive
  have hn := (List.nodup_cons.1 (List.nodup_middle.1 hrep.links.nodup)).1
  have hfilter : (as ++ a :: bs).filter (· ≠ a) = as ++ bs := by
    have hkeep : ∀ l : List Addr, a ∉ l → l.filter (· ≠ a) = l := fun l hl =>
      List.filter_eq_self.2 fun c hc => decide_eq_true (ne_of_mem_of_not_mem hc hl)
    rw [List.mem_append, not_or] at hn
    rw [List.filter_append, List.filter_cons_of_neg (by simp), hkeep as hn.1, hkeep bs hn.2]
  refine ⟨s, hs, ?_, fun c hc _ => hsame c (he ▸ hc)⟩
  rw [he, hfilter]
  exact hr

/-- one descriptor less -/
theorem Sim.rmFd (h : Sim m fs) {fd : FsFiled} (hfd : fd ∈ fs.fdLst) :
    ∃ s, ForEach.listRm m.live ⟨m.fdLst, m.links⟩ (some fd.self) = some s ∧
      Sim { m with links := s.mem, fdLst := s.head, fds := m.fds.free fd.self }
        { fs with fdLst := fs.fdLst.filter fun f => f.self ≠ fd.self } := by
  obtain ⟨s, hs, hrep, hsame⟩ := h.rm .fd (List.mem_map_of_mem hfd)
  have helems : elems { fs with fdLst := fs.fdLst.filter fun f => f.self ≠ fd.self } .fd =
      (elems fs .fd).filter (· ≠ fd.self) := by
    simp only [elems, List.filter_map]
    rfl
  have hothers : ∀ k', k' ≠ Key.fd →
      elems { fs with fdLst := fs.fdLst.filter fun f => f.self ≠ fd.self } k' = elems fs k' := by
    intro k' hk
    cases k' with
    | fd => exact absurd rfl hk
    | fs => rfl
    | childs n => rfl
  refine ⟨s, hs, ⟨h.heap, h.cnt, ?_, h.fss, fun a => ?_, h.nodes, ?_⟩⟩
  · refine h.relist .fd (helems ▸ hrep) hsame (fun k' hk hm => hk (h.apart.one hm (List.mem_map_of_mem hfd))) rfl rfl
      fun k' hk => ⟨?_, hothers k' hk⟩
    cases k' with
    | fd => exact absurd rfl hk
    | fs => rfl
    | childs n => rfl
  · simp only [Table.free, h.fds, List.find?_filter]
    split_ifs with ha
    · symm
      rw [Option.map_eq_none_iff, List.find?_eq_none]
      intro f _ hf
      simp [ha] at hf
    · congr 2
      funext f
      by_cases hf : f.self = a
      · simp [hf, ha]
      · simp [hf]
  · refine h.apart.shrink (h.apart.tree.congr le_rfl rfl) le_rfl (fun k _ => ?_) fun _ ha => ha
    by_cases hk : k = .fd
    · rw [hk, helems]
      exact fun _ hm => List.mem_of_mem_filter hm
    · rw [hothers k hk]
      exact List.Subset.refl _

/-- the descriptor at an address -/
def fdAt (fs : Fs) (fd : Ptr) : Option FsFiled := fd.bind fun a => fs.fdLst.find? fun f => f.self = a

theorem deref_fd (h : Sim m fs) (fd : Ptr) : deref m.fds fd = (fdAt fs fd).map fun f => (f.self, fdRec f) := by
  cases fd with
  | none => rfl
  | some a =>
    rw [deref, fdAt, Option.bind_some, Option.bind_some, h.fds]
    cases hf : fs.fdLst.find? fun f => f.self = a with
    | none => rfl
    | some f =>
      have ha : f.self = a := by simpa using List.find?_some hf
      rw [Option.map_some, Option.map_some, Option.map_some, ha]

theorem free_agrees (h : Sim m fs) (fd : Ptr) :
    Option.Rel Sim (fsFdFree m fd) ((fdAt fs fd).bind fun f => (EspHostdriver.fsFdFree fs f).toOption) := by
  unfold fsFdFree
  have hfd := deref_fd h fd
  cases hf : fdAt fs fd with
  | none =>
    rw [hf, Option.map_none] at hfd
    have hnone : ∀ x : Option List2, (x.bind fun _ => (none : Option Mem)) = none := fun x => by cases x <;> rfl
    simp only [bind, hfd, Option.bind_none, hnone]
    exact .none
  | some f =>
    obtain ⟨a, rfl, hfind⟩ := Option.bind_eq_some_iff.1 hf
    have hself : f.self = a := by simpa using List.find?_some hfind
    obtain ⟨s, hs, hsim⟩ := h.rmFd (List.mem_of_find?_eq_some hfind)
    rw [hf, Option.map_some] at hfd
    rw [hself] at hs
    have hnode := h.deref_node (some f.node)
    simp only [bind, hs, Option.bind_some, hfd, fdRec, hnode, EspHostdriver.fsFdFree]
    cases hn : fs.nodes f.node with
    | none => exact .none
    | some nd => exact .some (hsim.setRef hn _)

/-- the search of a list for the first element with a property of its record -/
theorem Sim.find {β γ : Type} (h : Sim m fs) (k : Key) {l : List β} {f : β → Addr} (hl : elems fs k = l.map f)
    {t : Table γ} {r : β → γ} (ht : ∀ x ∈ l, t (f x) = some (r x)) (q : γ → Bool) :
    find m.live m.links (fun a => (t a).map q) m.fuel (m.head k) = some ((l.find? fun x => q (r x)).map f) := by
  have htest : ∀ a ∈ elems fs k, (t a).map q = some (((t a).map q).getD false) := by
    intro a ha
    rw [hl] at ha
    obtain ⟨x, hx, rfl⟩ := List.mem_map.1 ha
    rw [ht x hx]
    rfl
  rw [find_spec (h.lists k) (h.live k) htest (h.length_lt k), hl, find_map fun x hx => ?_]
  rw [ht x hx]
  rfl

theorem acquire_agrees (h : Sim m fs) (id : ℤ) :
    fsFdAcquire m id = some ((EspHostdriver.fsFdAcquire fs id).map FsFiled.self) := by
  have hrec : ∀ f ∈ fs.fdLst, m.fds f.self = some (fdRec f) := fun f hf => by
    rw [h.fds, find_self (h.lists .fd).links.nodup hf, Option.map_some]
  exact h.find .fd rfl hrec fun r => decide (r.id = id)

/-! ## Creating nodes -/

/-- nodes are made at new addresses and change where they are -/
theorem Apart.setNodes (h : Apart fs) (ht : Tree fs') (hn : fs.heap.next ≤ fs'.heap.next)
    (hflat : ∀ k : Key, k.Flat → elems fs' k = elems fs k)
    (hold : ∀ a nd, fs'.nodes a = some nd → (∃ nd', fs.nodes a = some nd') ∨ fs.heap.next ≤ a) : Apart fs' where
  tree := ht
  flatLt k hk a ha := lt_of_lt_of_le (h.flatLt k hk a (hflat k hk ▸ ha)) hn
  flatOne k k' hk hk' a ha ha' := h.flatOne k k' hk hk' a (hflat k hk ▸ ha) (hflat k' hk' ▸ ha')
  flatNode k hk a ha := by
    have ha' : a ∈ elems fs k := hflat k hk ▸ ha
    cases hn : fs'.nodes a with
    | none => rfl
    | some nd =>
      rcases hold a nd hn with ⟨nd', hn'⟩ | hle
      · rw [h.flatNode k hk a ha'] at hn'
        cases hn'
      · exact absurd (h.flatLt k hk a ha') hle.not_gt

theorem flat_elems (hfs : fs'.fsLst = fs.fsLst) (hfd : fs'.fdLst = fs.fdLst) :
    ∀ k : Key, k.Flat → elems fs' k = elems fs k := by
  intro k hk
  cases k with
  | fs => rw [elems, hfs, elems]
  | fd => rw [elems, hfd, elems]
  | childs n => exact hk.elim

/-- a node without parent is made -/
theorem Sim.addRoot (h : Sim m fs) {n : FsNode} (hch : n.childs = []) (hp : n.parent = none) :
    Sim { m with
        heap := { fs.heap with next := fs.heap.next + 1 }, nodes := m.nodes.set fs.heap.next (nodeRec n none) }
      { fs with heap := { fs.heap with next := fs.heap.next + 1 }, nodes := fs.nodes.set fs.heap.next n } := by
  have hnone : fs.nodes fs.heap.next = none := h.apart.tree.fresh_none le_rfl
  have helems : ∀ k, elems { fs with
      heap := { fs.heap with next := fs.heap.next + 1 }, nodes := fs.nodes.set fs.heap.next n } k = elems fs k := by
    intro k
    cases k with
    | fs => rfl
    | fd => rfl
    | childs b =>
      simp only [elems, Table.set_apply]
      split_ifs with hb
      · simp [hb, hnone, hch]
      · rfl
  have hheads : ∀ k, Mem.head { m with
      heap := { fs.heap with next := fs.heap.next + 1 }, nodes := m.nodes.set fs.heap.next (nodeRec n none) } k =
      m.head k := by
    intro k
    cases k with
    | fs => rfl
    | fd => rfl
    | childs b =>
      simp only [Mem.head, Table.set_apply]
      split_ifs with hb
      · rw [hb, h.nodes, hnone]
        rfl
      · rfl
  refine ⟨rfl, h.cnt, fun k => ?_, h.fss, h.fds, fun b => ?_, ?_⟩
  · rw [helems, hheads]
    exact h.lists k
  · rw [hheads]
    simp only [Table.set_apply]
    split_ifs with hb
    · have hhead : m.head (.childs fs.heap.next) = none := by rw [Mem.head, h.nodes, hnone]; rfl
      rw [hb, hhead]
      rfl
    · exact h.nodes b
  · refine h.apart.setNodes (h.apart.tree.addRoot hch hp) (Nat.le_succ _) (fun k _ => helems k) fun b nb hb => ?_
    simp only [Table.set_apply] at hb
    split_ifs at hb with hbn
    · exact Or.inr hbn.ge
    · exact Or.inl ⟨nb, hb⟩

/-- a node is made as the last child of another one -/
theorem Sim.addChild (h : Sim m fs) {n : FsNode} (hch : n.childs = []) (hp : n.parent = some p)
    (hpn : fs.nodes p = some pn) : ∃ s,
    Checked.addTail (Mem.live { m with
      heap := { fs.heap with next := fs.heap.next + 1 }, nodes := m.nodes.set fs.heap.next (nodeRec n none) })
        ⟨m.head (.childs p), m.links⟩ (some fs.heap.next) = some s ∧
    Sim { m with
        heap := { fs.heap with next := fs.heap.next + 1 }, links := s.mem,
        nodes := (m.nodes.set fs.heap.next (nodeRec n none)).set p (nodeRec pn s.head) }
      (EspHostdriver.addChild fs n p pn) := by
  have hnone : fs.nodes fs.heap.next = none := h.apart.tree.fresh_none le_rfl
  have hpne : p ≠ fs.heap.next := fun he => by
    rw [he, hnone] at hpn
    cases hpn
  have hold : ∀ a, m.live a = true → Mem.live { m with
      heap := { fs.heap with next := fs.heap.next + 1 },
      nodes := m.nodes.set fs.heap.next (nodeRec n none) } a = true := by
    intro a ha
    simp only [Mem.live, Table.set_apply] at ha ⊢
    split_ifs
    · simp
    · exact ha
  obtain ⟨s, hs, hrep, hsame⟩ := h.addTail (.childs p) hold (by simp [Mem.live])
  have helems : elems (EspHostdriver.addChild fs n p pn) (.childs p) = elems fs (.childs p) ++ [fs.heap.next] := by
    simp [elems, addChild_apply, hpn]
  have hothers : ∀ k', k' ≠ .childs p → elems (EspHostdriver.addChild fs n p pn) k' = elems fs k' := by
    intro k' hk
    cases k' with
    | fs => rfl
    | fd => rfl
    | childs b =>
      have hb : b ≠ p := fun he => hk (he ▸ rfl)
      simp only [elems, addChild_apply, if_neg hb]
      split_ifs with hbn
      · simp [hbn, hnone, hch]
      · rfl
  refine ⟨s, hs, ⟨rfl, h.cnt, ?_, h.fss, h.fds, fun b => ?_, ?_⟩⟩
  · refine h.relist (.childs p) (helems ▸ hrep) hsame (fun k' _ => h.apart.next_notMem k') rfl ?_ fun k' hk =>
      ⟨?_, hothers k' hk⟩
    · simp [Mem.head, nodeRec]
    · cases k' with
      | fs => rfl
      | fd => rfl
      | childs b =>
        have hb : b ≠ p := fun he => hk (he ▸ rfl)
        simp only [Mem.head, Table.set_apply, if_neg hb]
        split_ifs with hbn
        · rw [hbn, h.nodes, hnone]
          rfl
        · rfl
  · simp only [Mem.head, Table.set_apply, addChild_apply]
    by_cases hb : b = p
    · simp only [if_pos hb, Option.map_some, Option.bind_some]
      rfl
    · by_cases hbn : b = fs.heap.next
      · simp only [if_neg hb, if_pos hbn, Option.map_some, Option.bind_some]
        rfl
      · simp only [if_neg hb, if_neg hbn]
        exact h.nodes b
  · refine h.apart.setNodes (h.apart.tree.addChild hch hp hpn) (Nat.le_succ _) (flat_elems rfl rfl) fun b nb hb => ?_
    rw [addChild_apply] at hb
    split_ifs at hb with hbp hbn
    · exact Or.inl ⟨pn, hbp ▸ hpn⟩
    · exact Or.inr hbn.ge
    · exact Or.inl ⟨nb, hb⟩

theorem make_agrees (h : Sim m fs) {parent : Ptr} (hp : ∀ p, parent = some p → p < fs.heap.next) (name : Bytes)
    (nameLen : ℕ) (type : FileType) (data : Option Addr) (fsId : ℤ) : Agree (fsNodeMake m parent name nameLen type data fsId)
    (EspHostdriver.fsNodeMake fs parent name nameLen type data fsId).toOption := by
  unfold fsNodeMake EspHostdriver.fsNodeMake
  by_cases hlen : 32 < sizeT (nameLen + 1)
  · rw [if_pos hlen, if_pos hlen]
    exact .some ⟨rfl, h⟩
  rw [if_neg hlen, if_neg hlen]
  have hrec : ∀ f ∈ fs.fsLst, m.fss f.self = some (fsRec f) := fun f hf => by
    rw [h.fss, find_self (h.lists .fs).links.nodup hf, Option.map_some]
  have hfind : find m.live m.links (fun a => (m.fss a).map fun f => decide (f.id = fsId)) m.fuel m.fsLst =
      some ((fs.fsLst.find? fun f => f.id = fsId).map FsT.self) := h.find .fs rfl hrec fun r => decide (r.id = fsId)
  simp only [bind, hfind, Option.bind_some]
  cases hf : fs.fsLst.find? fun f => f.id = fsId with
  | none => exact .some ⟨rfl, h⟩
  | some f =>
    simp only [Option.map_some]
    rw [h.heap]
    cases hm : fs.heap.malloc with
    | mk r hp' =>
      cases r with
      | none =>
        obtain ⟨_, rfl⟩ := malloc_none hm
        have hskip := h.skip 1 fs.fdCnt
        exact .some ⟨rfl, h.cnt ▸ hskip⟩
      | some a =>
        obtain ⟨rfl, _, rfl⟩ := malloc_some hm
        by_cases hover : sizeT (nameLen + 1) < nameLen + 1
        · simp only [hover, if_true]
          exact .none
        simp only [hover, if_false]
        set n := newNode f parent name nameLen type data fsId with hnode
        cases parent with
        | none => exact .some ⟨rfl, h.addRoot (n := n) rfl rfl⟩
        | some p =>
          have hpne : p ≠ fs.heap.next := (hp p rfl).ne
          have hderef : deref (m.nodes.set fs.heap.next (nodeRec n none)) (some p) =
              (fs.nodes p).map fun pn => (p, nodeRec pn (m.head (.childs p))) := by
            rw [deref, Option.bind_some, Table.set_ne _ _ hpne, h.nodes, Option.map_map]
            rfl
          cases hpn : fs.nodes p with
          | none =>
            rw [hpn, Option.map_none] at hderef
            simp only [hnode, newNode, nodeRec] at hderef
            simp only [reduceCtorEq, if_false, hderef, Option.bind_none, hpn]
            exact .none
          | some pn =>
            obtain ⟨s, hs, hsim⟩ := h.addChild (n := n) rfl rfl hpn
            rw [hpn, Option.map_some] at hderef
            simp only [hnode, newNode, nodeRec] at hderef hs
            simp only [reduceCtorEq, if_false, hderef, hs, Option.bind_some, hpn]
            exact .some ⟨rfl, hsim⟩

/-! ## Destroying nodes -/

/-- a node without children is taken off its parent's list and freed -/
theorem Sim.unlink (h : Sim m fs) (ha : fs.nodes a = some nd) (hch : nd.childs = []) (hp : nd.parent = some p)
    (hpn : fs.nodes p = some pn) : ∃ m', unlink m (some a) = some m' ∧ Sim m' (freeNode fs a p pn) := by
  obtain ⟨pn', hpn', hm⟩ := h.apart.tree.up a nd p ha hp
  obtain rfl := Option.some.inj (hpn.symm.trans hpn')
  have hmem : a ∈ elems fs (.childs p) := by rwa [elems_childs hpn]
  have hpa : p ≠ a := (h.apart.tree.parent_lt ha hp).ne
  obtain ⟨s, hs, hrep, hsame⟩ := h.rm (.childs p) hmem
  have hda := h.deref_node (some a)
  have hdp := h.deref_node (some p)
  simp only [Option.bind_some, ha, hpn, Option.map_some, nodeRec, hp] at hda hdp
  refine ⟨{ m with links := s.mem, nodes := (m.nodes.set p (nodeRec pn s.head)).free a }, ?_, ?_⟩
  · simp only [Memory.unlink, bind, hda, Option.bind_some, hdp, hs, nodeRec]
  have hhead : m.head (.childs a) = none := by
    have hl := (h.lists (.childs a)).head
    rw [elems_childs ha, hch] at hl
    exact hl
  have helems : elems (freeNode fs a p pn) (.childs p) = (elems fs (.childs p)).filter (· ≠ a) := by
    simp [elems, freeNode_apply, hpa, hpn]
  have hothers : ∀ k', k' ≠ .childs p → elems (freeNode fs a p pn) k' = elems fs k' := by
    intro k' hk
    cases k' with
    | fs => rfl
    | fd => rfl
    | childs b =>
      have hb : b ≠ p := fun he => hk (he ▸ rfl)
      simp only [elems, freeNode_apply, if_neg hb]
      split_ifs with hba
      · simp [hba, ha, hch]
      · rfl
  have hleaf : ∀ b nb, fs.nodes b = some nb → nb.parent ≠ some a := by
    intro b nb hb hbp
    obtain ⟨nd', ha', hmb⟩ := h.apart.tree.up b nb a hb hbp
    rw [ha] at ha'
    cases ha'
    rw [hch] at hmb
    cases hmb
  refine ⟨h.heap, h.cnt, ?_, h.fss, h.fds, fun b => ?_, ?_⟩
  · refine h.relist (.childs p) (helems ▸ hrep) hsame (fun k' hk hm => hk (h.apart.one hm hmem)) rfl ?_ fun k' hk =>
      ⟨?_, hothers k' hk⟩
    · simp [Mem.head, Table.free, hpa, nodeRec]
    · cases k' with
      | fs => rfl
      | fd => rfl
      | childs b =>
        have hb : b ≠ p := fun he => hk (he ▸ rfl)
        simp only [Mem.head, Table.free, Table.set_apply, if_neg hb]
        split_ifs with hba
        · rw [hba]
          exact hhead.symm
        · rfl
  · simp only [Mem.head, Table.free, Table.set_apply, freeNode_apply]
    by_cases hba : b = a
    · simp only [if_pos hba, Option.map_none]
    · by_cases hbp : b = p
      · simp only [if_neg hba, if_pos hbp, Option.map_some, Option.bind_some]
        rfl
      · simp only [if_neg hba, if_neg hbp]
        exact h.nodes b
  · refine h.apart.setNodes (h.apart.tree.freeNode ha hp hpn hleaf) le_rfl (flat_elems rfl rfl) fun b nb hb => ?_
    rw [freeNode_apply] at hb
    split_ifs at hb with hba hbp
    · exact Or.inl ⟨pn, hbp ▸ hpn⟩
    · exact Or.inl ⟨nb, hb⟩

/-- the loop over the children: as long as they are destroyed, the rest of the list is the rest of the sequence -/
theorem loop_agrees {depth : ℕ} (hd : ∀ m fs c cn, Sim m fs → fs.nodes c = some cn → cn.parent = some a →
      fs.heap.next ≤ c + depth → Agree (fsNodeDestroyAux depth m (some c))
        (EspHostdriver.fsNodeDestroyAux depth fs c).toOption)
    (cs : List Addr) {m : Mem} {fs : Fs} {nd : FsNode} (h : Sim m fs) (ha : fs.nodes a = some nd) (hcs : nd.childs = cs)
    (hdepth : fs.heap.next ≤ a + (depth + 1)) {fuel : ℕ} (hf : cs.length < fuel) :
    Agree (destroyLoop (fsNodeDestroyAux depth) fuel cs.head? cs.tail.head? m)
      (destroyChilds (EspHostdriver.fsNodeDestroyAux depth) fs cs).toOption := by
  induction cs generalizing m fs nd fuel with
  | nil =>
    obtain ⟨k, rfl⟩ : ∃ k, fuel = k + 1 := ⟨fuel - 1, by omega⟩
    exact .some ⟨rfl, h⟩
  | cons c cs ih =>
    obtain ⟨k, rfl⟩ : ∃ k, fuel = k + 1 := ⟨fuel - 1, by omega⟩
    have ht := h.apart.tree
    obtain ⟨hac, cn, hcn, hcp⟩ := ht.down a nd c ha (hcs ▸ List.mem_cons_self)
    have hagree := hd m fs c cn h hcn hcp (by omega)
    have hex := fsNodeDestroyAux_exact depth fs c a cn ht hcn hcp (by omega)
    by_cases hidle : fs.Idle c
    · have hr := hex.idle hidle
      rw [hr] at hagree
      obtain ⟨m1, hptr, h1⟩ := hagree.ok
      -- the children that are left are the rest of the sequence
      have hnodup := ht.once a nd ha
      rw [hcs] at hnodup
      have hout : ∀ d ∈ cs, d ∉ fs.subtree c := by
        intro d hdm
        have hdm' : d ∈ nd.childs := hcs ▸ List.mem_cons_of_mem c hdm
        have hne : c ≠ d := fun he => (List.nodup_cons.1 hnodup).1 (he ▸ hdm)
        exact ht.isForest.not_under_sibling (ht.child hcn hcp) ⟨nd, ha, hdm'⟩ hne
      have hrest : outside (fs.subtree c) nd.childs = cs := by
        rw [hcs, outside, List.filter_cons_of_neg (by simpa using fs.self_mem c)]
        exact outside_eq_self hout
      have ha1 := without_some (fun hm => absurd (ht.subtree_le hm) hac.not_ge) ha
      rw [hrest] at ha1
      have hl := h1.lists (.childs a)
      have hlive := h1.live (.childs a)
      rw [elems_childs ha1] at hl hlive
      have hahead : readAhead m1.live m1.links cs.head? = some cs.tail.head? := readAhead_head hl.links.next hlive
      have hgo := ih h1 ha1 rfl hdepth (show cs.length < k by simpa using hf)
      simp only [List.head?_cons, List.tail_cons, destroyLoop, reduceCtorEq, if_false, hptr, bind, Option.bind_some,
        hahead, ne_eq, not_true_eq_false, destroyChilds, hr]
      exact hgo
    · obtain ⟨fs', hr, _⟩ := hex.busy hidle
      rw [hr] at hagree
      obtain ⟨m1, hptr, h1⟩ := hagree.ok
      have hne : ¬ (-1 : ℤ) = 0 := by decide
      simp only [List.head?_cons, List.tail_cons, destroyLoop, reduceCtorEq, if_false, hptr, bind, Option.bind_some,
        ne_eq, hne, not_false_eq_true, if_true, destroyChilds, hr]
      exact .some ⟨rfl, h1⟩

/-- when everything below a node is gone, it has no children -/
theorem childless (ht : Tree fs) (ha : fs.nodes a = some nd) :
    (fs.without (fs.below nd.childs)).nodes a = some { nd with childs := [] } := by
  have hout : a ∉ fs.below nd.childs := by
    intro hm
    obtain ⟨c, hc, hac⟩ := hm
    exact absurd (ht.subtree_le hac) (ht.down a nd c ha hc).1.not_ge
  rw [without_some hout ha]
  congr 2
  refine List.filter_eq_nil_iff.2 fun c hc => ?_
  have hm : c ∈ fs.below nd.childs := ⟨c, hc, fs.self_mem c⟩
  simpa using hm

/-- the end of a call: without a parent it follows the null pointer -/
theorem Sim.unlink_agrees (h : Sim m fs) (ha : fs.nodes a = some nd) (hch : nd.childs = []) :
    Option.Rel Sim (Memory.unlink m (some a))
      (nd.parent.bind fun p => (fs.nodes p).map fun pn => freeNode fs a p pn) := by
  cases hp : nd.parent with
  | none =>
    have hda := h.deref_node (some a)
    simp only [Option.bind_some, ha, Option.map_some, nodeRec, hp] at hda
    have hnone : deref m.nodes none = none := rfl
    simp only [Memory.unlink, bind, hda, Option.bind_some, hnone, Option.bind_none]
    exact .none
  | some p =>
    obtain ⟨pn, hpn, _⟩ := h.apart.tree.up a nd p ha hp
    obtain ⟨m', hm', hsim⟩ := h.unlink ha hch hp hpn
    rw [hm', Option.bind_some, hpn, Option.map_some]
    exact .some hsim

theorem destroyAux_agrees (depth : ℕ) {m : Mem} {fs : Fs} {nd : FsNode} (h : Sim m fs) (ha : fs.nodes a = some nd)
    (hdepth : fs.heap.next ≤ a + depth) :
    Agree (fsNodeDestroyAux depth m (some a)) (EspHostdriver.fsNodeDestroyAux depth fs a).toOption := by
  induction depth generalizing m fs a nd with
  | zero =>
    have hfresh := h.apart.tree.fresh a nd ha
    omega
  | succ depth ih =>
    have hd : ∀ m fs c cn, Sim m fs → fs.nodes c = some cn → cn.parent = some a → fs.heap.next ≤ c + depth →
        Agree (fsNodeDestroyAux depth m (some c)) (EspHostdriver.fsNodeDestroyAux depth fs c).toOption :=
      fun m fs c cn h hcn _ hle => ih h hcn hle
    have hda := h.deref_node (some a)
    simp only [Option.bind_some, ha, Option.map_some, nodeRec] at hda
    by_cases href : 0 < nd.refCnt
    · simp only [fsNodeDestroyAux, bind, hda, Option.bind_some, href, if_true, EspHostdriver.fsNodeDestroyAux, ha]
      exact .some ⟨rfl, h⟩
    · have hl := h.lists (.childs a)
      have hlive := h.live (.childs a)
      have hlen := h.length_lt (.childs a)
      rw [elems_childs ha] at hl hlive hlen
      have hhead : m.head (.childs a) = nd.childs.head? := hl.head
      have hahead : readAhead m.live m.links nd.childs.head? = some nd.childs.tail.head? :=
        readAhead_head hl.links.next hlive
      have hloop := loop_agrees hd nd.childs h ha rfl hdepth hlen
      have hex := childs_exact h.apart.tree ha hdepth (fsNodeDestroyAux_exact depth)
      by_cases hidle : ∀ c ∈ nd.childs, fs.Idle c
      · have hr := hex.idle hidle
        rw [hr] at hloop
        obtain ⟨m1, hptr, h1⟩ := hloop.ok
        have ha1 := childless h.apart.tree ha
        have hend := h1.unlink_agrees ha1 rfl
        simp only [fsNodeDestroyAux, bind, hda, Option.bind_some, href, if_false, hhead, hahead, hptr, ne_eq,
          not_true_eq_false, EspHostdriver.fsNodeDestroyAux, ha, hr]
        generalize unlink m1 (some a) = x at hend ⊢
        cases hp : nd.parent with
        | none =>
          rw [hp] at hend
          cases hend
          exact .none
        | some p =>
          rw [hp, Option.bind_some] at hend
          cases hpn : (fs.without (fs.below nd.childs)).nodes p with
          | none =>
            rw [hpn] at hend
            cases hend
            simp only [hpn]
            exact .none
          | some pn =>
            rw [hpn, Option.map_some] at hend
            simp only [hpn]
            cases hend with
            | some hsim => exact .some ⟨rfl, hsim⟩
      · obtain ⟨fs1, hr, _⟩ := hex.busy hidle
        rw [hr] at hloop
        obtain ⟨m1, hptr, h1⟩ := hloop.ok
        have hne : ¬ (-1 : ℤ) = 0 := by decide
        simp only [fsNodeDestroyAux, bind, hda, Option.bind_some, href, if_false, hhead, hahead, hptr, ne_eq, hne,
          not_false_eq_true, if_true, EspHostdriver.fsNodeDestroyAux, ha, hr]
        exact .some ⟨rfl, h1⟩

theorem destroy_agrees (h : Sim m fs) (node : Ptr) : Agree (fsNodeDestroy m node)
    (node.bind fun a => (EspHostdriver.fsNodeDestroy fs a).toOption) := by
  have hda := h.deref_node node
  have hstuck : deref m.nodes node = none → fsNodeDestroy m node = none := by
    intro hn
    simp only [fsNodeDestroy, Mem.fuel, fsNodeDestroyAux, bind, hn, Option.bind_none]
  cases node with
  | none =>
    rw [hstuck hda]
    exact .none
  | some a =>
    cases ha : fs.nodes a with
    | none =>
      rw [Option.bind_some, ha] at hda
      have herr : EspHostdriver.fsNodeDestroy fs a = .error .dangling := by
        simp only [EspHostdriver.fsNodeDestroy, EspHostdriver.fsNodeDestroyAux, ha]
      rw [hstuck hda, Option.bind_some, herr]
      exact .none
    | some nd =>
      rw [fsNodeDestroy, Mem.fuel, h.heap]
      exact destroyAux_agrees (fs.heap.next + 1) h ha (by omega)

theorem undo_agrees (h : Sim m fs) (a : Addr) :
    Agree (fsNodeUndo m (some a)) (EspHostdriver.fsNodeUndo fs a).toOption := by
  have hd := destroy_agrees h (some a)
  rw [Option.bind_some] at hd
  unfold fsNodeUndo EspHostdriver.fsNodeUndo
  cases hr : EspHostdriver.fsNodeDestroy fs a with
  | error e =>
    rw [hr] at hd
    rw [hd.stuck]
    exact .none
  | ok r =>
    rw [hr] at hd
    obtain ⟨m', hm', hsim⟩ := hd.ok
    rw [hm']
    exact .some ⟨rfl, hsim⟩

/-- a node that is made is at an address that was handed out -/
theorem make_lt {parent r : Option Addr} {name : Bytes} {nameLen : ℕ} {type : FileType} {data : Option Addr} {fsId : ℤ}
    (h : EspHostdriver.fsNodeMake fs parent name nameLen type data fsId = .ok (r, fs')) :
    fs.heap.next ≤ fs'.heap.next ∧ ∀ a, r = some a → a < fs'.heap.next := by
  unfold EspHostdriver.fsNodeMake at h
  split at h
  · cases h
    exact ⟨le_rfl, nofun⟩
  · split at h
    · cases h
      exact ⟨le_rfl, nofun⟩
    · split at h
      · rename_i hm
        obtain ⟨_, rfl⟩ := malloc_none hm
        cases h
        exact ⟨Nat.le_succ _, nofun⟩
      · rename_i hm
        obtain ⟨rfl, _, rfl⟩ := malloc_some hm
        have hlt : ∀ a, some fs.heap.next = some a → a < fs.heap.next + 1 := fun a ha =>
          Option.some.inj ha ▸ Nat.lt_succ_self _
        split at h
        · cases h
        · cases parent with
          | none =>
            cases h
            exact ⟨Nat.le_succ _, hlt⟩
          | some p =>
            dsimp only at h
            split at h
            · cases h
            · cases h
              exact ⟨Nat.le_succ _, hlt⟩

/-- calls that agree, one after the other -/
theorem Agree.bind {α β : Type} {x : Option (α × Mem)} {y : Except Fault (α × Fs)} {f : α × Mem → Option (β × Mem)}
    {g : α × Fs → Except Fault (β × Fs)} (h : Agree x y.toOption)
    (hfg : ∀ r m fs, y = .ok (r, fs) → Sim m fs → Agree (f (r, m)) (g (r, fs)).toOption) :
    Agree (x.bind f) (y >>= g).toOption := by
  cases y with
  | error e =>
    rw [h.stuck]
    exact .none
  | ok r =>
    obtain ⟨m, rfl, hs⟩ := h.ok
    exact hfg r.1 m r.2 rfl hs

/-- the links of a new directory, on sequences -/
theorem fsNodeCreate_eq (fs : Fs) (parent : Option Addr) (name : Bytes) (nameLen : ℕ) (type : FileType)
    (data : Option Addr) (fsId : ℤ) : EspHostdriver.fsNodeCreate fs parent name nameLen type data fsId =
    EspHostdriver.fsNodeMake fs parent name nameLen type data fsId >>= fun r =>
      match r.1 with
      | none => .ok r
      | some a =>
        if type ≠ .dir then .ok r
        else EspHostdriver.fsNodeMake r.2 (some a) (str ".") 1 .lnk (some a) fsId >>= fun dot =>
          if dot.1 = none then EspHostdriver.fsNodeUndo dot.2 a
          else match parent with
            | none => .ok (some a, dot.2)
            | some p =>
              match dot.2.nodes p with
              | none => .error .dangling
              | some pn =>
                EspHostdriver.fsNodeMake dot.2 (some a) (str "..") 2 .lnk (some p) pn.fsId >>= fun up =>
                  if up.1 = none then EspHostdriver.fsNodeUndo up.2 a else .ok (some a, up.2) := by
  unfold EspHostdriver.fsNodeCreate
  rcases EspHostdriver.fsNodeMake fs parent name nameLen type data fsId with e | ⟨_ | a, fs1⟩
  · rfl
  · rfl
  simp only [bind, Except.bind]
  split_ifs
  · rfl
  rcases EspHostdriver.fsNodeMake fs1 (some a) (str ".") 1 .lnk (some a) fsId with e | ⟨_ | b, fs2⟩
  · rfl
  · rfl
  cases parent with
  | none => rfl
  | some p =>
    simp only [reduceCtorEq, if_false]
    cases fs2.nodes p with
    | none => rfl
    | some pn =>
      dsimp only
      rcases EspHostdriver.fsNodeMake fs2 (some a) (str "..") 2 .lnk (some p) pn.fsId with e | ⟨_ | c, fs3⟩ <;> rfl

theorem create_agrees (h : Sim m fs) {parent : Ptr} (hp : ∀ p, parent = some p → p < fs.heap.next) (name : Bytes)
    (nameLen : ℕ) (type : FileType) (data : Option Addr) (fsId : ℤ) :
    Agree (fsNodeCreate m parent name nameLen type data fsId)
      (EspHostdriver.fsNodeCreate fs parent name nameLen type data fsId).toOption := by
  rw [fsNodeCreate_eq]
  refine (make_agrees h hp name nameLen type data fsId).bind fun r1 m1 fs1 hr1 h1 => ?_
  cases r1 with
  | none => exact .some ⟨rfl, h1⟩
  | some a =>
    have ha1 : ∀ p, some a = some p → p < fs1.heap.next := fun p he => (make_lt hr1).2 p he
    by_cases ht : type = .dir
    swap
    · simp only [reduceCtorEq, ne_eq, ht, not_false_eq_true, or_true, if_true]
      exact .some ⟨rfl, h1⟩
    simp only [reduceCtorEq, ne_eq, ht, not_true_eq_false, or_false, if_false]
    refine (make_agrees h1 ha1 (str ".") 1 .lnk (some a) fsId).bind fun r2 m2 fs2 hr2 h2 => ?_
    by_cases hr : r2 = none
    · simp only [hr, if_true]
      exact undo_agrees h2 a
    simp only [hr, if_false]
    cases parent with
    | none => exact .some ⟨rfl, h2⟩
    | some p =>
      have hdp := h2.deref_node (some p)
      rw [Option.bind_some] at hdp
      simp only [reduceCtorEq, if_false]
      cases hpn : fs2.nodes p with
      | none =>
        rw [hpn, Option.map_none] at hdp
        simp only [hdp, bind, Option.bind_none]
        exact .none
      | some pn =>
        rw [hpn, Option.map_some] at hdp
        have ha2 : ∀ q, some a = some q → q < fs2.heap.next := fun q he => lt_of_lt_of_le (ha1 q he) (make_lt hr2).1
        simp only [hdp, bind, Option.bind_some]
        refine (make_agrees h2 ha2 (str "..") 2 .lnk (some p) pn.fsId).bind fun r3 m3 fs3 _ h3 => ?_
        by_cases hr : r3 = none
        · simp only [hr, if_true]
          exact undo_agrees h3 a
        · simp only [hr, if_false]
          exact .some ⟨rfl, h3⟩

end EspHostdriver.Memory
