/-
Lean model of the file system layer (`bos/fs.c`): file systems, nodes and file descriptors.

The lists of the C code (`fs_lst`, `fd_lst`, `childs`) are the Lean lists of their elements in order. Nodes live in a
table, so a pointer to a node is an address and a freed node is no longer found. A null pointer is `none`.

`Fault` lists what stops a call dead: a null pointer that is dereferenced, an object that is no longer there, a read
that leaves its source (`overread`), a write that leaves its block (`overrun`).

- `fsFdAlloc_ok`, `fsNodeMake_ok`: everything a successful call may have changed.
- `fsNodeDestroy_refd`: a node that a descriptor refers to is not destroyed, and nothing changes.
-/
import EspHostdriver.Core.Heap
import EspHostdriver.Sys.Ringbuf

namespace EspHostdriver

/-! ## Model -/

inductive Fault where
  | nullFd
  | nullNode
  | nullSock
  | nullDev
  | nullDgram
  | nullStore
  | dangling
  | overread
  | overrun
  | badLink
  | badArg
  | depth
deriving DecidableEq, Repr

/-- `file_type_t` -/
inductive FileType where
  | blk
  | chr
  | dir
  | reg
  | lnk
deriving DecidableEq, Repr

/-- `fs_ops_t`: which of the callbacks that `fs_register` asks for are set -/
structure FsOps where
  opens : Bool
  closes : Bool
deriving DecidableEq, Repr

/-- `fs_t`; `self` is its address -/
structure FsT where
  self : Addr
  id : ℤ
  ops : FsOps
deriving DecidableEq, Repr

/-- `fs_node_t`; `ops` is the address of the file system the operations belong to -/
structure FsNode where
  fsId : ℤ
  ops : Addr
  data : Option Addr
  refCnt : ℕ
  type : FileType
  childs : List Addr
  parent : Option Addr
  name : Bytes
deriving DecidableEq, Repr

/-- `fs_filed_t`; `self` is its address -/
structure FsFiled where
  self : Addr
  id : ℤ
  fp : ℕ
  node : Addr
  mode : UInt32
  modeMask : UInt32
deriving DecidableEq, Repr

/-- `O_RDWR` and `O_NONBLOCK` -/
def oRdwr : UInt32 := 0xc
def oNonblock : UInt32 := 0x10

def fmodeDefault : UInt32 := oNonblock

/-- the state of the layer: its two lists, the counter of `fs_fd_alloc`, the nodes -/
structure Fs where
  heap : Heap
  fsLst : List FsT
  fdLst : List FsFiled
  fdCnt : ℤ
  nodes : Table FsNode

def fsRegister (fs : Fs) (ops : Option FsOps) : ℤ × Fs :=
  let id := match fs.fsLst.getLast? with
    | none => 0
    | some f => toInt32 (f.id + 1)
  if id < 0 then (-1, fs)
  else match ops with
    | none => (-1, fs)
    | some ops =>
      if !ops.opens || !ops.closes then (-1, fs)
      else match fs.heap.malloc with
        | (none, h) => (-1, { fs with heap := h })
        | (some a, h) => (id, { fs with heap := h, fsLst := fs.fsLst ++ [⟨a, id, ops⟩] })

def fsFdAlloc (fs : Fs) (node : Option Addr) (mode modeMask : UInt32) : Except Fault (Option FsFiled × Fs) :=
  let id := fs.fdCnt + 1
  match fs.heap.malloc with
  | (none, h) => .ok (none, { fs with heap := h, fdCnt := id })
  | (some a, h) =>
    match node with
    | none => .error .nullNode
    | some n =>
      match fs.nodes n with
      | none => .error .dangling
      | some nd =>
        let fd : FsFiled := ⟨a, id, 0, n, (mode &&& ~~~modeMask) ||| (fmodeDefault &&& modeMask), modeMask⟩
        .ok (some fd, { fs with
          heap := h, fdCnt := id, fdLst := fs.fdLst ++ [fd], nodes := fs.nodes.set n { nd with refCnt := nd.refCnt + 1 } })

def fsFdFree (fs : Fs) (fd : FsFiled) : Except Fault Fs :=
  match fs.nodes fd.node with
  | none => .error .dangling
  | some nd => .ok { fs with
      fdLst := fs.fdLst.filter fun f => f.self ≠ fd.self, nodes := fs.nodes.set fd.node { nd with refCnt := nd.refCnt - 1 } }

def fsFdAcquire (fs : Fs) (id : ℤ) : Option FsFiled := fs.fdLst.find? fun fd => fd.id = id

/-- `fs_node_create` up to the links of a directory -/
def fsNodeMake (fs : Fs) (parent : Option Addr) (name : Bytes) (nameLen : ℕ) (type : FileType) (data : Option Addr)
    (fsId : ℤ) : Except Fault (Option Addr × Fs) :=
  if 32 < sizeT (nameLen + 1) then .ok (none, fs)
  else match fs.fsLst.find? fun f => f.id = fsId with
    | none => .ok (none, fs)
    | some f =>
      match fs.heap.malloc with
      | (none, h) => .ok (none, { fs with heap := h })
      | (some a, h) =>
        -- the length SIZE_MAX passes the check; `strncpy` pads to it, and the block has no room for a name
        if sizeT (nameLen + 1) < nameLen + 1 then .error .overrun
        else
          let node : FsNode := ⟨fsId, f.self, data, 0, type, [], parent, (cstr name).take nameLen⟩
          match parent with
          | none => .ok (some a, { fs with heap := h, nodes := fs.nodes.set a node })
          | some p =>
            match fs.nodes p with
            | none => .error .dangling
            | some pn => .ok (some a, { fs with
                heap := h, nodes := (fs.nodes.set a node).set p { pn with childs := pn.childs ++ [a] } })

/-- the loop over the children: go on while they are destroyed -/
def destroyChilds (destroy : Fs → Addr → Except Fault (ℤ × Fs)) : Fs → List Addr → Except Fault (ℤ × Fs)
  | fs, [] => .ok (0, fs)
  | fs, c :: cs =>
    match destroy fs c with
    | .error e => .error e
    | .ok (r, fs) => if r ≠ 0 then .ok (-1, fs) else destroyChilds destroy fs cs

/-- `depth` bounds the height of the tree -/
def fsNodeDestroyAux : ℕ → Fs → Addr → Except Fault (ℤ × Fs)
  | 0, _, _ => .error .depth
  | depth + 1, fs, a =>
    match fs.nodes a with
    | none => .error .dangling
    | some nd =>
      if 0 < nd.refCnt then .ok (-1, fs)
      else match destroyChilds (fsNodeDestroyAux depth) fs nd.childs with
        | .error e => .error e
        | .ok (r, fs) =>
          if r ≠ 0 then .ok (-1, fs)
          else match nd.parent with
            | none => .error .nullNode
            | some p =>
              match fs.nodes p with
              | none => .error .dangling
              | some pn => .ok (0, { fs with
                  nodes := (fs.nodes.set p { pn with childs := pn.childs.filter (· ≠ a) }).free a })

/-- a tree is at most as high as there are addresses -/
def fsNodeDestroy (fs : Fs) (a : Addr) : Except Fault (ℤ × Fs) := fsNodeDestroyAux (fs.heap.next + 1) fs a

/-- the way out of `fs_node_create` when a link could not be created -/
def fsNodeUndo (fs : Fs) (a : Addr) : Except Fault (Option Addr × Fs) :=
  (fsNodeDestroy fs a).map fun r => (none, r.2)

def fsNodeCreate (fs : Fs) (parent : Option Addr) (name : Bytes) (nameLen : ℕ) (type : FileType) (data : Option Addr)
    (fsId : ℤ) : Except Fault (Option Addr × Fs) :=
  match fsNodeMake fs parent name nameLen type data fsId with
  | .error e => .error e
  | .ok (none, fs) => .ok (none, fs)
  | .ok (some a, fs) =>
    if type ≠ .dir then .ok (some a, fs)
    -- the links are no directories themselves, so the recursion ends here
    else match fsNodeMake fs (some a) (str ".") 1 .lnk (some a) fsId with
      | .error e => .error e
      | .ok (none, fs) => fsNodeUndo fs a
      | .ok (some _, fs) =>
        match parent with
        | none => .ok (some a, fs)
        | some p =>
          match fs.nodes p with
          | none => .error .dangling
          | some pn =>
            match fsNodeMake fs (some a) (str "..") 2 .lnk (some p) pn.fsId with
            | .error e => .error e
            | .ok (none, fs) => fsNodeUndo fs a
            | .ok (some _, fs) => .ok (some a, fs)

/-! ## What a call may have changed -/

theorem malloc_some {h h' : Heap} {a : Addr} (hm : h.malloc = (some a, h')) :
    a = h.next ∧ h.ok h.next = true ∧ h' = { h with next := h.next + 1 } := by
  simp only [Heap.malloc, Prod.mk.injEq] at hm
  obtain ⟨h1, h2⟩ := hm
  split_ifs at h1 with hk
  · cases h1; exact ⟨rfl, hk, h2.symm⟩

theorem malloc_none {h h' : Heap} (hm : h.malloc = (none, h')) :
    h.ok h.next = false ∧ h' = { h with next := h.next + 1 } := by
  simp only [Heap.malloc, Prod.mk.injEq] at hm
  obtain ⟨h1, h2⟩ := hm
  split_ifs at h1 with hk
  exact ⟨by simpa using hk, h2.symm⟩

/-- a length that does not wrap around stays in its block -/
theorem sizeT_succ {n : ℕ} (h : n + 1 < 2 ^ 64) : sizeT (n + 1) = n + 1 := by
  rw [sizeT]
  omega

/-- a successful allocation of a descriptor: a fresh id, one more reference on the node, nothing else -/
theorem fsFdAlloc_ok {fs fs' : Fs} {node : Option Addr} {mode mask : UInt32} {r : Option FsFiled}
    (h : fsFdAlloc fs node mode mask = .ok (r, fs')) :
    (r = none ∧ fs' = { fs with heap := { fs.heap with next := fs.heap.next + 1 }, fdCnt := fs.fdCnt + 1 }) ∨
    ∃ n nd fd, node = some n ∧ fs.nodes n = some nd ∧ r = some fd ∧ fd.id = fs.fdCnt + 1 ∧ fd.node = n ∧
      fs' = { fs with
        heap := { fs.heap with next := fs.heap.next + 1 }, fdCnt := fs.fdCnt + 1, fdLst := fs.fdLst ++ [fd],
        nodes := fs.nodes.set n { nd with refCnt := nd.refCnt + 1 } } := by
  unfold fsFdAlloc at h
  split at h
  · rename_i hm
    obtain ⟨_, rfl⟩ := malloc_none hm
    cases h; exact Or.inl ⟨rfl, rfl⟩
  · rename_i a _ hm
    obtain ⟨rfl, _, rfl⟩ := malloc_some hm
    cases node with
    | none => cases h
    | some n =>
      cases hn : fs.nodes n with
      | none => simp [hn] at h
      | some nd =>
        simp only [hn, Except.ok.injEq, Prod.mk.injEq] at h
        obtain ⟨rfl, rfl⟩ := h
        exact Or.inr ⟨n, nd, _, rfl, hn, rfl, rfl, rfl, rfl⟩

/-- a node that is not a directory is made without links -/
theorem fsNodeCreate_leaf {type : FileType} (ht : type ≠ .dir) (fs : Fs) (parent : Option Addr) (name : Bytes)
    (nameLen : ℕ) (data : Option Addr) (fsId : ℤ) :
    fsNodeCreate fs parent name nameLen type data fsId = fsNodeMake fs parent name nameLen type data fsId := by
  unfold fsNodeCreate
  cases h : fsNodeMake fs parent name nameLen type data fsId with
  | error e => rfl
  | ok r =>
    obtain ⟨a, fs1⟩ := r
    cases a with
    | none => rfl
    | some a => simp [ht]

/-- a successful creation below a parent: nothing, or a fresh node as last child of the parent -/
theorem fsNodeMake_ok {fs fs' : Fs} {p : Addr} {name : Bytes} {nameLen : ℕ} {type : FileType} {data : Option Addr}
    {fsId : ℤ} {r : Option Addr} (h : fsNodeMake fs (some p) name nameLen type data fsId = .ok (r, fs')) :
    (r = none ∧ ∃ k, fs' = { fs with heap := { fs.heap with next := fs.heap.next + k } }) ∨
    ∃ pn f, fs.nodes p = some pn ∧ f ∈ fs.fsLst ∧ r = some fs.heap.next ∧
      fs' = { fs with
        heap := { fs.heap with next := fs.heap.next + 1 },
        nodes := (fs.nodes.set fs.heap.next
          ⟨fsId, f.self, data, 0, type, [], some p, (cstr name).take nameLen⟩).set p
            { pn with childs := pn.childs ++ [fs.heap.next] } } := by
  unfold fsNodeMake at h
  split at h
  · cases h; exact Or.inl ⟨rfl, 0, rfl⟩
  · split at h
    · cases h; exact Or.inl ⟨rfl, 0, rfl⟩
    · rename_i f hf
      split at h
      · rename_i hm
        obtain ⟨_, rfl⟩ := malloc_none hm
        cases h; exact Or.inl ⟨rfl, 1, rfl⟩
      · rename_i a _ hm
        obtain ⟨rfl, _, rfl⟩ := malloc_some hm
        split at h
        · cases h
        · cases hp : fs.nodes p with
          | none => simp [hp] at h
          | some pn =>
            simp only [hp, Except.ok.injEq, Prod.mk.injEq] at h
            obtain ⟨rfl, rfl⟩ := h
            exact Or.inr ⟨pn, f, rfl, List.mem_of_find?_eq_some hf, rfl, rfl⟩

/-- a node in use is not destroyed -/
theorem fsNodeDestroy_refd {fs : Fs} {a : Addr} {nd : FsNode} (hn : fs.nodes a = some nd) (hr : 0 < nd.refCnt) :
    fsNodeDestroy fs a = .ok (-1, fs) := by
  simp [fsNodeDestroy, fsNodeDestroyAux, hn, hr]

end EspHostdriver
