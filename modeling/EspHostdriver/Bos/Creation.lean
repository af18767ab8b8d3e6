/-
Exactly what `fs_node_create` does, and the trees it builds.

- `Hung`: a node was put below its parent as the last child, or next to the trees when it has none. `fsNodeMake_exact`:
  this, or nothing but an allocation, is what the call comes to up to the links of a directory.
- `Hung.without`: what was hung is taken away again with any set of nodes it belongs to, so a directory whose links
  cannot be created leaves no trace (`undo_exact`).
- `fsNodeCreate_stuck`: unless it has no parent; then its destruction follows the null parent.
- `Built`: the trees that the calls of the layer build. `Built.tree`: they are trees.
-/
import EspHostdriver.Bos.Subtree

namespace EspHostdriver

theorem parentOk_none (fs : Fs) : ParentOk fs none := nofun

theorem parentOk_some {fs : Fs} {p : Addr} {pn : FsNode} (h : fs.nodes p = some pn) : ParentOk fs (some p) := by
  intro q hq
  cases hq
  exact ⟨pn, h⟩

/-! ## A node is hung below its parent -/

inductive Hung (fs : Fs) (node : FsNode) : Fs → Prop
  | root : node.parent = none → Hung fs node
      { fs with heap := { fs.heap with next := fs.heap.next + 1 }, nodes := fs.nodes.set fs.heap.next node }
  | child {p : Addr} {pn : FsNode} : node.parent = some p → fs.nodes p = some pn → Hung fs node (addChild fs node p pn)

section Hung

variable {fs fs' : Fs} {node : FsNode} {b p : Addr} {pn nd : FsNode} {S : Set Addr}

theorem Tree.fresh_none (ht : Tree fs) (hb : fs.heap.next ≤ b) : fs.nodes b = none := by
  cases hn : fs.nodes b with
  | none => rfl
  | some nd => exact absurd (ht.fresh b nd hn) hb.not_gt

theorem Hung.rest (h : Hung fs node fs') :
    fs' = { fs with heap := { fs.heap with next := fs.heap.next + 1 }, nodes := fs'.nodes } := by
  cases h <;> rfl

theorem Hung.self (ht : Tree fs) (h : Hung fs node fs') : fs'.nodes fs.heap.next = some node := by
  cases h with
  | root hp => exact Table.set_self _ _ _
  | child hp hpn =>
    rw [addChild_apply, if_neg (ht.fresh _ _ hpn).ne', if_pos rfl]

theorem Hung.last (h : Hung fs node fs') (hp : node.parent = some p) :
    ∃ pn, fs.nodes p = some pn ∧ fs'.nodes p = some { pn with childs := pn.childs ++ [fs.heap.next] } := by
  cases h with
  | root hp' =>
    rw [hp] at hp'
    cases hp'
  | child hp' hpn =>
    rw [hp] at hp'
    cases hp'
    exact ⟨_, hpn, by rw [addChild_apply, if_pos rfl]⟩

theorem Hung.other (h : Hung fs node fs') (hb : b ≠ fs.heap.next) (hp : node.parent ≠ some b) :
    fs'.nodes b = fs.nodes b := by
  cases h with
  | root hp' => exact Table.set_ne _ _ hb
  | child hp' hpn =>
    have hne : b ≠ _ := fun he => hp (he ▸ hp')
    rw [addChild_apply, if_neg hne, if_neg hb]

theorem Hung.tree (ht : Tree fs) (h : Hung fs node fs') (hch : node.childs = []) : Tree fs' := by
  cases h with
  | root hp => exact ht.addRoot hch hp
  | child hp hpn => exact ht.addChild hch hp hpn

/-- a node that was there is still there -/
theorem Hung.live (ht : Tree fs) (h : Hung fs node fs') (hb : fs.nodes b = some nd) :
    ∃ nb, fs'.nodes b = some nb ∧ nb.refCnt = nd.refCnt := by
  have hne : b ≠ fs.heap.next := (ht.fresh b nd hb).ne
  by_cases hp : node.parent = some b
  · obtain ⟨pn, hpn, hpn'⟩ := h.last hp
    rw [hb] at hpn
    cases hpn
    exact ⟨_, hpn', rfl⟩
  · exact ⟨nd, (h.other hne hp).trans hb, rfl⟩

/-- a node that was not there before is the one that was hung -/
theorem Hung.new (h : Hung fs node fs') (hb : fs.nodes b = none) (hn : fs'.nodes b = some nd) (ht : Tree fs) : nd = node := by
  by_cases hbn : b = fs.heap.next
  · rw [hbn, h.self ht] at hn
    exact (Option.some.inj hn).symm
  · by_cases hp : node.parent = some b
    · obtain ⟨pn, hpn, _⟩ := h.last hp
      rw [hb] at hpn
      cases hpn
    · rw [h.other hbn hp, hb] at hn
      cases hn

/-- without the new node and whatever else, it is as if it had not been hung -/
theorem Hung.without (h : Hung fs node fs') (hS : fs.heap.next ∈ S) : (fs'.without S).nodes = (fs.without S).nodes := by
  funext b
  by_cases hb : b ∈ S
  · rw [without_mem hb, without_mem hb]
  · have hbn : b ≠ fs.heap.next := fun he => hb (he ▸ hS)
    by_cases hp : node.parent = some b
    · obtain ⟨pn, hpn, hpn'⟩ := h.last hp
      rw [without_some hb hpn, without_some hb hpn']
      simp [outside, hS]
    · rw [without_apply, without_apply, h.other hbn hp]

end Hung

/-! ## Up to the links -/

/-- the heap has gone on by `k` allocations -/
def Fs.skip (fs : Fs) (k : ℕ) : Fs := { fs with heap := { fs.heap with next := fs.heap.next + k } }

theorem skip_without (fs : Fs) (k : ℕ) (S : Set Addr) : ((fs.skip k).without S).nodes = (fs.without S).nodes := rfl

theorem Tree.skip {fs : Fs} (ht : Tree fs) (k : ℕ) : Tree (fs.skip k) := ht.congr (Nat.le_add_right _ k) rfl

/-- without a node, at most memory was asked for -/
theorem fsNodeMake_skip {fs fs' : Fs} {parent : Option Addr} {name : Bytes} {nameLen : ℕ} {type : FileType}
    {data : Option Addr} {fsId : ℤ} (h : fsNodeMake fs parent name nameLen type data fsId = .ok (none, fs')) :
    ∃ k, fs' = fs.skip k := by
  unfold fsNodeMake at h
  split at h
  · cases h
    exact ⟨0, rfl⟩
  · split at h
    · cases h
      exact ⟨0, rfl⟩
    · split at h
      · rename_i hm
        obtain ⟨_, rfl⟩ := malloc_none hm
        cases h
        exact ⟨1, rfl⟩
      · split at h
        · cases h
        · cases parent with
          | none => cases h
          | some p =>
            revert h
            dsimp only
            split <;> simp

/-- the node that is made -/
def newNode (f : FsT) (parent : Option Addr) (name : Bytes) (nameLen : ℕ) (type : FileType) (data : Option Addr)
    (fsId : ℤ) : FsNode :=
  ⟨fsId, f.self, data, 0, type, [], parent, (cstr name).take nameLen⟩

theorem fsNodeMake_exact {fs : Fs} {parent : Option Addr} {nameLen : ℕ} (hp : ParentOk fs parent) (hlen : nameLen ≤ 31)
    (name : Bytes) (type : FileType) (data : Option Addr) (fsId : ℤ) :
    ((fs.fsLst.find? (fun f => f.id = fsId) = none ∨ fs.heap.ok fs.heap.next = false) ∧
      ∃ k, fsNodeMake fs parent name nameLen type data fsId = .ok (none, fs.skip k)) ∨
    ∃ f fs', fs.fsLst.find? (fun f => f.id = fsId) = some f ∧ fs.heap.ok fs.heap.next = true ∧
      fsNodeMake fs parent name nameLen type data fsId = .ok (some fs.heap.next, fs') ∧
      Hung fs (newNode f parent name nameLen type data fsId) fs' := by
  have hfit : sizeT (nameLen + 1) = nameLen + 1 := sizeT_succ (by omega)
  have hsize : ¬ 32 < nameLen + 1 := by omega
  cases hf : fs.fsLst.find? fun f => f.id = fsId with
  | none => exact Or.inl ⟨Or.inl rfl, 0, by simp only [fsNodeMake, hfit, hsize, if_false, hf]; rfl⟩
  | some f =>
    cases hok : fs.heap.ok fs.heap.next with
    | false =>
      refine Or.inl ⟨Or.inr rfl, 1, ?_⟩
      simp [fsNodeMake, hfit, hsize, hf, Heap.malloc, hok, Fs.skip]
    | true =>
      cases parent with
      | none =>
        refine Or.inr ⟨f, _, rfl, rfl, ?_, Hung.root rfl⟩
        simp [fsNodeMake, hfit, hsize, hf, Heap.malloc, hok, newNode]
      | some p =>
        obtain ⟨pn, hpn⟩ := hp p rfl
        refine Or.inr ⟨f, _, rfl, rfl, ?_, Hung.child rfl hpn⟩
        simp [fsNodeMake, hfit, hsize, hf, Heap.malloc, hok, newNode, hpn, addChild]

/-! ## The way out -/

/-- the tree as it was before the call, which is over; only the heap has gone on -/
def Untouched (fs fs' : Fs) : Prop := fs' = { fs with heap := fs'.heap }

theorem untouched_skip (fs : Fs) (k : ℕ) : Untouched fs (fs.skip k) := rfl

theorem idle_new {fs fs2 : Fs} (ht2 : Tree fs2)
    (hnew : ∀ b nb, fs.heap.next ≤ b → fs2.nodes b = some nb → nb.refCnt = 0) : fs2.Idle fs.heap.next := by
  intro b hb nb hn
  exact hnew b nb (ht2.subtree_le hb) hn

/-- a new node is destroyed with everything that was created below it, and what is left is the tree before -/
theorem undo_exact {fs fs2 : Fs} {nd : FsNode} {p : Addr} (ht : Tree fs) (ht2 : Tree fs2)
    (hrest : fs2 = { fs with heap := fs2.heap, nodes := fs2.nodes }) (ha : fs2.nodes fs.heap.next = some nd)
    (hp : nd.parent = some p) (hnew : ∀ b nb, fs.heap.next ≤ b → fs2.nodes b = some nb → nb.refCnt = 0)
    (hw : (fs2.without (fs2.subtree fs.heap.next)).nodes = (fs.without (fs2.subtree fs.heap.next)).nodes) :
    ∃ fs', fsNodeUndo fs2 fs.heap.next = .ok (none, fs') ∧ Untouched fs fs' := by
  have hd := (fsNodeDestroy_exact ht2 ha hp).idle (idle_new ht2 hnew)
  refine ⟨fs2.without (fs2.subtree fs.heap.next), by rw [fsNodeUndo, hd]; rfl, ?_⟩
  have hfresh : fs.without (fs2.subtree fs.heap.next) = fs :=
    without_fresh ht fun b hb => ht.fresh_none (ht2.subtree_le hb)
  rw [hfresh] at hw
  calc fs2.without (fs2.subtree fs.heap.next)
      = { fs2 with nodes := (fs2.without (fs2.subtree fs.heap.next)).nodes } := rfl
    _ = { fs2 with nodes := fs.nodes } := by rw [hw]
    _ = { fs with heap := fs2.heap } := by rw [hrest]

/-- a directory without parent whose `.` cannot be created -/
theorem fsNodeCreate_stuck {fs fs1 : Fs} {a : Addr} {name : Bytes} {nameLen : ℕ} {data : Option Addr} {fsId : ℤ}
    (ht : Tree fs) (h1 : fsNodeMake fs none name nameLen .dir data fsId = .ok (some a, fs1))
    (hok : fs.heap.ok (fs.heap.next + 1) = false) :
    fsNodeCreate fs none name nameLen .dir data fsId = .error .nullNode := by
  obtain ⟨_, hlen, hnext⟩ := fsNodeMake_some h1
  obtain ⟨r, fs1', h1', ht1, hg1, hnode⟩ := fsNodeMake_spec ht (parentOk_none fs) hlen name .dir data fsId
  rw [h1, ok_pair] at h1'
  obtain ⟨rfl, rfl⟩ := h1'
  obtain ⟨node, hn⟩ := hnode a rfl
  obtain rfl := hn.addr
  rcases fsNodeMake_exact (parentOk_some hn.here) (show 1 ≤ 31 by omega) (str ".") .lnk (some fs.heap.next) fsId with
    ⟨_, k, h2⟩ | ⟨f, fs2, _, hok', _⟩
  · have ht2 := ht1.skip k
    have hidle : (fs1.skip k).Idle fs.heap.next :=
      idle_new ht2 fun b nb hb hnb => (hg1.made b nb hnb (ht.fresh_none hb)).2
    have hd := (fsNodeDestroy_root ht2 hn.here hn.parent).1 hidle
    simp only [fsNodeCreate, h1, ne_eq, not_true_eq_false, if_false, h2, fsNodeUndo, hd]
    rfl
  · rw [hg1.ok, hnext, hok] at hok'
    cases hok'

/-- with a length that wraps around, a call that comes back made nothing -/
theorem fsNodeMake_long {fs fs' : Fs} {parent r : Option Addr} {name : Bytes} {nameLen : ℕ} {type : FileType}
    {data : Option Addr} {fsId : ℤ} (hlen : 2 ^ 64 ≤ nameLen + 1)
    (h : fsNodeCreate fs parent name nameLen type data fsId = .ok (r, fs')) : ∃ k, fs' = fs.skip k := by
  cases h1 : fsNodeMake fs parent name nameLen type data fsId with
  | error e =>
    rw [fsNodeCreate, h1] at h
    cases h
  | ok p =>
    obtain ⟨r1, fs1⟩ := p
    cases r1 with
    | some a => exact absurd (fsNodeMake_some h1).2.1 (not_lt.2 hlen)
    | none =>
      rw [fsNodeCreate, h1] at h
      cases h
      exact fsNodeMake_skip h1

/-- a call that comes back leaves a tree -/
theorem fsNodeCreate_tree {fs fs' : Fs} {parent r : Option Addr} {name : Bytes} {nameLen : ℕ} {type : FileType}
    {data : Option Addr} {fsId : ℤ} (ht : Tree fs) (hp : ParentOk fs parent)
    (h : fsNodeCreate fs parent name nameLen type data fsId = .ok (r, fs')) : Tree fs' := by
  by_cases hlen : nameLen + 1 < 2 ^ 64
  swap
  · obtain ⟨k, h1⟩ := fsNodeMake_long (not_lt.1 hlen) h
    exact h1 ▸ ht.skip k
  by_cases hroot : parent = none → type = .dir → fs.heap.ok (fs.heap.next + 1) = true
  · obtain ⟨r', fs1, h', ht', _⟩ := fsNodeCreate_spec ht ⟨hp, hlen, hroot⟩ name data fsId
    rw [h, ok_pair] at h'
    obtain ⟨_, rfl⟩ := h'
    exact ht'
  · -- no parent, and the second allocation fails: the call did not get that far
    push Not at hroot
    obtain ⟨rfl, rfl, hok⟩ := hroot
    obtain ⟨r1, fs1, h1, ht1, _⟩ := fsNodeMake_spec ht hp hlen name .dir data fsId
    cases r1 with
    | none =>
      rw [fsNodeCreate, h1] at h
      cases h
      exact ht1
    | some a =>
      rw [fsNodeCreate_stuck ht h1 (by simpa using hok)] at h
      cases h

/-! ## The trees that are built -/

/-- what the calls of the layer make of a state without nodes: they register file systems, create and destroy nodes and
open and close descriptors, each as often as they like, as long as none of them faults -/
inductive Built : Fs → Prop
  | start {fs} : (∀ a, fs.nodes a = none) → Built fs
  | register {fs} (ops : Option FsOps) : Built fs → Built (fsRegister fs ops).2
  | create {fs fs' parent name nameLen type data fsId r} : Built fs → ParentOk fs parent →
      fsNodeCreate fs parent name nameLen type data fsId = .ok (r, fs') → Built fs'
  | destroy {fs fs' a nd r} : Built fs → fs.nodes a = some nd → fsNodeDestroy fs a = .ok (r, fs') → Built fs'
  | alloc {fs fs' node mode mask r} : Built fs → fsFdAlloc fs node mode mask = .ok (r, fs') → Built fs'
  | free {fs fs' fd} : Built fs → fsFdFree fs fd = .ok fs' → Built fs'

theorem fsRegister_nodes (fs : Fs) (ops : Option FsOps) :
    (fsRegister fs ops).2.nodes = fs.nodes ∧ fs.heap.next ≤ (fsRegister fs ops).2.heap.next := by
  unfold fsRegister
  dsimp only
  split_ifs
  · exact ⟨rfl, le_rfl⟩
  · cases ops with
    | none => exact ⟨rfl, le_rfl⟩
    | some ops =>
      dsimp only
      split_ifs
      · exact ⟨rfl, le_rfl⟩
      · split
        · rename_i hm
          obtain ⟨_, rfl⟩ := malloc_none hm
          exact ⟨rfl, Nat.le_succ _⟩
        · rename_i hm
          obtain ⟨_, _, rfl⟩ := malloc_some hm
          exact ⟨rfl, Nat.le_succ _⟩

theorem Built.tree {fs : Fs} (h : Built fs) : Tree fs := by
  induction h with
  | start hn =>
    constructor
    · intro a nd ha
      rw [hn a] at ha
      cases ha
    · intro a nd c ha
      rw [hn a] at ha
      cases ha
    · intro c cn a hc
      rw [hn c] at hc
      cases hc
    · intro a nd ha
      rw [hn a] at ha
      cases ha
  | register ops _ ih =>
    obtain ⟨hn, hnext⟩ := fsRegister_nodes _ ops
    exact ih.congr hnext hn
  | create _ hp hc ih => exact fsNodeCreate_tree ih hp hc
  | destroy _ ha hd ih => exact fsNodeDestroy_tree ih ha hd
  | alloc _ ha ih =>
    rcases fsFdAlloc_ok ha with ⟨_, rfl⟩ | ⟨n, nd, fd, rfl, hn, _, _, _, rfl⟩
    · exact ih.congr (Nat.le_succ _) rfl
    · exact ih.setRef hn _ (Nat.le_succ _) rfl
  | free _ hf ih =>
    unfold fsFdFree at hf
    split at hf
    · cases hf
    · rename_i nd hn
      cases hf
      exact ih.setRef hn _ le_rfl rfl

end EspHostdriver
