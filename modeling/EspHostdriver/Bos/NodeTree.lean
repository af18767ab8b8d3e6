/-
The tree of nodes (`bos/fs.c`): what `fs_node_create` adds to it and what `fs_node_destroy`, which may stop half-way,
takes away.

- `Tree`: parents and children agree, a child hangs below one parent once, and a parent is older than its children. So
  the recursion of `fs_node_destroy` ends before its depth is used up.
- `Pruned`: what is left after a destruction. Only nodes without references are gone, and a node that is left differs in
  its list of children at most.
- `fsNodeDestroy_spec`: destroying a node that has a parent completes, prunes the tree and leaves a tree.
- `fsNodeMake_spec`, `fsNodeCreate_spec`: creating a node completes and leaves a tree, also when a link of a directory
  cannot be created and the directory is destroyed again.
- `Edited`: what both have in common for the descriptors.
-/
import EspHostdriver.Bos.Fs

namespace EspHostdriver

/-! ## Trees -/

structure Tree (fs : Fs) : Prop where
  fresh : ∀ (a : ℕ) nd, fs.nodes a = some nd → a < fs.heap.next
  down : ∀ (a : ℕ) nd (c : ℕ), fs.nodes a = some nd → c ∈ nd.childs → a < c ∧ ∃ cn, fs.nodes c = some cn ∧ cn.parent = some a
  up : ∀ c cn a, fs.nodes c = some cn → cn.parent = some a → ∃ nd, fs.nodes a = some nd ∧ c ∈ nd.childs
  once : ∀ a nd, fs.nodes a = some nd → nd.childs.Nodup

theorem Tree.parent_lt {fs : Fs} (h : Tree fs) {c p : ℕ} {cn : FsNode} (hc : fs.nodes c = some cn)
    (hp : cn.parent = some p) : p < c := by
  obtain ⟨nd, hn, hm⟩ := h.up c cn p hc hp
  exact (h.down p nd c hn hm).1

/-- the count of a node is not part of the tree -/
theorem Tree.setRef {fs fs' : Fs} {n : Addr} {nd : FsNode} (h : Tree fs) (hn : fs.nodes n = some nd) (k : ℕ)
    (hnext : fs.heap.next ≤ fs'.heap.next) (hnodes : fs'.nodes = fs.nodes.set n { nd with refCnt := k }) : Tree fs' := by
  have hold : ∀ b nb, fs'.nodes b = some nb → ∃ nb', fs.nodes b = some nb' ∧ nb.childs = nb'.childs ∧
      nb.parent = nb'.parent := by
    intro b nb hb
    rw [hnodes, Table.set_apply] at hb
    split_ifs at hb with h1
    · cases hb
      exact ⟨nd, h1 ▸ hn, rfl, rfl⟩
    · exact ⟨nb, hb, rfl, rfl⟩
  have hnew : ∀ b nb, fs.nodes b = some nb → ∃ nb', fs'.nodes b = some nb' ∧ nb'.childs = nb.childs ∧
      nb'.parent = nb.parent := by
    intro b nb hb
    rw [hnodes, Table.set_apply]
    split_ifs with h1
    · rw [h1, hn] at hb
      cases hb
      exact ⟨_, rfl, rfl, rfl⟩
    · exact ⟨nb, hb, rfl, rfl⟩
  constructor
  · intro a na ha
    obtain ⟨na', ha', _⟩ := hold a na ha
    exact lt_of_lt_of_le (h.fresh a na' ha') hnext
  · intro a na c ha hc
    obtain ⟨na', ha', hch, _⟩ := hold a na ha
    obtain ⟨hlt, cn, hcn, hcp⟩ := h.down a na' c ha' (hch ▸ hc)
    obtain ⟨cn', hcn', _, hpar⟩ := hnew c cn hcn
    exact ⟨hlt, cn', hcn', hpar.trans hcp⟩
  · intro c cn a hc ha
    obtain ⟨cn', hcn', _, hpar⟩ := hold c cn hc
    obtain ⟨na, hna, hm⟩ := h.up c cn' a hcn' (hpar ▸ ha)
    obtain ⟨na', hna', hch, _⟩ := hnew a na hna
    exact ⟨na', hna', hch ▸ hm⟩
  · intro a na ha
    obtain ⟨na', ha', hch, _⟩ := hold a na ha
    rw [hch]
    exact h.once a na' ha'

/-- the nodes that may be gone are those `P` allows, by address and parent -/
structure Pruned (fs fs' : Fs) (P : Addr → Option Addr → Prop) : Prop where
  rest : fs' = { fs with nodes := fs'.nodes }
  kept : ∀ b nb, fs'.nodes b = some nb → ∃ nd, fs.nodes b = some nd ∧ nb.refCnt = nd.refCnt ∧ nb.parent = nd.parent
  gone : ∀ b nd, fs.nodes b = some nd → fs'.nodes b = none → nd.refCnt = 0 ∧ P b nd.parent

theorem Pruned.refl (fs : Fs) (P : Addr → Option Addr → Prop) : Pruned fs fs P := by
  refine ⟨rfl, fun b nb hb => ⟨nb, hb, rfl, rfl⟩, fun b nd hb hn => ?_⟩
  rw [hb] at hn
  cases hn

theorem Pruned.mono {fs fs' : Fs} {P Q : Addr → Option Addr → Prop} (h : Pruned fs fs' P) (hPQ : ∀ b p, P b p → Q b p) :
    Pruned fs fs' Q := by
  refine ⟨h.rest, h.kept, fun b nd hb hn => ?_⟩
  obtain ⟨h0, hP⟩ := h.gone b nd hb hn
  exact ⟨h0, hPQ _ _ hP⟩

theorem Pruned.trans {fs fs1 fs2 : Fs} {P : Addr → Option Addr → Prop} (h1 : Pruned fs fs1 P) (h2 : Pruned fs1 fs2 P) :
    Pruned fs fs2 P := by
  refine ⟨?_, ?_, ?_⟩
  · rw [h2.rest, h1.rest]
  · intro b nb hb
    obtain ⟨n1, hb1, hr1, hp1⟩ := h2.kept b nb hb
    obtain ⟨nd, hbd, hrd, hpd⟩ := h1.kept b n1 hb1
    exact ⟨nd, hbd, hr1.trans hrd, hp1.trans hpd⟩
  · intro b nd hb hn
    cases hb1 : fs1.nodes b with
    | none => exact h1.gone b nd hb hb1
    | some n1 =>
      obtain ⟨nd', hbd, hrd, hpd⟩ := h1.kept b n1 hb1
      rw [hb] at hbd
      cases hbd
      rw [← hrd, ← hpd]
      exact h2.gone b n1 hb1 hn

theorem Pruned.left {fs fs' : Fs} {P : Addr → Option Addr → Prop} (h : Pruned fs fs' P) {b : Addr} {nd : FsNode}
    (hb : fs.nodes b = some nd) (hP : ¬ P b nd.parent) :
    ∃ nb, fs'.nodes b = some nb ∧ nb.refCnt = nd.refCnt ∧ nb.parent = nd.parent := by
  cases hb' : fs'.nodes b with
  | none => exact absurd (h.gone b nd hb hb').2 hP
  | some nb =>
    obtain ⟨nd', hbd, hr, hp⟩ := h.kept b nb hb'
    rw [hb] at hbd
    cases hbd
    exact ⟨nb, rfl, hr, hp⟩

/-! ## Destroying -/

/-- `a` or something below it -/
def FromTop (a : ℕ) (b : Addr) (p : Option Addr) : Prop := b = a ∨ ∃ q : ℕ, p = some q ∧ a ≤ q

/-- something below `a` -/
def Below (a : ℕ) (_ : Addr) (p : Option Addr) : Prop := ∃ q : ℕ, p = some q ∧ a ≤ q

/-- the end of `fs_node_destroy`: a node without children is taken out -/
def freeNode (fs : Fs) (a p : Addr) (pn : FsNode) : Fs :=
  { fs with nodes := (fs.nodes.set p { pn with childs := pn.childs.filter (· ≠ a) }).free a }

section Free

variable {fs : Fs} {a p : Addr} {nd pn : FsNode}

theorem freeNode_apply (b : Addr) : (freeNode fs a p pn).nodes b =
    if b = a then none else if b = p then some { pn with childs := pn.childs.filter (· ≠ a) } else fs.nodes b := by
  simp only [freeNode, Table.free, Table.set_apply]

theorem freeNode_pruned (ha : fs.nodes a = some nd) (hr : nd.refCnt = 0) (hp : fs.nodes p = some pn) :
    Pruned fs (freeNode fs a p pn) (FromTop a) := by
  refine ⟨rfl, fun b nb hb => ?_, fun b nb hb hn => ?_⟩
  · rw [freeNode_apply] at hb
    split_ifs at hb with h1 h2
    · cases hb
      exact ⟨pn, h2 ▸ hp, rfl, rfl⟩
    · exact ⟨nb, hb, rfl, rfl⟩
  · rw [freeNode_apply] at hn
    split_ifs at hn with h1 h2
    · subst h1
      rw [ha] at hb
      cases hb
      exact ⟨hr, Or.inl rfl⟩
    · rw [hb] at hn
      cases hn

/-- a node that nobody calls its parent leaves a tree behind -/
theorem Tree.freeNode (h : Tree fs) (ha : fs.nodes a = some nd) (hp : nd.parent = some p) (hpn : fs.nodes p = some pn)
    (hleaf : ∀ b nb, fs.nodes b = some nb → nb.parent ≠ some a) : Tree (freeNode fs a p pn) := by
  -- a node of the new tree is an old one, with `a` struck off the children
  have hold : ∀ b nb, (EspHostdriver.freeNode fs a p pn).nodes b = some nb →
      b ≠ a ∧ ∃ nd', fs.nodes b = some nd' ∧ nb.parent = nd'.parent ∧ nb.childs = nd'.childs.filter (· ≠ a) := by
    intro b nb hb
    rw [freeNode_apply] at hb
    split_ifs at hb with h1 h2
    · cases hb
      exact ⟨h1, pn, h2 ▸ hpn, rfl, rfl⟩
    · refine ⟨h1, nb, hb, rfl, (List.filter_eq_self.2 fun c hc => ?_).symm⟩
      obtain ⟨_, cn, hcn, hcp⟩ := h.down b nb c hb hc
      refine decide_eq_true fun hca => h2 ?_
      subst hca
      rw [ha] at hcn
      cases hcn
      rw [hp] at hcp
      exact (Option.some.inj hcp).symm
  have hnew : ∀ b nb, fs.nodes b = some nb → b ≠ a → ∃ nb', (EspHostdriver.freeNode fs a p pn).nodes b = some nb' ∧
      nb'.parent = nb.parent ∧ nb'.childs = nb.childs.filter (· ≠ a) := by
    intro b nb hb hba
    cases hb' : (EspHostdriver.freeNode fs a p pn).nodes b with
    | none =>
      rw [freeNode_apply, if_neg hba] at hb'
      split_ifs at hb'
      rw [hb] at hb'
      cases hb'
    | some nb' =>
      obtain ⟨_, nd', hnd, hpar, hch⟩ := hold b nb' hb'
      rw [hb] at hnd
      cases hnd
      exact ⟨nb', rfl, hpar, hch⟩
  constructor
  · intro b nb hb
    obtain ⟨_, nd', hnd, _⟩ := hold b nb hb
    exact h.fresh b nd' hnd
  · intro b nb c hb hc
    obtain ⟨_, nd', hnd, _, hch⟩ := hold b nb hb
    rw [hch, List.mem_filter] at hc
    obtain ⟨hlt, cn, hcn, hcp⟩ := h.down b nd' c hnd hc.1
    obtain ⟨cn', hcn', hpar, _⟩ := hnew c cn hcn (of_decide_eq_true hc.2)
    exact ⟨hlt, cn', hcn', hpar.trans hcp⟩
  · intro c cn b hc hb
    obtain ⟨hca, nd', hnd, hpar, _⟩ := hold c cn hc
    rw [hpar] at hb
    obtain ⟨bn, hbn, hm⟩ := h.up c nd' b hnd hb
    have hba : b ≠ a := fun he => hleaf c nd' hnd (he ▸ hb)
    obtain ⟨bn', hbn', _, hch⟩ := hnew b bn hbn hba
    refine ⟨bn', hbn', ?_⟩
    rw [hch, List.mem_filter]
    exact ⟨hm, decide_eq_true hca⟩
  · intro b nb hb
    obtain ⟨_, nd', hnd, _, hch⟩ := hold b nb hb
    rw [hch]
    exact (h.once b nd' hnd).filter _

end Free

/-- what a call of `fs_node_destroy` on a node with a parent comes to -/
def DestroySpec (destroy : Fs → Addr → Except Fault (ℤ × Fs)) (fs : Fs) (a : Addr) : Prop :=
  ∃ r fs', destroy fs a = .ok (r, fs') ∧ Tree fs' ∧ Pruned fs fs' (FromTop a) ∧ (r = 0 → fs'.nodes a = none)

/-- the loop over the children, when each of them is destroyed as specified -/
theorem destroyChilds_spec {destroy : Fs → Addr → Except Fault (ℤ × Fs)} {a next : Addr}
    (hd : ∀ fs c cn, Tree fs → fs.heap.next = next → fs.nodes c = some cn → cn.parent = some a → DestroySpec destroy fs c)
    (cs : List Addr) (fs : Fs) (ht : Tree fs) (hnext : fs.heap.next = next) (hn : cs.Nodup)
    (hcs : ∀ c ∈ cs, ∃ cn, fs.nodes c = some cn ∧ cn.parent = some a) :
    ∃ r fs', destroyChilds destroy fs cs = .ok (r, fs') ∧ Tree fs' ∧ Pruned fs fs' (Below a) ∧
      (r = 0 → ∀ c ∈ cs, fs'.nodes c = none) := by
  induction cs generalizing fs with
  | nil => exact ⟨0, fs, rfl, ht, Pruned.refl fs _, fun _ c hc => by simp at hc⟩
  | cons c cs ih =>
    obtain ⟨cn, hcn, hcp⟩ := hcs c List.mem_cons_self
    have hac := ht.parent_lt hcn hcp
    obtain ⟨r1, fs1, hr1, ht1, hp1, hz1⟩ := hd fs c cn ht hnext hcn hcp
    -- what goes with the child lies below `a`
    have hp1' : Pruned fs fs1 (Below a) := by
      refine ⟨hp1.rest, hp1.kept, fun b nd hb hnone => ?_⟩
      obtain ⟨h0, htop⟩ := hp1.gone b nd hb hnone
      refine ⟨h0, ?_⟩
      rcases htop with rfl | ⟨q, hq, hcq⟩
      · rw [hcn] at hb
        cases hb
        exact ⟨a, hcp, le_rfl⟩
      · exact ⟨q, hq, hac.le.trans hcq⟩
    by_cases h0 : r1 = 0
    · have hnext1 : fs1.heap.next = next := by rw [hp1.rest]; exact hnext
      have hcs1 : ∀ d ∈ cs, ∃ dn, fs1.nodes d = some dn ∧ dn.parent = some a := by
        intro d hd'
        obtain ⟨dn, hdn, hdp⟩ := hcs d (List.mem_cons_of_mem c hd')
        have hne : d ≠ c := fun he => (List.nodup_cons.1 hn).1 (he ▸ hd')
        obtain ⟨dn', hdn', _, hdp'⟩ := hp1.left hdn (by
          rintro (he | ⟨q, hq, hcq⟩)
          · exact hne he
          · rw [hdp] at hq
            cases hq
            omega)
        exact ⟨dn', hdn', hdp'.trans hdp⟩
      obtain ⟨r2, fs2, hr2, ht2, hp2, hz2⟩ := ih fs1 ht1 hnext1 (List.nodup_cons.1 hn).2 hcs1
      refine ⟨r2, fs2, ?_, ht2, hp1'.trans hp2, fun hr => ?_⟩
      · simp only [destroyChilds, hr1, h0, ne_eq, not_true_eq_false, if_false, hr2]
      · intro d hd'
        rcases List.mem_cons.1 hd' with rfl | hd'
        · cases hdn : fs2.nodes d with
          | none => rfl
          | some dn =>
            obtain ⟨dn', hdn', _⟩ := hp2.kept d dn hdn
            rw [hz1 h0] at hdn'
            cases hdn'
        · exact hz2 hr d hd'
    · refine ⟨-1, fs1, ?_, ht1, hp1', fun hr => by simp at hr⟩
      simp only [destroyChilds, hr1, ne_eq, h0, not_false_eq_true, if_true]

theorem fsNodeDestroyAux_spec (depth : ℕ) (fs : Fs) (a p : Addr) (nd : FsNode) (ht : Tree fs) (ha : fs.nodes a = some nd)
    (hp : nd.parent = some p) (hdepth : fs.heap.next ≤ a + depth) : DestroySpec (fsNodeDestroyAux depth) fs a := by
  induction depth generalizing fs a p nd with
  | zero =>
    have hfresh := ht.fresh a nd ha
    omega
  | succ depth ih =>
    by_cases href : 0 < nd.refCnt
    · exact ⟨-1, fs, by simp [fsNodeDestroyAux, ha, href], ht, Pruned.refl fs _, fun hr => by simp at hr⟩
    have hr0 : nd.refCnt = 0 := by omega
    have hd : ∀ fs1 c cn, Tree fs1 → fs1.heap.next = fs.heap.next → fs1.nodes c = some cn → cn.parent = some a →
        DestroySpec (fsNodeDestroyAux depth) fs1 c := by
      intro fs1 c cn ht1 hnext hcn hcp
      have hac := ht1.parent_lt hcn hcp
      exact ih fs1 c a cn ht1 hcn hcp (by omega)
    obtain ⟨r1, fs1, hr1, ht1, hp1, hz1⟩ := destroyChilds_spec hd nd.childs fs ht rfl (ht.once a nd ha)
      fun c hc => (ht.down a nd c ha hc).2
    have hpa := ht.parent_lt ha hp
    have hp1' : Pruned fs fs1 (FromTop a) := hp1.mono fun b q hq => Or.inr hq
    by_cases h0 : r1 = 0
    · -- the node itself is still there: nothing but its descendants went
      obtain ⟨nd1, ha1, hr01, hpar1⟩ := hp1.left ha (by
        rintro ⟨q, hq, haq⟩
        rw [hp] at hq
        cases hq
        omega)
      obtain ⟨pn, hpn, _⟩ := ht1.up a nd1 p ha1 (hpar1.trans hp)
      have hleaf : ∀ b nb, fs1.nodes b = some nb → nb.parent ≠ some a := by
        intro b nb hb hbp
        obtain ⟨nd', hnd, _, hpar⟩ := hp1.kept b nb hb
        obtain ⟨an, han, hm⟩ := ht.up b nd' a hnd (hpar ▸ hbp)
        rw [ha] at han
        cases han
        rw [hz1 h0 b hm] at hb
        cases hb
      refine ⟨0, freeNode fs1 a p pn, ?_, ht1.freeNode ha1 (hpar1.trans hp) hpn hleaf,
        hp1'.trans (freeNode_pruned ha1 (hr01.trans hr0) hpn), fun _ => ?_⟩
      · simp only [fsNodeDestroyAux, ha, href, if_false, hr1, h0, ne_eq, not_true_eq_false, hp, hpn, freeNode]
      · rw [freeNode_apply, if_pos rfl]
    · refine ⟨-1, fs1, ?_, ht1, hp1', fun hr => by simp at hr⟩
      simp only [fsNodeDestroyAux, ha, href, if_false, hr1, ne_eq, h0, not_false_eq_true, if_true]

/-- **Destroying a node below another one completes** and leaves a tree without some of the nodes nobody refers to. -/
theorem fsNodeDestroy_spec {fs : Fs} {a p : Addr} {nd : FsNode} (ht : Tree fs) (ha : fs.nodes a = some nd)
    (hp : nd.parent = some p) : DestroySpec fsNodeDestroy fs a :=
  fsNodeDestroyAux_spec (fs.heap.next + 1) fs a p nd ht ha hp (by omega)

/-! ## Creating -/

/-- the parent that is asked for, if any, is there -/
def ParentOk (fs : Fs) (parent : Option Addr) : Prop := ∀ p, parent = some p → ∃ pn, fs.nodes p = some pn

/-- what a creation may have changed: a new node without references, and one more child of its parent -/
structure Grown (fs fs' : Fs) : Prop where
  ok : fs'.heap.ok = fs.heap.ok
  next : fs.heap.next ≤ fs'.heap.next
  fsLst : fs'.fsLst = fs.fsLst
  fdLst : fs'.fdLst = fs.fdLst
  fdCnt : fs'.fdCnt = fs.fdCnt
  old : ∀ b nd, fs.nodes b = some nd → ∃ nb, fs'.nodes b = some nb ∧ nb.refCnt = nd.refCnt ∧ nb.parent = nd.parent
  made : ∀ b nb, fs'.nodes b = some nb → fs.nodes b = none → fs.heap.next ≤ b ∧ nb.refCnt = 0

theorem Grown.heapOnly (fs : Fs) (k : ℕ) : Grown fs { fs with heap := { fs.heap with next := fs.heap.next + k } } := by
  refine ⟨rfl, Nat.le_add_right _ k, rfl, rfl, rfl, fun b nd hb => ⟨nd, hb, rfl, rfl⟩, fun b nb hb hn => ?_⟩
  rw [show fs.nodes b = some nb from hb] at hn
  cases hn

theorem Tree.congr {fs fs' : Fs} (h : Tree fs) (hnext : fs.heap.next ≤ fs'.heap.next) (hnodes : fs'.nodes = fs.nodes) :
    Tree fs' := by
  constructor <;> rw [hnodes]
  · exact fun a nd ha => lt_of_lt_of_le (h.fresh a nd ha) hnext
  · exact h.down
  · exact h.up
  · exact h.once

section Make

variable {fs : Fs} {node : FsNode}

/-- a node without parent is put next to the trees -/
theorem Tree.addRoot (h : Tree fs) (hch : node.childs = []) (hp : node.parent = none) :
    Tree { fs with heap := { fs.heap with next := fs.heap.next + 1 }, nodes := fs.nodes.set fs.heap.next node } := by
  constructor
  · intro a nd ha
    simp only [Table.set_apply] at ha
    split_ifs at ha with h1
    · rw [h1]
      exact Nat.lt_succ_self _
    · exact Nat.lt_succ_of_lt (h.fresh a nd ha)
  · intro a nd c ha hc
    simp only [Table.set_apply] at ha
    split_ifs at ha with h1
    · cases ha
      rw [hch] at hc
      simp at hc
    · obtain ⟨hlt, cn, hcn, hcp⟩ := h.down a nd c ha hc
      have hcne : c ≠ fs.heap.next := (h.fresh c cn hcn).ne
      exact ⟨hlt, cn, (Table.set_ne _ _ hcne).trans hcn, hcp⟩
  · intro c cn a hc ha
    simp only [Table.set_apply] at hc
    split_ifs at hc with h1
    · cases hc
      rw [hp] at ha
      cases ha
    · obtain ⟨nd, hnd, hm⟩ := h.up c cn a hc ha
      have hane : a ≠ fs.heap.next := (h.fresh a nd hnd).ne
      exact ⟨nd, (Table.set_ne _ _ hane).trans hnd, hm⟩
  · intro a nd ha
    simp only [Table.set_apply] at ha
    split_ifs at ha with h1
    · cases ha
      rw [hch]
      exact List.nodup_nil
    · exact h.once a nd ha

/-- a node is hung below another one, as its last child -/
def addChild (fs : Fs) (node : FsNode) (p : Addr) (pn : FsNode) : Fs :=
  { fs with
    heap := { fs.heap with next := fs.heap.next + 1 }
    nodes := (fs.nodes.set fs.heap.next node).set p { pn with childs := pn.childs ++ [fs.heap.next] } }

variable {p : ℕ} {pn : FsNode}

theorem addChild_apply (b : Addr) : (addChild fs node p pn).nodes b =
    if b = p then some { pn with childs := pn.childs ++ [fs.heap.next] }
    else if b = fs.heap.next then some node else fs.nodes b := by
  simp only [addChild, Table.set_apply]

theorem Tree.addChild (h : Tree fs) (hch : node.childs = []) (hp : node.parent = some p) (hpn : fs.nodes p = some pn) :
    Tree (addChild fs node p pn) := by
  have hpfresh := h.fresh p pn hpn
  -- an old node is still there, with the same parent
  have hold : ∀ b nb, fs.nodes b = some nb → ∃ nb', (EspHostdriver.addChild fs node p pn).nodes b = some nb' ∧
      nb'.parent = nb.parent ∧ ∀ c ∈ nb.childs, c ∈ nb'.childs := by
    intro b nb hb
    have hbne : b ≠ fs.heap.next := (h.fresh b nb hb).ne
    rw [addChild_apply, if_neg hbne]
    split_ifs with h1
    · subst h1
      rw [hb] at hpn
      cases hpn
      exact ⟨_, rfl, rfl, fun c hc => List.mem_append_left _ hc⟩
    · exact ⟨nb, hb, rfl, fun c hc => hc⟩
  have hself : (EspHostdriver.addChild fs node p pn).nodes fs.heap.next = some node := by
    rw [addChild_apply, if_neg hpfresh.ne', if_pos rfl]
  constructor
  · intro a nd ha
    show a < fs.heap.next + 1
    rw [addChild_apply] at ha
    split_ifs at ha with h1 h2
    · rw [h1]
      exact Nat.lt_succ_of_lt hpfresh
    · rw [h2]
      exact Nat.lt_succ_self _
    · exact Nat.lt_succ_of_lt (h.fresh a nd ha)
  · intro a nd c ha hc
    rw [addChild_apply] at ha
    split_ifs at ha with h1 h2
    · cases ha
      rcases List.mem_append.1 hc with hc | hc
      · obtain ⟨hlt, cn, hcn, hcp⟩ := h.down p pn c hpn hc
        obtain ⟨cn', hcn', hpar, _⟩ := hold c cn hcn
        exact ⟨h1 ▸ hlt, cn', hcn', by rw [hpar, hcp, h1]⟩
      · have hc' : c = fs.heap.next := by simpa using hc
        rw [hc', h1]
        exact ⟨hpfresh, node, hself, hp⟩
    · cases ha
      rw [hch] at hc
      simp at hc
    · obtain ⟨hlt, cn, hcn, hcp⟩ := h.down a nd c ha hc
      obtain ⟨cn', hcn', hpar, _⟩ := hold c cn hcn
      exact ⟨hlt, cn', hcn', hpar.trans hcp⟩
  · intro c cn a hc ha
    rw [addChild_apply] at hc
    split_ifs at hc with h1 h2
    · cases hc
      obtain ⟨nd, hnd, hm⟩ := h.up p pn a hpn ha
      obtain ⟨nd', hnd', _, hsub⟩ := hold a nd hnd
      exact ⟨nd', hnd', hsub c (h1 ▸ hm)⟩
    · cases hc
      rw [hp] at ha
      cases ha
      refine ⟨_, by rw [addChild_apply, if_pos rfl], ?_⟩
      rw [h2]
      simp
    · obtain ⟨nd, hnd, hm⟩ := h.up c cn a hc ha
      obtain ⟨nd', hnd', _, hsub⟩ := hold a nd hnd
      exact ⟨nd', hnd', hsub c hm⟩
  · intro a nd ha
    rw [addChild_apply] at ha
    split_ifs at ha with h1 h2
    · cases ha
      have hnot : fs.heap.next ∉ pn.childs := by
        intro hm
        obtain ⟨_, cn, hcn, _⟩ := h.down p pn _ hpn hm
        exact lt_irrefl _ (h.fresh _ cn hcn)
      show (pn.childs ++ [fs.heap.next]).Nodup
      rw [← List.concat_eq_append]
      exact (h.once p pn hpn).concat hnot
    · cases ha
      rw [hch]
      exact List.nodup_nil
    · exact h.once a nd ha

/-- what the new node gets: the name and the data that were asked for, no children and no references -/
structure NewNode (fs fs' : Fs) (parent data : Option Addr) (a : Addr) (node : FsNode) : Prop where
  addr : a = fs.heap.next
  here : fs'.nodes a = some node
  parent : node.parent = parent
  data : node.data = data
  refCnt : node.refCnt = 0

end Make

/-- `fs_node_create` up to the links completes, with a new node or without -/
theorem fsNodeMake_spec {fs : Fs} {parent : Option Addr} {nameLen : ℕ} (ht : Tree fs) (hp : ParentOk fs parent)
    (hlen : nameLen + 1 < 2 ^ 64) (name : Bytes) (type : FileType) (data : Option Addr) (fsId : ℤ) :
    ∃ r fs', fsNodeMake fs parent name nameLen type data fsId = .ok (r, fs') ∧ Tree fs' ∧ Grown fs fs' ∧
      ∀ a, r = some a → ∃ node, NewNode fs fs' parent data a node := by
  unfold fsNodeMake
  simp only [sizeT_succ hlen, lt_irrefl, if_false]
  split_ifs
  · exact ⟨none, fs, rfl, ht, Grown.heapOnly fs 0, fun a ha => by cases ha⟩
  · split
    · exact ⟨none, fs, rfl, ht, Grown.heapOnly fs 0, fun a ha => by cases ha⟩
    · rename_i f _
      split
      · rename_i hm
        obtain ⟨_, rfl⟩ := malloc_none hm
        exact ⟨none, _, rfl, ht.congr (Nat.le_succ _) rfl, Grown.heapOnly fs 1, fun a ha => by cases ha⟩
      · rename_i a _ hm
        obtain ⟨rfl, _, rfl⟩ := malloc_some hm
        have hnone : fs.nodes fs.heap.next = none := by
          cases hn : fs.nodes fs.heap.next with
          | none => rfl
          | some nd => exact absurd (ht.fresh _ nd hn) (lt_irrefl _)
        cases parent with
        | none =>
          refine ⟨_, _, rfl, ht.addRoot rfl rfl, ⟨rfl, Nat.le_succ _, rfl, rfl, rfl, fun b nd hb => ?_,
            fun b nb hb hn => ?_⟩, fun a ha => ?_⟩
          · have hne : b ≠ fs.heap.next := (ht.fresh b nd hb).ne
            exact ⟨nd, (Table.set_ne _ _ hne).trans hb, rfl, rfl⟩
          · simp only [Table.set_apply] at hb
            split_ifs at hb with h1
            · cases hb
              exact ⟨h1.ge, rfl⟩
            · rw [hn] at hb
              cases hb
          · cases ha
            exact ⟨⟨fsId, _, data, 0, type, [], none, _⟩, rfl, Table.set_self _ _ _, rfl, rfl, rfl⟩
        | some p =>
          obtain ⟨pn, hpn⟩ := hp p rfl
          have hpne : fs.heap.next ≠ p := (ht.fresh p pn hpn).ne'
          simp only [hpn]
          refine ⟨_, _, rfl, ht.addChild rfl rfl hpn, ⟨rfl, Nat.le_succ _, rfl, rfl, rfl, fun b nd hb => ?_,
            fun b nb hb hn => ?_⟩, fun a ha => ?_⟩
          · have hne : b ≠ fs.heap.next := (ht.fresh b nd hb).ne
            simp only [Table.set_apply, if_neg hne]
            split_ifs with h1
            · rw [h1, hpn] at hb
              cases hb
              exact ⟨_, rfl, rfl, rfl⟩
            · exact ⟨nd, hb, rfl, rfl⟩
          · simp only [Table.set_apply] at hb
            split_ifs at hb with h1 h2
            · rw [h1, hpn] at hn
              cases hn
            · cases hb
              exact ⟨h2.ge, rfl⟩
            · rw [hn] at hb
              cases hb
          · cases ha
            refine ⟨⟨fsId, f.self, data, 0, type, [], some p, (cstr name).take nameLen⟩, rfl, ?_, rfl, rfl, rfl⟩
            simp only [Table.set_apply, if_neg hpne, if_true]

/-- without a node: the name is too long, there is no such file system, or memory is short -/
theorem fsNodeMake_none {fs fs' : Fs} {parent : Option Addr} {name : Bytes} {nameLen : ℕ} {type : FileType}
    {data : Option Addr} {fsId : ℤ} (h : fsNodeMake fs parent name nameLen type data fsId = .ok (none, fs')) :
    32 < sizeT (nameLen + 1) ∨ fs.fsLst.find? (fun f => f.id = fsId) = none ∨ fs.heap.ok fs.heap.next = false := by
  unfold fsNodeMake at h
  split at h
  · rename_i hlen
    exact Or.inl hlen
  · split at h
    · rename_i hf
      exact Or.inr (Or.inl hf)
    · split at h
      · rename_i hm
        exact Or.inr (Or.inr (malloc_none hm).1)
      · split at h
        · cases h
        · cases parent with
          | none => cases h
          | some p =>
            revert h
            dsimp only
            split <;> simp

/-- with a node, the file system is known and the name fits -/
theorem fsNodeMake_some {fs fs' : Fs} {parent : Option Addr} {name : Bytes} {nameLen : ℕ} {type : FileType}
    {data : Option Addr} {fsId : ℤ} {a : Addr} (h : fsNodeMake fs parent name nameLen type data fsId = .ok (some a, fs')) :
    fs.fsLst.find? (fun f => f.id = fsId) ≠ none ∧ nameLen + 1 < 2 ^ 64 ∧ fs'.heap.next = fs.heap.next + 1 := by
  unfold fsNodeMake at h
  split at h
  · cases h
  · split at h
    · cases h
    · rename_i f hf
      split at h
      · cases h
      · rename_i hm
        obtain ⟨_, _, rfl⟩ := malloc_some hm
        split at h
        · cases h
        · rename_i hfit
          refine ⟨by rw [hf]; simp, by rw [sizeT] at hfit; omega, ?_⟩
          cases parent with
          | none =>
            cases h
            rfl
          | some p =>
            revert h
            dsimp only
            split
            · simp
            · intro h
              cases h
              rfl

/-! ## What the descriptors see -/

/-- nodes came and went, none of them with references -/
structure Edited (fs fs' : Fs) : Prop where
  next : fs.heap.next ≤ fs'.heap.next
  fsLst : fs'.fsLst = fs.fsLst
  fdLst : fs'.fdLst = fs.fdLst
  fdCnt : fs'.fdCnt = fs.fdCnt
  here : ∀ b nb, fs'.nodes b = some nb →
    (∃ nd, fs.nodes b = some nd ∧ nb.refCnt = nd.refCnt) ∨ (fs.nodes b = none ∧ fs.heap.next ≤ b ∧ nb.refCnt = 0)
  gone : ∀ b nd, fs.nodes b = some nd → fs'.nodes b = none → nd.refCnt = 0

theorem Grown.edited {fs fs' : Fs} (h : Grown fs fs') : Edited fs fs' := by
  refine ⟨h.next, h.fsLst, h.fdLst, h.fdCnt, fun b nb hb => ?_, fun b nd hb hn => ?_⟩
  · cases hd : fs.nodes b with
    | none => exact Or.inr ⟨rfl, h.made b nb hb hd⟩
    | some nd =>
      obtain ⟨nb', hb', hr, _⟩ := h.old b nd hd
      rw [hb] at hb'
      cases hb'
      exact Or.inl ⟨nd, rfl, hr⟩
  · obtain ⟨nb, hb', _⟩ := h.old b nd hb
    rw [hn] at hb'
    cases hb'

theorem Pruned.edited {fs fs' : Fs} {P : Addr → Option Addr → Prop} (h : Pruned fs fs' P) : Edited fs fs' := by
  have hrest := h.rest
  refine ⟨by rw [hrest], by rw [hrest], by rw [hrest], by rw [hrest], fun b nb hb => ?_, fun b nd hb hn => ?_⟩
  · obtain ⟨nd, hd, hr, _⟩ := h.kept b nb hb
    exact Or.inl ⟨nd, hd, hr⟩
  · exact (h.gone b nd hb hn).1

theorem Edited.trans {fs fs1 fs2 : Fs} (ht : Tree fs) (h1 : Edited fs fs1) (h2 : Edited fs1 fs2) : Edited fs fs2 := by
  refine ⟨h1.next.trans h2.next, h2.fsLst.trans h1.fsLst, h2.fdLst.trans h1.fdLst, h2.fdCnt.trans h1.fdCnt,
    fun b nb hb => ?_, fun b nd hb hn => ?_⟩
  · rcases h2.here b nb hb with ⟨n1, hb1, hr1⟩ | ⟨hb1, hle, h0⟩
    · rcases h1.here b n1 hb1 with ⟨nd, hd, hr⟩ | ⟨hd, hle, h0⟩
      · exact Or.inl ⟨nd, hd, hr1.trans hr⟩
      · exact Or.inr ⟨hd, hle, hr1.trans h0⟩
    · cases hd : fs.nodes b with
      | none => exact Or.inr ⟨rfl, h1.next.trans hle, h0⟩
      | some nd =>
        -- an address below the heap's mark is not handed out again
        exact absurd (lt_of_lt_of_le (ht.fresh b nd hd) (h1.next.trans hle)) (lt_irrefl b)
  · cases hb1 : fs1.nodes b with
    | none => exact h1.gone b nd hb hb1
    | some n1 =>
      rcases h1.here b n1 hb1 with ⟨nd', hd, hr⟩ | ⟨hd, _⟩
      · rw [hb] at hd
        cases hd
        rw [← hr]
        exact h2.gone b n1 hb1 hn
      · rw [hb] at hd
        cases hd

/-- the way out of a creation that failed half-way -/
theorem fsNodeUndo_spec {fs : Fs} {a p : Addr} {nd : FsNode} (ht : Tree fs) (ha : fs.nodes a = some nd)
    (hp : nd.parent = some p) : ∃ fs', fsNodeUndo fs a = .ok (none, fs') ∧ Tree fs' ∧ Edited fs fs' := by
  obtain ⟨r, fs', hd, ht', hpr, _⟩ := fsNodeDestroy_spec ht ha hp
  exact ⟨fs', by rw [fsNodeUndo, hd]; rfl, ht', hpr.edited⟩

/-- what a call relies on: the parent exists, the length of the name does not wrap around, and a directory without a
parent has memory for its link (it would be destroyed again, which follows its null parent) -/
structure CreateOk (fs : Fs) (parent : Option Addr) (nameLen : ℕ) (type : FileType) : Prop where
  here : ParentOk fs parent
  len : nameLen + 1 < 2 ^ 64
  root : parent = none → type = .dir → fs.heap.ok (fs.heap.next + 1) = true

/-- **Creating a node completes** and leaves a tree. -/
theorem fsNodeCreate_spec {fs : Fs} {parent : Option Addr} {nameLen : ℕ} {type : FileType} (ht : Tree fs)
    (hc : CreateOk fs parent nameLen type) (name : Bytes) (data : Option Addr) (fsId : ℤ) :
    ∃ r fs', fsNodeCreate fs parent name nameLen type data fsId = .ok (r, fs') ∧ Tree fs' ∧ Edited fs fs' := by
  obtain ⟨hp, hlen, hroot⟩ := hc
  obtain ⟨r1, fs1, h1, ht1, hg1, hn1⟩ := fsNodeMake_spec ht hp hlen name type data fsId
  unfold fsNodeCreate
  rw [h1]
  cases r1 with
  | none => exact ⟨none, fs1, rfl, ht1, hg1.edited⟩
  | some a =>
    obtain ⟨node, hnode⟩ := hn1 a rfl
    by_cases hdir : type = .dir
    · have hp1 : ParentOk fs1 (some a) := by
        intro q hq
        cases hq
        exact ⟨node, hnode.here⟩
      obtain ⟨r2, fs2, h2, ht2, hg2, _⟩ :=
        fsNodeMake_spec ht1 hp1 (show 1 + 1 < 2 ^ 64 by norm_num) (str ".") .lnk (some a) fsId
      have he2 := hg1.edited.trans ht hg2.edited
      obtain ⟨node2, ha2, _, hpar2⟩ := hg2.old a node hnode.here
      simp only [hdir, ne_eq, not_true_eq_false, if_false, h2]
      cases r2 with
      | none =>
        cases parent with
        | none =>
          obtain ⟨hfs, _, hnext⟩ := fsNodeMake_some h1
          rcases fsNodeMake_none h2 with hlen | hf | hok
          · exact absurd hlen (by decide)
          · rw [hg1.fsLst] at hf
            exact absurd hf hfs
          · rw [hg1.ok, hnext, hroot rfl hdir] at hok
            cases hok
        | some p =>
          obtain ⟨fs3, h3, ht3, he3⟩ := fsNodeUndo_spec ht2 ha2 (hpar2.trans hnode.parent)
          exact ⟨none, fs3, h3, ht3, he2.trans ht he3⟩
      | some b =>
        cases parent with
        | none => exact ⟨some a, fs2, rfl, ht2, he2⟩
        | some p =>
          obtain ⟨pn, hpn, _⟩ := ht2.up a node2 p ha2 (hpar2.trans hnode.parent)
          have hp2 : ParentOk fs2 (some a) := by
            intro q hq
            cases hq
            exact ⟨node2, ha2⟩
          obtain ⟨r3, fs3, h3, ht3, hg3, _⟩ :=
            fsNodeMake_spec ht2 hp2 (show 2 + 1 < 2 ^ 64 by norm_num) (str "..") .lnk (some p) pn.fsId
          have he3 := he2.trans ht hg3.edited
          obtain ⟨node3, ha3, _, hpar3⟩ := hg3.old a node2 ha2
          simp only [hpn, h3]
          cases r3 with
          | none =>
            obtain ⟨fs4, h4, ht4, he4⟩ := fsNodeUndo_spec ht3 ha3 (hpar3.trans (hpar2.trans hnode.parent))
            exact ⟨none, fs4, h4, ht4, he3.trans ht he4⟩
          | some c => exact ⟨some a, fs3, rfl, ht3, he3⟩
    · exact ⟨some a, fs1, by simp [hdir], ht1, hg1.edited⟩

end EspHostdriver
