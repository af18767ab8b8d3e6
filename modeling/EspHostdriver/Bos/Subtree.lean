/-
The subtrees of the node tree, and exactly what `fs_node_destroy` does to them.

- `Fs.subtree`: a node and what is below it; `Fs.without`: the nodes and the lists of children without a set of nodes.
- `Fs.Idle`: no node of the subtree is in use. `FirstInUse`: the node is in use or, from first child to first child,
  the first of those that have no further child to go to before it.
- `fsNodeDestroy_exact`: the subtree of an idle node below another one goes, and nothing else. Otherwise the call fails,
  and it has changed nothing exactly if the node was `FirstInUse`: in any other case children are gone by then.
- `fsNodeDestroy_root`: a node without parent is no different as long as it fails; an idle one is not taken out, since
  the list it would be taken out of is that of its null parent.
-/
import EspHostdriver.Core.Forest
import EspHostdriver.Bos.NodeTree

namespace EspHostdriver

open Forest

/-! ## Subtrees -/

/-- `b` is an entry of `a` -/
def Fs.Child (fs : Fs) (a b : Addr) : Prop := ∃ nd, fs.nodes a = some nd ∧ b ∈ nd.childs

/-- `a` and what is below it -/
def Fs.subtree (fs : Fs) (a : Addr) : Set Addr := { b | Under fs.Child a b }

/-- no node of the subtree has `ref_cnt > 0` -/
def Fs.Idle (fs : Fs) (a : Addr) : Prop := ∀ b ∈ fs.subtree a, ∀ nd, fs.nodes b = some nd → nd.refCnt = 0

open Classical in
/-- the entries that are not in `S`, in their order -/
noncomputable def outside (S : Set Addr) (cs : List Addr) : List Addr := cs.filter (· ∉ S)

open Classical in
/-- the nodes of `S` are gone, and with them the entries that led to them -/
noncomputable def Fs.without (fs : Fs) (S : Set Addr) : Fs :=
  { fs with nodes := fun b => if b ∈ S then none else (fs.nodes b).map fun nd => { nd with childs := outside S nd.childs } }

theorem Tree.isForest {fs : Fs} (ht : Tree fs) : IsForest fs.Child := by
  constructor
  · intro a b hab
    obtain ⟨nd, ha, hb⟩ := hab
    exact (ht.down a nd b ha hb).1
  · intro a b c hac hbc
    obtain ⟨na, ha, hca⟩ := hac
    obtain ⟨nb, hb, hcb⟩ := hbc
    obtain ⟨_, cn, hc, hcp⟩ := ht.down a na c ha hca
    obtain ⟨_, cn', hc', hcp'⟩ := ht.down b nb c hb hcb
    rw [hc] at hc'
    cases hc'
    rw [hcp] at hcp'
    exact Option.some.inj hcp'

section Subtree

variable {fs : Fs} {a b p : Addr} {nd pn : FsNode} {S T : Set Addr}

theorem Fs.self_mem (fs : Fs) (a : Addr) : a ∈ fs.subtree a := under_refl a

/-- a child of `a`, by its own record -/
theorem Tree.child (ht : Tree fs) (ha : fs.nodes a = some nd) (hp : nd.parent = some p) : fs.Child p a := by
  obtain ⟨pn, hpn, hm⟩ := ht.up a nd p ha hp
  exact ⟨pn, hpn, hm⟩

theorem Tree.subtree_le (ht : Tree fs) (hb : b ∈ fs.subtree a) : (a : ℕ) ≤ b := ht.isForest.le hb

theorem mem_subtree (ha : fs.nodes a = some nd) :
    b ∈ fs.subtree a ↔ b = a ∨ ∃ c ∈ nd.childs, b ∈ fs.subtree c := by
  have hiff : b ∈ fs.subtree a ↔ a = b ∨ ∃ c, fs.Child a c ∧ Under fs.Child c b := under_iff
  rw [hiff]
  constructor
  · intro h
    rcases h with h | ⟨c, ⟨nd', ha', hc⟩, hb⟩
    · exact Or.inl h.symm
    · rw [ha] at ha'
      cases ha'
      exact Or.inr ⟨c, hc, hb⟩
  · intro h
    rcases h with h | ⟨c, hc, hb⟩
    · exact Or.inl h.symm
    · exact Or.inr ⟨c, ⟨nd, ha, hc⟩, hb⟩

/-- a node is idle when it is not in use and its children are idle -/
theorem idle_iff (ha : fs.nodes a = some nd) : fs.Idle a ↔ nd.refCnt = 0 ∧ ∀ c ∈ nd.childs, fs.Idle c := by
  constructor
  · intro h
    refine ⟨h a (fs.self_mem a) nd ha, fun c hc b hb => h b ?_⟩
    exact (mem_subtree ha).2 (Or.inr ⟨c, hc, hb⟩)
  · intro h b hb nb hnb
    rcases (mem_subtree ha).1 hb with he | ⟨c, hc, hbc⟩
    · rw [he, ha] at hnb
      cases hnb
      exact h.1
    · exact h.2 c hc b hbc nb hnb

/-! ## Taking nodes away -/

theorem mem_outside {c : Addr} {cs : List Addr} : c ∈ outside S cs ↔ c ∈ cs ∧ c ∉ S := by
  simp [outside]

theorem outside_eq_self {cs : List Addr} (h : ∀ c ∈ cs, c ∉ S) : outside S cs = cs :=
  List.filter_eq_self.2 fun c hc => by simpa using h c hc

theorem outside_outside (S T : Set Addr) (cs : List Addr) : outside T (outside S cs) = outside (S ∪ T) cs := by
  rw [outside, outside, outside, List.filter_filter]
  refine List.filter_congr fun c _ => ?_
  rw [Bool.eq_iff_iff]
  simp [and_comm]

theorem outside_singleton (a : Addr) (cs : List Addr) : outside {a} cs = cs.filter (· ≠ a) :=
  List.filter_congr fun c _ => by simp

open Classical in
theorem without_apply (fs : Fs) (S : Set Addr) (b : Addr) : (fs.without S).nodes b =
    if b ∈ S then none else (fs.nodes b).map fun nd => { nd with childs := outside S nd.childs } := rfl

theorem without_mem (hb : b ∈ S) : (fs.without S).nodes b = none := by
  rw [without_apply, if_pos hb]

theorem without_some (hb : b ∉ S) (hn : fs.nodes b = some nd) :
    (fs.without S).nodes b = some { nd with childs := outside S nd.childs } := by
  rw [without_apply, if_neg hb, hn, Option.map_some]

theorem without_none (hn : fs.nodes b = none) : (fs.without S).nodes b = none := by
  rw [without_apply, hn, Option.map_none, ite_self]

/-- a node that is left is one that was there -/
theorem without_left (h : (fs.without S).nodes b = some nd) :
    b ∉ S ∧ ∃ nd', fs.nodes b = some nd' ∧ nd = { nd' with childs := outside S nd'.childs } := by
  rw [without_apply] at h
  split_ifs at h with hS
  obtain ⟨nd', hn, he⟩ := Option.map_eq_some_iff.1 h
  exact ⟨hS, nd', hn, he.symm⟩

theorem Fs.ext_nodes {fs fs' : Fs} (h : fs' = { fs with nodes := fs'.nodes }) (hn : fs'.nodes = fs.nodes) : fs' = fs := by
  rw [h, hn]

theorem without_without (fs : Fs) (S T : Set Addr) : (fs.without S).without T = fs.without (S ∪ T) := by
  refine Fs.ext_nodes rfl (funext fun b => ?_)
  cases hb : fs.nodes b with
  | none => rw [without_none (without_none hb), without_none hb]
  | some nd =>
    by_cases hS : b ∈ S
    · rw [without_none (without_mem hS), without_mem (Or.inl hS)]
    · by_cases hT : b ∈ T
      · rw [without_mem hT, without_mem (Or.inr hT)]
      · have hST : b ∉ S ∪ T := fun h => h.elim hS hT
        rw [without_some hT (without_some hS hb), without_some hST hb]
        simp only [outside_outside]

theorem without_child (fs : Fs) (S : Set Addr) : (fs.without S).Child = prune fs.Child S := by
  funext a b
  apply propext
  constructor
  · intro h
    obtain ⟨nd, ha, hb⟩ := h
    obtain ⟨hS, nd', ha', he⟩ := without_left ha
    rw [he] at hb
    obtain ⟨hm, hbS⟩ := mem_outside.1 hb
    exact ⟨hS, hbS, nd', ha', hm⟩
  · intro h
    obtain ⟨hS, hbS, nd, ha, hm⟩ := h
    exact ⟨_, without_some hS ha, mem_outside.2 ⟨hm, hbS⟩⟩

theorem subtree_without (h : ∀ b ∈ fs.subtree a, b ∉ S) : (fs.without S).subtree a = fs.subtree a := by
  ext b
  change Under (fs.without S).Child a b ↔ Under fs.Child a b
  rw [without_child]
  exact under_prune h

theorem idle_without (h : ∀ b ∈ fs.subtree a, b ∉ S) : (fs.without S).Idle a ↔ fs.Idle a := by
  rw [Fs.Idle, Fs.Idle, subtree_without h]
  constructor
  · intro hi b hb nd hn
    have h0 := hi b hb _ (without_some (h b hb) hn)
    exact h0
  · intro hi b hb nd hn
    obtain ⟨_, nd', hn', he⟩ := without_left hn
    rw [he]
    exact hi b hb nd' hn'

/-- where no node is, there is nothing to take away -/
theorem without_fresh (ht : Tree fs) (h : ∀ b ∈ S, fs.nodes b = none) : fs.without S = fs := by
  have hlive : ∀ b nd, fs.nodes b = some nd → b ∉ S := by
    intro b nd hb hm
    rw [h b hm] at hb
    cases hb
  refine Fs.ext_nodes rfl (funext fun b => ?_)
  cases hb : fs.nodes b with
  | none => exact without_none hb
  | some nd =>
    rw [without_some (hlive b nd hb) hb, outside_eq_self]
    intro c hc
    obtain ⟨_, cn, hcn, _⟩ := ht.down b nd c hb hc
    exact hlive c cn hcn

/-- the end of `fs_node_destroy` takes away one node -/
theorem freeNode_eq_without (ht : Tree fs) (ha : fs.nodes a = some nd) (hp : nd.parent = some p)
    (hpn : fs.nodes p = some pn) : freeNode fs a p pn = fs.without {a} := by
  refine Fs.ext_nodes rfl (funext fun b => ?_)
  rw [freeNode_apply]
  by_cases hba : b = a
  · rw [if_pos hba, without_mem (Set.mem_singleton_iff.2 hba)]
  · have hS : b ∉ ({a} : Set Addr) := fun h => hba h
    rw [if_neg hba]
    by_cases hbp : b = p
    · rw [if_pos hbp, without_some hS (hbp ▸ hpn), outside_singleton]
    · rw [if_neg hbp]
      cases hb : fs.nodes b with
      | none => rw [without_none hb]
      | some nb =>
        rw [without_some hS hb, outside_eq_self]
        intro c hc hm
        -- only `p` has `a` among its children
        exact hbp (ht.isForest.parent b p a ⟨nb, hb, hm ▸ hc⟩ (ht.child ha hp))

end Subtree

/-! ## Destroying, exactly -/

/-- the node is in use, or its first child is `FirstInUse` -/
inductive FirstInUse (fs : Fs) : Addr → Prop
  | self {a nd} : fs.nodes a = some nd → 0 < nd.refCnt → FirstInUse fs a
  | first {a nd c cs} : fs.nodes a = some nd → nd.childs = c :: cs → FirstInUse fs c → FirstInUse fs a

theorem FirstInUse.busy {fs : Fs} {a : Addr} (h : FirstInUse fs a) : ¬ fs.Idle a := by
  induction h with
  | self ha hr =>
    intro hi
    exact hr.ne' (hi _ (fs.self_mem _) _ ha)
  | first ha hc _ ih =>
    intro hi
    exact ih (((idle_iff ha).1 hi).2 _ (hc ▸ List.mem_cons_self))

/-- if `I`, the nodes of `S` go; otherwise the call fails, and nothing has gone exactly if `P` -/
structure Exactly (r : Except Fault (ℤ × Fs)) (fs : Fs) (S : Set Addr) (I P : Prop) : Prop where
  idle : I → r = .ok (0, fs.without S)
  busy : ¬ I → ∃ fs', r = .ok (-1, fs') ∧ (fs' = fs ↔ P)

/-- what lies below the nodes of a list -/
def Fs.below (fs : Fs) (cs : List Addr) : Set Addr := { b | ∃ c ∈ cs, b ∈ fs.subtree c }

section Destroy

variable {fs : Fs} {a p : Addr} {nd : FsNode}

theorem below_cons (fs : Fs) (c : Addr) (cs : List Addr) : fs.below (c :: cs) = fs.subtree c ∪ fs.below cs := by
  ext b
  simp [Fs.below]

/-- the loop over the children, when each of them is destroyed exactly -/
theorem destroyChilds_exact {destroy : Fs → Addr → Except Fault (ℤ × Fs)} {next : Addr}
    (hd : ∀ fs c cn, Tree fs → fs.heap.next = next → fs.nodes c = some cn → cn.parent = some a → DestroySpec destroy fs c)
    (he : ∀ fs c cn, Tree fs → fs.heap.next = next → fs.nodes c = some cn → cn.parent = some a →
      Exactly (destroy fs c) fs (fs.subtree c) (fs.Idle c) (FirstInUse fs c))
    (cs : List Addr) (fs : Fs) (ht : Tree fs) (hnext : fs.heap.next = next) (hn : cs.Nodup)
    (hcs : ∀ c ∈ cs, ∃ cn, fs.nodes c = some cn ∧ cn.parent = some a) :
    Exactly (destroyChilds destroy fs cs) fs (fs.below cs) (∀ c ∈ cs, fs.Idle c)
      (∃ c, cs.head? = some c ∧ FirstInUse fs c) := by
  induction cs generalizing fs with
  | nil =>
    constructor
    · intro _
      rw [without_fresh ht]
      · rfl
      · intro b hb
        obtain ⟨c, hc, _⟩ := hb
        simp at hc
    · intro h
      exact absurd (fun c hc => absurd hc List.not_mem_nil) h
  | cons c cs ih =>
    obtain ⟨cn, hcn, hcp⟩ := hcs c List.mem_cons_self
    have hex := he fs c cn ht hnext hcn hcp
    by_cases hidle : fs.Idle c
    · -- the first child goes; the subtrees of the others are as they were
      have hr1 := hex.idle hidle
      obtain ⟨r1, fs1, hr1', ht1, hp1, _⟩ := hd fs c cn ht hnext hcn hcp
      rw [hr1, ok_pair] at hr1'
      obtain ⟨_, rfl⟩ := hr1'
      have hcall : destroyChilds destroy fs (c :: cs) = destroyChilds destroy (fs.without (fs.subtree c)) cs := by
        simp only [destroyChilds, hr1, ne_eq, not_true_eq_false, if_false]
      have hapart : ∀ d ∈ cs, ∀ b ∈ fs.subtree d, b ∉ fs.subtree c := by
        intro d hdm b hb
        obtain ⟨dn, hdn, hdp⟩ := hcs d (List.mem_cons_of_mem c hdm)
        have hne : d ≠ c := fun he => (List.nodup_cons.1 hn).1 (he ▸ hdm)
        exact ht.isForest.disjoint (ht.child hdn hdp) (ht.child hcn hcp) hne hb
      have hcs1 : ∀ d ∈ cs, ∃ dn, (fs.without (fs.subtree c)).nodes d = some dn ∧ dn.parent = some a := by
        intro d hdm
        obtain ⟨dn, hdn, hdp⟩ := hcs d (List.mem_cons_of_mem c hdm)
        exact ⟨_, without_some (hapart d hdm d (fs.self_mem d)) hdn, hdp⟩
      have hrest := ih (fs.without (fs.subtree c)) ht1 hnext (List.nodup_cons.1 hn).2 hcs1
      have hidle' : (∀ d ∈ c :: cs, fs.Idle d) ↔ ∀ d ∈ cs, (fs.without (fs.subtree c)).Idle d := by
        rw [List.forall_mem_cons, and_iff_right hidle]
        exact forall₂_congr fun d hdm => (idle_without (hapart d hdm)).symm
      constructor
      · intro h
        have hbelow : (fs.without (fs.subtree c)).below cs = fs.below cs := by
          ext b
          refine exists_congr fun d => and_congr_right fun hdm => ?_
          rw [subtree_without (hapart d hdm)]
        rw [hcall, hrest.idle (hidle'.1 h), without_without, hbelow, below_cons]
      · intro h
        obtain ⟨fs', hr', _⟩ := hrest.busy fun h' => h (hidle'.2 h')
        obtain ⟨r2, fs2, hr2, _, hp2, _⟩ := destroyChilds_spec hd cs _ ht1 hnext (List.nodup_cons.1 hn).2 hcs1
        rw [hr', ok_pair] at hr2
        obtain ⟨_, rfl⟩ := hr2
        refine ⟨fs', hcall.trans hr', iff_of_false ?_ ?_⟩
        · -- the first child does not come back
          intro hsame
          obtain ⟨nb, hnb, _⟩ := hp2.kept c cn (hsame ▸ hcn)
          rw [without_mem (fs.self_mem c)] at hnb
          cases hnb
        · intro hf
          obtain ⟨d, hdc, hf⟩ := hf
          cases hdc
          exact hf.busy hidle
    · obtain ⟨fs', hr', hiff⟩ := hex.busy hidle
      constructor
      · intro h
        exact absurd (h c List.mem_cons_self) hidle
      · intro _
        refine ⟨fs', by simp [destroyChilds, hr'], hiff.trans ?_⟩
        simp

theorem firstInUse_iff (ha : fs.nodes a = some nd) :
    FirstInUse fs a ↔ 0 < nd.refCnt ∨ ∃ c, nd.childs.head? = some c ∧ FirstInUse fs c := by
  constructor
  · intro h
    cases h with
    | self ha' hr =>
      rw [ha] at ha'
      cases ha'
      exact Or.inl hr
    | first ha' hc hf =>
      rw [ha] at ha'
      cases ha'
      exact Or.inr ⟨_, by rw [hc, List.head?_cons], hf⟩
  · intro h
    rcases h with hr | ⟨c, hc, hf⟩
    · exact FirstInUse.self ha hr
    · obtain ⟨cs, hcs⟩ := List.head?_eq_some_iff.1 hc
      exact FirstInUse.first ha hcs hf

theorem subtree_eq (ha : fs.nodes a = some nd) : fs.subtree a = fs.below nd.childs ∪ {a} := by
  ext b
  rw [mem_subtree ha, or_comm]
  rfl

theorem childs_tree {depth : ℕ} (ht : Tree fs) (ha : fs.nodes a = some nd) (hdepth : fs.heap.next ≤ a + (depth + 1)) :
    ∃ r fs', destroyChilds (fsNodeDestroyAux depth) fs nd.childs = .ok (r, fs') ∧ Tree fs' := by
  have hd : ∀ fs' c cn, Tree fs' → fs'.heap.next = fs.heap.next → fs'.nodes c = some cn → cn.parent = some a →
      DestroySpec (fsNodeDestroyAux depth) fs' c := by
    intro fs' c cn ht' hnext hcn hcp
    have hac := ht'.parent_lt hcn hcp
    exact fsNodeDestroyAux_spec depth fs' c a cn ht' hcn hcp (by omega)
  obtain ⟨r, fs', hr, ht', _⟩ := destroyChilds_spec hd nd.childs fs ht rfl (ht.once a nd ha)
    fun c hc => (ht.down a nd c ha hc).2
  exact ⟨r, fs', hr, ht'⟩

/-- the loop over the children of a node, for a depth at which its children are destroyed exactly -/
theorem childs_exact {depth : ℕ} (ht : Tree fs) (ha : fs.nodes a = some nd) (hdepth : fs.heap.next ≤ a + (depth + 1))
    (he : ∀ fs c p cn, Tree fs → fs.nodes c = some cn → cn.parent = some p → fs.heap.next ≤ c + depth →
      Exactly (fsNodeDestroyAux depth fs c) fs (fs.subtree c) (fs.Idle c) (FirstInUse fs c)) :
    Exactly (destroyChilds (fsNodeDestroyAux depth) fs nd.childs) fs (fs.below nd.childs) (∀ c ∈ nd.childs, fs.Idle c)
      (∃ c, nd.childs.head? = some c ∧ FirstInUse fs c) := by
  have hin : ∀ fs' : Fs, Tree fs' → fs'.heap.next = fs.heap.next → ∀ c cn, fs'.nodes c = some cn → cn.parent = some a →
      fs'.heap.next ≤ c + depth := by
    intro fs' ht' hnext c cn hcn hcp
    have hac := ht'.parent_lt hcn hcp
    omega
  apply destroyChilds_exact _ _ nd.childs fs ht rfl (ht.once a nd ha) fun c hc => (ht.down a nd c ha hc).2
  · intro fs' c cn ht' hnext hcn hcp
    exact fsNodeDestroyAux_spec depth fs' c a cn ht' hcn hcp (hin fs' ht' hnext c cn hcn hcp)
  · intro fs' c cn ht' hnext hcn hcp
    exact he fs' c a cn ht' hcn hcp (hin fs' ht' hnext c cn hcn hcp)

theorem fsNodeDestroyAux_exact (depth : ℕ) (fs : Fs) (a p : Addr) (nd : FsNode) (ht : Tree fs)
    (ha : fs.nodes a = some nd) (hp : nd.parent = some p) (hdepth : fs.heap.next ≤ a + depth) :
    Exactly (fsNodeDestroyAux depth fs a) fs (fs.subtree a) (fs.Idle a) (FirstInUse fs a) := by
  induction depth generalizing fs a p nd with
  | zero =>
    have hfresh := ht.fresh a nd ha
    omega
  | succ depth ih =>
    rw [idle_iff ha, firstInUse_iff ha]
    have hcs := childs_exact ht ha hdepth ih
    by_cases href : 0 < nd.refCnt
    · constructor
      · intro h
        exact absurd h.1 href.ne'
      · intro _
        exact ⟨fs, by simp [fsNodeDestroyAux, ha, href], iff_of_true rfl (Or.inl href)⟩
    · constructor
      · intro h
        have hall := hcs.idle h.2
        -- the parent is older than whatever has gone, and so is the node
        have hout : ∀ b : ℕ, b ≤ a → b ∉ fs.below nd.childs := by
          intro b hba hb
          obtain ⟨c, hc, hbc⟩ := hb
          have hac := (ht.down a nd c ha hc).1
          exact absurd ((ht.subtree_le hbc).trans hba) hac.not_ge
        have hpa := ht.parent_lt ha hp
        obtain ⟨pn, hpn, _⟩ := ht.up a nd p ha hp
        have ha1 := without_some (hout a le_rfl) ha
        have hpn1 := without_some (hout p hpa.le) hpn
        obtain ⟨r1, fs1, hr1, ht1⟩ := childs_tree ht ha hdepth
        rw [hall, ok_pair] at hr1
        obtain ⟨_, rfl⟩ := hr1
        have hfree := freeNode_eq_without ht1 ha1 hp hpn1
        rw [without_without, ← subtree_eq ha] at hfree
        rw [← hfree]
        simp only [fsNodeDestroyAux, ha, href, if_false, hall, ne_eq, not_true_eq_false, hp, hpn1, freeNode]
      · intro h
        have hbusy : ¬ ∀ c ∈ nd.childs, fs.Idle c := fun hc => h ⟨by omega, hc⟩
        obtain ⟨fs', hr, hiff⟩ := hcs.busy hbusy
        refine ⟨fs', by simp [fsNodeDestroyAux, ha, href, hr], ?_⟩
        rw [hiff, or_iff_right href]

/-- **What destroying a node below another one does, exactly.** -/
theorem fsNodeDestroy_exact (ht : Tree fs) (ha : fs.nodes a = some nd) (hp : nd.parent = some p) :
    Exactly (fsNodeDestroy fs a) fs (fs.subtree a) (fs.Idle a) (FirstInUse fs a) :=
  fsNodeDestroyAux_exact (fs.heap.next + 1) fs a p nd ht ha hp (by omega)

/-- **What destroying a node without parent does, exactly**: an idle one is stuck at its null parent. -/
theorem fsNodeDestroy_root (ht : Tree fs) (ha : fs.nodes a = some nd) (hp : nd.parent = none) :
    (fs.Idle a → fsNodeDestroy fs a = .error .nullNode) ∧
    (¬ fs.Idle a → ∃ fs', fsNodeDestroy fs a = .ok (-1, fs') ∧ (fs' = fs ↔ FirstInUse fs a)) := by
  have hcs := childs_exact ht ha (by omega) (fsNodeDestroyAux_exact fs.heap.next)
  rw [idle_iff ha, firstInUse_iff ha]
  by_cases href : 0 < nd.refCnt
  · constructor
    · intro h
      exact absurd h.1 href.ne'
    · intro _
      exact ⟨fs, by simp [fsNodeDestroy, fsNodeDestroyAux, ha, href], iff_of_true rfl (Or.inl href)⟩
  · constructor
    · intro h
      simp [fsNodeDestroy, fsNodeDestroyAux, ha, href, hcs.idle h.2, hp]
    · intro h
      have hbusy : ¬ ∀ c ∈ nd.childs, fs.Idle c := fun hc => h ⟨by omega, hc⟩
      obtain ⟨fs', hr, hiff⟩ := hcs.busy hbusy
      refine ⟨fs', by simp [fsNodeDestroy, fsNodeDestroyAux, ha, href, hr], ?_⟩
      rw [hiff, or_iff_right href]

/-- a call that comes back leaves a tree -/
theorem fsNodeDestroy_tree {fs' : Fs} {r : ℤ} (ht : Tree fs) (ha : fs.nodes a = some nd)
    (h : fsNodeDestroy fs a = .ok (r, fs')) : Tree fs' := by
  cases hp : nd.parent with
  | some p =>
    obtain ⟨r', fs1, h', ht', _⟩ := fsNodeDestroy_spec ht ha hp
    rw [h, ok_pair] at h'
    obtain ⟨_, rfl⟩ := h'
    exact ht'
  | none =>
    have hdepth : fs.heap.next ≤ a + (fs.heap.next + 1) := by omega
    obtain ⟨r1, fs1, hr1, ht1⟩ := childs_tree ht ha hdepth
    rw [fsNodeDestroy, fsNodeDestroyAux, ha] at h
    simp only [hr1, hp] at h
    split_ifs at h
    · cases h
      exact ht
    · cases h
      exact ht1

end Destroy

end EspHostdriver
