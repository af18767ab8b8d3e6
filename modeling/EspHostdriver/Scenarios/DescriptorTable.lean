/-
The descriptor table of the file system layer (`bos/fs.c`) over every sequence of calls.

`Tab` is the layer together with a history: the descriptors `fs_fd_alloc` has handed out and the ids that were given to
`fs_fd_free`. Calls come in any order and memory may run short at any of them. `Allowed` is what the callers promise: a
descriptor is allocated on a node that exists and freed while it exists, a node is created below a node that exists
with a length of its name below `SIZE_MAX`, and `fs_node_destroy` is not called for a node without a parent, neither by
a caller nor by `fs_node_create` itself.

- `Inv`: the table is the list of the descriptors handed out and not freed; every id was drawn from the counter once;
  the nodes form trees, and the count of a node is the number of descriptors that refer to it.
- `alloc_inv`, `free_inv`, `edited_inv`: what each call keeps; each of them completes.
- `descriptor_table`: every sequence of allowed calls completes, and afterwards ids are distinct and positive, an id is
  found exactly until it is freed, counts are right and no descriptor refers to a node that was destroyed.
-/
import EspHostdriver.Bos.NodeTree
import EspHostdriver.Core.Machine

namespace EspHostdriver.DescriptorTable

open Machine

/-! ## Model -/

/-- the layer, the descriptors handed out so far, the ids freed so far -/
structure Tab where
  fs : Fs
  given : List FsFiled
  freed : List ℤ

inductive Act where
  | alloc (node : Addr) (mode modeMask : UInt32)
  | free (fd : FsFiled)
  | create (parent : Option Addr) (name : Bytes) (nameLen : ℕ) (type : FileType) (data : Option Addr) (fsId : ℤ)
  | destroy (node : Addr)

def step (s : Tab) : Act → Option Tab
  | .alloc node mode mask =>
    match fsFdAlloc s.fs (some node) mode mask with
    | .error _ => none
    | .ok (r, fs) => some ⟨fs, s.given ++ r.toList, s.freed⟩
  | .free fd =>
    match fsFdFree s.fs fd with
    | .error _ => none
    | .ok fs => some ⟨fs, s.given, s.freed ++ [fd.id]⟩
  | .create parent name nameLen type data fsId =>
    match fsNodeCreate s.fs parent name nameLen type data fsId with
    | .error _ => none
    | .ok (_, fs) => some { s with fs := fs }
  | .destroy node =>
    match fsNodeDestroy s.fs node with
    | .error _ => none
    | .ok (_, fs) => some { s with fs := fs }

/-- what the callers promise -/
def Allowed (s : Tab) : Act → Prop
  | .alloc node _ _ => ∃ nd, s.fs.nodes node = some nd
  | .free fd => fd ∈ s.fs.fdLst
  | .create parent _ nameLen type _ _ => CreateOk s.fs parent nameLen type
  | .destroy node => ∃ nd p, s.fs.nodes node = some nd ∧ nd.parent = some p

instance decidableAllowed (s : Tab) : ∀ a, Decidable (Allowed s a)
  | .alloc node _ _ => decidable_of_iff (s.fs.nodes node ≠ none) Option.ne_none_iff_exists'
  | .free fd => inferInstanceAs (Decidable (fd ∈ s.fs.fdLst))
  | .create none _ nameLen type _ _ =>
    decidable_of_iff (nameLen + 1 < 2 ^ 64 ∧ (type = .dir → s.fs.heap.ok (s.fs.heap.next + 1) = true))
      ⟨fun h => ⟨nofun, h.1, fun _ => h.2⟩, fun h => ⟨h.len, h.root rfl⟩⟩
  | .create (some p) _ nameLen _ _ _ =>
    decidable_of_iff (s.fs.nodes p ≠ none ∧ nameLen + 1 < 2 ^ 64)
      ⟨fun h => ⟨fun q hq => Option.some.inj hq ▸ Option.ne_none_iff_exists'.1 h.1, h.2, nofun⟩,
        fun h => ⟨Option.ne_none_iff_exists'.2 (h.here p rfl), h.len⟩⟩
  | .destroy node =>
    decidable_of_iff ((s.fs.nodes node).bind FsNode.parent ≠ none) (by
      rw [Option.ne_none_iff_exists']
      simp only [Allowed, Option.bind_eq_some_iff]
      exact ⟨fun ⟨p, nd, h⟩ => ⟨nd, p, h⟩, fun ⟨nd, p, h⟩ => ⟨p, nd, h⟩⟩)

/-- calls of `fs_fd_alloc` -/
def allocs : List Act → ℕ
  | [] => 0
  | .alloc _ _ _ :: acts => allocs acts + 1
  | _ :: acts => allocs acts

/-- the layer before the first call: file systems may be registered, nothing else is there -/
structure Unused (fs : Fs) : Prop where
  fdLst : fs.fdLst = []
  fdCnt : fs.fdCnt = 0
  nodes : ∀ a, fs.nodes a = none

/-! ## The invariant -/

/-- descriptors that refer to node `n` -/
def refs (fs : Fs) (n : Addr) : ℕ := fs.fdLst.countP fun fd => fd.node = n

structure Inv (s : Tab) : Prop where
  tree : Tree s.fs
  start : 0 ≤ s.fs.fdCnt
  table : s.fs.fdLst = s.given.filter fun fd => fd.id ∉ s.freed
  ids : ∀ fd ∈ s.given, 0 < fd.id ∧ fd.id ≤ s.fs.fdCnt
  idsNodup : (s.given.map FsFiled.id).Nodup
  selfs : ∀ fd ∈ s.given, fd.self < s.fs.heap.next
  selfsNodup : (s.given.map FsFiled.self).Nodup
  freed : ∀ i ∈ s.freed, i ≤ s.fs.fdCnt
  live : ∀ fd ∈ s.fs.fdLst, ∃ nd, s.fs.nodes fd.node = some nd
  count : ∀ n nd, s.fs.nodes n = some nd → nd.refCnt = refs s.fs n

theorem unused_inv {fs : Fs} (h : Unused fs) : Inv ⟨fs, [], []⟩ := by
  have hnone : ∀ {a nd} {P : Prop}, fs.nodes a = some nd → P := fun {a nd P} ha => by
    rw [h.nodes a] at ha
    cases ha
  refine ⟨⟨fun a nd ha => hnone ha, fun a nd c ha => hnone ha, fun c cn a hc => hnone hc, fun a nd ha => hnone ha⟩,
    h.fdCnt.ge, h.fdLst, ?_, List.nodup_nil, ?_, List.nodup_nil, ?_, ?_, fun n nd hn => hnone hn⟩
  · intro fd hfd; simp at hfd
  · intro fd hfd; simp at hfd
  · intro i hi; simp at hi
  · intro fd hfd
    rw [h.fdLst] at hfd
    simp at hfd

/-- nobody refers to an address where no node is -/
theorem Inv.refs_none {s : Tab} (h : Inv s) {n : Addr} (hn : s.fs.nodes n = none) : refs s.fs n = 0 := by
  apply List.countP_eq_zero.2
  intro fd hfd he
  obtain ⟨nd, hnd⟩ := h.live fd hfd
  rw [of_decide_eq_true he, hn] at hnd
  cases hnd

/-! ## What each call keeps -/

/-- nodes that come and go without references leave the table alone -/
theorem edited_inv {s : Tab} {fs' : Fs} (h : Inv s) (ht : Tree fs') (he : Edited s.fs fs') :
    Inv { s with fs := fs' } := by
  have hrefs : ∀ n, refs fs' n = refs s.fs n := fun n => by rw [refs, he.fdLst, refs]
  refine ⟨ht, he.fdCnt.symm ▸ h.start, he.fdLst.trans h.table, ?_, h.idsNodup, ?_, h.selfsNodup, ?_, ?_, ?_⟩
  · intro fd hfd
    show 0 < fd.id ∧ fd.id ≤ fs'.fdCnt
    rw [he.fdCnt]
    exact h.ids fd hfd
  · intro fd hfd
    exact lt_of_lt_of_le (h.selfs fd hfd) he.next
  · intro i hi
    show i ≤ fs'.fdCnt
    rw [he.fdCnt]
    exact h.freed i hi
  · intro fd (hfd : fd ∈ fs'.fdLst)
    rw [he.fdLst] at hfd
    obtain ⟨nd, hnd⟩ := h.live fd hfd
    cases hn : fs'.nodes fd.node with
    | some nb => exact ⟨nb, rfl⟩
    | none =>
      -- a node that this descriptor refers to was not destroyed
      have h0 := he.gone fd.node nd hnd hn
      rw [h.count fd.node nd hnd, refs] at h0
      exact absurd (List.countP_eq_zero.1 h0 fd hfd) (by simp)
  · intro n nb hnb
    show nb.refCnt = refs fs' n
    rw [hrefs]
    rcases he.here n nb hnb with ⟨nd, hnd, hr⟩ | ⟨hnone, _, h0⟩
    · rw [hr]
      exact h.count n nd hnd
    · rw [h0, h.refs_none hnone]

theorem fsFdAlloc_live {fs : Fs} {n : Addr} {nd : FsNode} (hn : fs.nodes n = some nd) (mode mask : UInt32) :
    fsFdAlloc fs (some n) mode mask =
      .ok (none, { fs with heap := { fs.heap with next := fs.heap.next + 1 }, fdCnt := fs.fdCnt + 1 }) ∨
    ∃ fd : FsFiled, fd.self = fs.heap.next ∧ fd.id = fs.fdCnt + 1 ∧ fd.node = n ∧
      fsFdAlloc fs (some n) mode mask = .ok (some fd, { fs with
        heap := { fs.heap with next := fs.heap.next + 1 }, fdCnt := fs.fdCnt + 1, fdLst := fs.fdLst ++ [fd],
        nodes := fs.nodes.set n { nd with refCnt := nd.refCnt + 1 } }) := by
  unfold fsFdAlloc
  dsimp only
  split
  · rename_i hm
    obtain ⟨_, rfl⟩ := malloc_none hm
    exact Or.inl rfl
  · rename_i a _ hm
    obtain ⟨rfl, _, rfl⟩ := malloc_some hm
    rw [hn]
    exact Or.inr ⟨_, rfl, rfl, rfl, rfl⟩

theorem alloc_inv {s : Tab} (h : Inv s) {n : Addr} {nd : FsNode} (hn : s.fs.nodes n = some nd) (mode mask : UInt32) :
    ∃ r fs', fsFdAlloc s.fs (some n) mode mask = .ok (r, fs') ∧ fs'.fdCnt = s.fs.fdCnt + 1 ∧
      Inv ⟨fs', s.given ++ r.toList, s.freed⟩ := by
  rcases fsFdAlloc_live hn mode mask with hr | ⟨fd, hself, hid, hnode, hr⟩
  · have hstart := h.start
    refine ⟨none, _, hr, rfl, h.tree.congr (Nat.le_succ _) rfl, ?_, ?_, ?_, ?_, ?_, ?_, ?_, h.live, h.count⟩ <;>
      simp only [Option.toList_none, List.append_nil]
    · omega
    · exact h.table
    · exact fun fd hfd => ⟨(h.ids fd hfd).1, (h.ids fd hfd).2.trans (by simp)⟩
    · exact h.idsNodup
    · exact fun fd hfd => Nat.lt_succ_of_lt (h.selfs fd hfd)
    · exact h.selfsNodup
    · exact fun i hi => (h.freed i hi).trans (by simp)
  · have hstart := h.start
    -- the id is drawn for the first time, and the address is fresh
    have hidnew : fd.id ∉ s.given.map FsFiled.id := by
      intro hm
      obtain ⟨f, hf, he⟩ := List.mem_map.1 hm
      have hle := (h.ids f hf).2
      omega
    have hselfnew : fd.self ∉ s.given.map FsFiled.self := by
      intro hm
      obtain ⟨f, hf, he⟩ := List.mem_map.1 hm
      have hlt := h.selfs f hf
      rw [he, hself] at hlt
      exact lt_irrefl _ hlt
    have hfreed : fd.id ∉ s.freed := by
      intro hm
      have hle := h.freed _ hm
      omega
    refine ⟨some fd, _, hr, rfl, h.tree.setRef hn _ (Nat.le_succ _) rfl, ?_, ?_, ?_, ?_, ?_, ?_, ?_, ?_, ?_⟩ <;>
      simp only [Option.toList_some]
    · omega
    · rw [List.filter_append, ← h.table]
      simp [hfreed]
    · intro f hf
      rcases List.mem_append.1 hf with hf | hf
      · exact ⟨(h.ids f hf).1, (h.ids f hf).2.trans (by simp)⟩
      · rw [List.mem_singleton.1 hf, hid]
        omega
    · rw [List.map_append, List.map_singleton, ← List.concat_eq_append]
      exact h.idsNodup.concat hidnew
    · intro f hf
      rcases List.mem_append.1 hf with hf | hf
      · exact Nat.lt_succ_of_lt (h.selfs f hf)
      · rw [List.mem_singleton.1 hf, hself]
        exact Nat.lt_succ_self _
    · rw [List.map_append, List.map_singleton, ← List.concat_eq_append]
      exact h.selfsNodup.concat hselfnew
    · exact fun i hi => (h.freed i hi).trans (by simp)
    · intro f hf
      rcases List.mem_append.1 hf with hf | hf
      · exact Table.live_set _ (h.live f hf)
      · rw [List.mem_singleton.1 hf, hnode]
        exact ⟨_, Table.set_self _ _ _⟩
    · intro m md hm
      simp only [refs, List.countP_append, List.countP_singleton, hnode]
      rw [Table.set_apply] at hm
      split_ifs at hm with h1
      · cases hm
        rw [h1]
        simp only [decide_true, if_true]
        rw [h.count n nd hn, refs]
      · rw [h.count m md hm, refs]
        simp [Ne.symm h1]

theorem fsFdFree_live {fs : Fs} {fd : FsFiled} {nd : FsNode} (hn : fs.nodes fd.node = some nd) :
    fsFdFree fs fd = .ok { fs with
      fdLst := fs.fdLst.filter fun f => f.self ≠ fd.self
      nodes := fs.nodes.set fd.node { nd with refCnt := nd.refCnt - 1 } } := by
  rw [fsFdFree, hn]

theorem free_inv {s : Tab} (h : Inv s) {fd : FsFiled} (hfd : fd ∈ s.fs.fdLst) :
    ∃ fs', fsFdFree s.fs fd = .ok fs' ∧ fs'.fdCnt = s.fs.fdCnt ∧ Inv ⟨fs', s.given, s.freed ++ [fd.id]⟩ := by
  obtain ⟨nd, hn⟩ := h.live fd hfd
  have hgiven : ∀ f ∈ s.fs.fdLst, f ∈ s.given := by
    intro f hf
    rw [h.table] at hf
    exact List.mem_of_mem_filter hf
  have hnodup : s.fs.fdLst.Nodup := by
    rw [h.table]
    exact (List.Nodup.of_map _ h.idsNodup).filter _
  -- one entry goes, whether it is told by its address or by its id
  have hself : (s.fs.fdLst.filter fun f => f.self ≠ fd.self) = s.fs.fdLst.erase fd := by
    rw [hnodup.erase_eq_filter]
    refine List.filter_congr fun f hf => ?_
    have hiff : f.self = fd.self ↔ f = fd :=
      ⟨fun he => List.inj_on_of_nodup_map h.selfsNodup (hgiven f hf) (hgiven fd hfd) he, fun he => he ▸ rfl⟩
    rw [Bool.eq_iff_iff]
    simp [hiff]
  have hids : (s.fs.fdLst.filter fun f => f.id ≠ fd.id) = s.fs.fdLst.erase fd := by
    rw [hnodup.erase_eq_filter]
    refine List.filter_congr fun f hf => ?_
    have hiff : f.id = fd.id ↔ f = fd :=
      ⟨fun he => List.inj_on_of_nodup_map h.idsNodup (hgiven f hf) (hgiven fd hfd) he, fun he => he ▸ rfl⟩
    rw [Bool.eq_iff_iff]
    simp [hiff]
  refine ⟨_, fsFdFree_live hn, rfl, h.tree.setRef hn _ le_rfl rfl, h.start, ?_, h.ids, h.idsNodup, h.selfs,
    h.selfsNodup, ?_, ?_, ?_⟩
  · show (s.fs.fdLst.filter fun f => f.self ≠ fd.self) = _
    rw [hself, ← hids, h.table, List.filter_filter]
    refine List.filter_congr fun f _ => ?_
    simp [and_comm]
  · intro i hi
    rcases List.mem_append.1 hi with hi | hi
    · exact h.freed i hi
    · rw [List.mem_singleton.1 hi]
      exact (h.ids fd (hgiven fd hfd)).2
  · intro f hf
    exact Table.live_set _ (h.live f (List.mem_of_mem_filter hf))
  · intro m md hm
    show md.refCnt = (s.fs.fdLst.filter fun f => f.self ≠ fd.self).countP _
    rw [hself, List.countP_erase]
    simp only [Table.set_apply] at hm
    split_ifs at hm with h1
    · cases hm
      have hc := h.count fd.node nd hn
      rw [h1]
      simp only [refs] at hc
      simp [hc, hfd]
    · have hc := h.count m md hm
      simp only [refs] at hc
      simp [hc, Ne.symm h1]

/-! ## Every sequence of calls -/

/-- an allowed call completes, keeps the invariant, and draws an id when it is an allocation -/
theorem step_inv {s : Tab} (h : Inv s) {a : Act} (ha : Allowed s a) :
    ∃ s', step s a = some s' ∧ Inv s' ∧ s'.fs.fdCnt = s.fs.fdCnt + allocs [a] := by
  cases a with
  | alloc node mode mask =>
    obtain ⟨nd, hn⟩ := ha
    obtain ⟨r, fs', hr, hcnt, hi⟩ := alloc_inv h hn mode mask
    exact ⟨⟨fs', s.given ++ r.toList, s.freed⟩, by simp only [step, hr], hi, hcnt⟩
  | free fd =>
    obtain ⟨fs', hr, hcnt, hi⟩ := free_inv h ha
    exact ⟨⟨fs', s.given, s.freed ++ [fd.id]⟩, by simp only [step, hr], hi, by simpa [allocs] using hcnt⟩
  | create parent name nameLen type data fsId =>
    obtain ⟨r, fs', hr, ht, he⟩ := fsNodeCreate_spec h.tree ha name data fsId
    exact ⟨{ s with fs := fs' }, by simp only [step, hr], edited_inv h ht he, by simpa [allocs] using he.fdCnt⟩
  | destroy node =>
    obtain ⟨nd, p, hn, hp⟩ := ha
    obtain ⟨r, fs', hr, ht, hpr, _⟩ := fsNodeDestroy_spec h.tree hn hp
    have he := hpr.edited
    exact ⟨{ s with fs := fs' }, by simp only [step, hr], edited_inv h ht he, by simpa [allocs] using he.fdCnt⟩

theorem run_inv {s : Tab} {acts : List Act} (h : Inv s) (hg : Guarded step Allowed s acts) :
    ∃ s', run step s acts = some s' ∧ Inv s' ∧ s'.fs.fdCnt = s.fs.fdCnt + allocs acts := by
  induction acts generalizing s with
  | nil => exact ⟨s, rfl, h, by simp [allocs]⟩
  | cons a acts ih =>
    obtain ⟨s1, hs1, hi1, hc1⟩ := step_inv h hg.head
    obtain ⟨s2, hs2, hi2, hc2⟩ := ih hi1 (hg.tail hs1)
    refine ⟨s2, run_cons_some.2 ⟨s1, hs1, hs2⟩, hi2, ?_⟩
    have hsum : allocs (a :: acts) = allocs [a] + allocs acts := by
      cases a <;> simp [allocs, Nat.add_comm]
    rw [hc2, hc1, hsum]
    push_cast
    ring

theorem Inv.acquire {s : Tab} (h : Inv s) (id : ℤ) :
    fsFdAcquire s.fs id = if id ∈ s.freed then none else s.given.find? fun fd => fd.id = id := by
  rw [fsFdAcquire, h.table, List.find?_filter]
  split_ifs with hid
  · apply List.find?_eq_none.2
    intro fd _ hfd
    simp only [decide_not, Bool.not_eq_true', decide_eq_false_iff_not, decide_eq_true_eq] at hfd
    exact hfd.1 (hfd.2 ▸ hid)
  · congr 1
    funext fd
    rw [Bool.eq_iff_iff]
    simp only [decide_not, Bool.not_eq_true', decide_eq_false_iff_not, decide_eq_true_eq]
    exact ⟨fun hfd => hfd.2, fun hfd => ⟨hfd ▸ hid, hfd⟩⟩

/-- **The descriptor table stays consistent.** Every sequence of allowed calls with fewer than 2^31 allocations
completes. Then the descriptors in the table have distinct positive ids, an id finds the descriptor that was allocated
with it until that is freed, counts are the numbers of descriptors, and no descriptor refers to a destroyed node. -/
theorem descriptor_table {fs : Fs} {acts : List Act} (h0 : Unused fs) (hg : Guarded step Allowed ⟨fs, [], []⟩ acts)
    (hlt : allocs acts < 2 ^ 31) : ∃ s, run step ⟨fs, [], []⟩ acts = some s ∧
      (s.fs.fdLst.map FsFiled.id).Nodup ∧ (∀ fd ∈ s.fs.fdLst, 0 < fd.id ∧ fd.id < 2 ^ 31) ∧
      (s.given.map FsFiled.id).Nodup ∧
      (∀ id, fsFdAcquire s.fs id = if id ∈ s.freed then none else s.given.find? fun fd => fd.id = id) ∧
      (∀ n nd, s.fs.nodes n = some nd → nd.refCnt = s.fs.fdLst.countP fun fd => fd.node = n) ∧
      ∀ fd ∈ s.fs.fdLst, ∃ nd, s.fs.nodes fd.node = some nd := by
  obtain ⟨s, hs, hi, hcnt⟩ := run_inv (unused_inv h0) hg
  have hcnt' : s.fs.fdCnt = allocs acts := by rw [hcnt, h0.fdCnt, zero_add]
  have hsub : s.fs.fdLst.Sublist s.given := by
    rw [hi.table]
    exact List.filter_sublist
  refine ⟨s, hs, hi.idsNodup.sublist (hsub.map _), ?_, hi.idsNodup, hi.acquire, hi.count, hi.live⟩
  intro fd hfd
  obtain ⟨hpos, hle⟩ := hi.ids fd (hsub.subset hfd)
  exact ⟨hpos, by omega⟩

/-- one registered file system -/
def sampleFs : Fs := ⟨⟨fun _ => true, 1⟩, [⟨0, 7, ⟨true, true⟩⟩], [], 0, fun _ => none⟩

/-- a directory with a node in it; the node is opened twice and closed once, and survives its destruction -/
def sampleActs : List Act :=
  [.create none (str "dir") 3 .dir none 7, .create (some 1) (str "n") 1 .reg none 7, .alloc 3 oRdwr 0, .alloc 3 oRdwr 0,
    .free ⟨4, 1, 0, 3, oRdwr, 0⟩, .destroy 3]

theorem descriptor_table_sample : ∃ s, run step ⟨sampleFs, [], []⟩ sampleActs = some s ∧
    (∀ n nd, s.fs.nodes n = some nd → nd.refCnt = s.fs.fdLst.countP fun fd => fd.node = n) ∧
    fsFdAcquire s.fs 1 = if 1 ∈ s.freed then none else s.given.find? fun fd => fd.id = 1 := by
  obtain ⟨s, hs, _, _, _, hacq, hcount, _⟩ :=
    @descriptor_table sampleFs sampleActs ⟨rfl, rfl, fun _ => rfl⟩ (by decide +kernel) (by decide)
  exact ⟨s, hs, hcount, hacq 1⟩

end EspHostdriver.DescriptorTable
