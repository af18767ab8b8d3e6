/-
All or nothing: creating a node in a tree that the calls of `bos/fs.c` built.

`fs_node_create` calls itself for the links of a directory and takes the directory back through `fs_node_destroy` when
one of them cannot be created. That works below a parent. A directory without parent has only the `.` to be created; if
its allocation fails, `fs_node_destroy` follows the null parent.

- `Created`: what a call that returns a node has done; `Untouched`: the tree is as it was.
- `create_whole`: exactly when the call does one or the other.
- `create_whole_fails`: the second allocation of the file system's root fails.
-/
import EspHostdriver.Bos.Creation

namespace EspHostdriver.CreateWhole

/-- the entries of a new directory: their names and the nodes they refer to -/
def links (type : FileType) (parent : Option Addr) (a : Addr) : List (Bytes × Addr) :=
  if type = .dir then (str ".", a) :: parent.toList.map fun p => (str "..", p) else []

/-- the node `c` is a link of that name below `a` to that node -/
def IsLink (fs : Fs) (a c : Addr) (link : Bytes × Addr) : Prop :=
  ∃ ln, fs.nodes c = some ln ∧ ln.type = .lnk ∧ ln.name = link.1 ∧ ln.data = some link.2 ∧ ln.parent = some a ∧
    ln.childs = [] ∧ ln.refCnt = 0

/-- the record of the new node -/
structure IsNew (fs fs' : Fs) (parent : Option Addr) (name : Bytes) (nameLen : ℕ) (type : FileType) (data : Option Addr)
    (fsId : ℤ) (a : Addr) (nd : FsNode) : Prop where
  here : fs'.nodes a = some nd
  childs : List.Forall₂ (IsLink fs' a) nd.childs (links type parent a)
  ops : ∃ f ∈ fs.fsLst, f.id = fsId ∧ nd.ops = f.self
  fsId : nd.fsId = fsId
  name : nd.name = cstr (name.take nameLen)
  type : nd.type = type
  data : nd.data = data
  parent : nd.parent = parent
  refCnt : nd.refCnt = 0

/-- `a` is a new node, the last child of its parent; with its links it is all that has come, and nothing else changed -/
def Created (fs fs' : Fs) (parent : Option Addr) (name : Bytes) (nameLen : ℕ) (type : FileType) (data : Option Addr)
    (fsId : ℤ) (a : Addr) : Prop :=
  fs.nodes a = none ∧ fs' = { fs with heap := fs'.heap, nodes := fs'.nodes } ∧
    (∀ p, parent = some p → ∃ pn, fs.nodes p = some pn ∧ fs'.nodes p = some { pn with childs := pn.childs ++ [a] }) ∧
    ∃ nd, IsNew fs fs' parent name nameLen type data fsId a nd ∧
      ∀ b, b ≠ a → parent ≠ some b → b ∉ nd.childs → fs'.nodes b = fs.nodes b

/-- the call comes back, with a new node or with null and the tree as it was -/
def Atomic (fs : Fs) (parent : Option Addr) (name : Bytes) (nameLen : ℕ) (type : FileType) (data : Option Addr)
    (fsId : ℤ) : Prop :=
  (∃ a fs', fsNodeCreate fs parent name nameLen type data fsId = .ok (some a, fs') ∧
    Created fs fs' parent name nameLen type data fsId a) ∨
  ∃ fs', fsNodeCreate fs parent name nameLen type data fsId = .ok (none, fs') ∧ Untouched fs fs'

/-- the root of a registered file system: there is memory for the node and none for its `.` -/
def RootStuck (fs : Fs) (parent : Option Addr) (type : FileType) (fsId : ℤ) : Prop :=
  parent = none ∧ type = .dir ∧ (∃ f ∈ fs.fsLst, f.id = fsId) ∧ fs.heap.ok fs.heap.next = true ∧
    fs.heap.ok (fs.heap.next + 1) = false

section Create

variable {fs : Fs} {parent data : Option Addr} {name : Bytes} {nameLen : ℕ} {type : FileType} {fsId : ℤ}

/-- a node that is no directory is there after the first step -/
theorem created_leaf (ht : Tree fs) {f : FsT} {fs1 : Fs} (hf : fs.fsLst.find? (fun f => f.id = fsId) = some f)
    (h : Hung fs (newNode f parent name nameLen type data fsId) fs1) (hdir : type ≠ .dir) :
    Created fs fs1 parent name nameLen type data fsId fs.heap.next := by
  refine ⟨ht.fresh_none le_rfl, by rw [h.rest], fun p hp => h.last hp, _, ⟨h.self ht, ?_, ⟨f, ?_, ?_, rfl⟩, rfl,
    take_cstr name nameLen, rfl, rfl, rfl, rfl⟩, fun b hb hp _ => h.other hb hp⟩
  · simp [newNode, links, hdir]
  · exact List.mem_of_find?_eq_some hf
  · simpa using List.find?_some hf

theorem isLink_hung {fs1 fs2 : Fs} {f : FsT} {a t : Addr} {nm : Bytes} {n : ℕ} {id : ℤ} (ht : Tree fs1)
    (h : Hung fs1 (newNode f (some a) nm n .lnk (some t) id) fs2) (hn : (cstr nm).take n = nm) :
    IsLink fs2 a fs1.heap.next (nm, t) :=
  ⟨_, h.self ht, rfl, hn, rfl, rfl, rfl, rfl⟩

theorem IsLink.congr {fs1 fs2 : Fs} {a c : Addr} {l : Bytes × Addr} (h : IsLink fs1 a c l)
    (hc : fs2.nodes c = fs1.nodes c) : IsLink fs2 a c l := by
  rw [IsLink, hc]
  exact h

/-- a directory after its `.` was created -/
structure Dotted (fs fs2 : Fs) (node : FsNode) : Prop where
  tree : Tree fs2
  rest : fs2 = { fs with heap := { fs.heap with next := fs.heap.next + 2 }, nodes := fs2.nodes }
  dir : fs2.nodes fs.heap.next = some { node with childs := [fs.heap.next + 1] }
  dot : IsLink fs2 fs.heap.next (fs.heap.next + 1) (str ".", fs.heap.next)
  last : ∀ p, node.parent = some p →
    ∃ pn, fs.nodes p = some pn ∧ fs2.nodes p = some { pn with childs := pn.childs ++ [fs.heap.next] }
  other : ∀ b, b ≠ fs.heap.next → b ≠ fs.heap.next + 1 → node.parent ≠ some b → fs2.nodes b = fs.nodes b
  new : ∀ b nb, fs.heap.next ≤ b → fs2.nodes b = some nb → nb.refCnt = 0
  without : ∀ S : Set Addr, fs.heap.next ∈ S → fs.heap.next + 1 ∈ S → (fs2.without S).nodes = (fs.without S).nodes

theorem hung_new {fs1 : Fs} {node : FsNode} (ht : Tree fs) (h : Hung fs node fs1) (hr : node.refCnt = 0) (b : Addr)
    (nb : FsNode) (hb : fs.heap.next ≤ b) (hn : fs1.nodes b = some nb) : nb.refCnt = 0 := by
  rw [h.new (ht.fresh_none hb) hn ht]
  exact hr

theorem dotted {fs1 fs2 : Fs} {node : FsNode} {f : FsT} (ht : Tree fs) (h1 : Hung fs node fs1)
    (h2 : Hung fs1 (newNode f (some fs.heap.next) (str ".") 1 .lnk (some fs.heap.next) fsId) fs2)
    (hch : node.childs = []) (hr : node.refCnt = 0) : Dotted fs fs2 node := by
  have ht1 := h1.tree ht hch
  have hnext : fs1.heap.next = fs.heap.next + 1 := by rw [h1.rest]
  obtain ⟨pn, hpn, hpn2⟩ := h2.last rfl
  rw [h1.self ht] at hpn
  obtain rfl := Option.some.inj hpn
  rw [hnext, hch, List.nil_append] at hpn2
  constructor
  · exact h2.tree ht1 rfl
  · rw [h2.rest, h1.rest]
  · exact hpn2
  · exact hnext ▸ isLink_hung ht1 h2 (by decide)
  · intro p hp
    obtain ⟨pn, hpn, hpn1⟩ := h1.last hp
    have hlt := ht.fresh p pn hpn
    refine ⟨pn, hpn, (h2.other ?_ ?_).trans hpn1⟩
    · rw [hnext]
      exact (Nat.lt_succ_of_lt hlt).ne
    · intro he
      exact hlt.ne' (Option.some.inj he)
  · intro b hb hb1 hp
    refine (h2.other (hnext ▸ hb1) ?_).trans (h1.other hb hp)
    intro he
    exact hb (Option.some.inj he).symm
  · intro b nb hb hn
    cases hb1 : fs1.nodes b with
    | none =>
      rw [h2.new hb1 hn ht1]
      rfl
    | some n1 =>
      obtain ⟨nb', hnb', hr'⟩ := h2.live ht1 hb1
      rw [hn] at hnb'
      obtain rfl := Option.some.inj hnb'
      rw [hr']
      exact hung_new ht h1 hr b n1 hb hb1
  · intro S hS hS1
    rw [h2.without (hnext ▸ hS1), h1.without hS]

theorem created_root {fs2 : Fs} {f : FsT} (ht : Tree fs) (hf : fs.fsLst.find? (fun f => f.id = fsId) = some f)
    (h : Dotted fs fs2 (newNode f none name nameLen .dir data fsId)) :
    Created fs fs2 none name nameLen .dir data fsId fs.heap.next := by
  refine ⟨ht.fresh_none le_rfl, by rw [h.rest], nofun, _, ⟨h.dir, ?_, ⟨f, ?_, ?_, rfl⟩, rfl, take_cstr name nameLen, rfl,
    rfl, rfl, rfl⟩, fun b hb hp hc => h.other b hb (fun he => hc (he ▸ List.mem_cons_self)) hp⟩
  · exact List.Forall₂.cons h.dot List.Forall₂.nil
  · exact List.mem_of_find?_eq_some hf
  · simpa using List.find?_some hf

theorem created_below {fs2 fs3 : Fs} {f f3 : FsT} {p : Addr} {id : ℤ} (ht : Tree fs)
    (hf : fs.fsLst.find? (fun f => f.id = fsId) = some f)
    (h : Dotted fs fs2 (newNode f (some p) name nameLen .dir data fsId))
    (h3 : Hung fs2 (newNode f3 (some fs.heap.next) (str "..") 2 .lnk (some p) id) fs3) :
    Created fs fs3 (some p) name nameLen .dir data fsId fs.heap.next := by
  have hnext : fs2.heap.next = fs.heap.next + 2 := by rw [h.rest]
  have hother : ∀ b, b ≠ fs.heap.next → b ≠ fs.heap.next + 2 → fs3.nodes b = fs2.nodes b := by
    intro b hb hb2
    exact h3.other (hnext ▸ hb2) fun he => hb (Option.some.inj he).symm
  obtain ⟨an, han, han3⟩ := h3.last rfl
  rw [h.dir] at han
  obtain rfl := Option.some.inj han
  rw [hnext] at han3
  refine ⟨ht.fresh_none le_rfl, by rw [h3.rest, h.rest], ?_, _, ⟨han3, ?_, ⟨f, ?_, ?_, rfl⟩, rfl, take_cstr name nameLen,
    rfl, rfl, rfl, rfl⟩, ?_⟩
  · intro q hq
    obtain ⟨pn, hpn, hpn2⟩ := h.last q hq
    have hlt := ht.fresh q pn hpn
    refine ⟨pn, hpn, (hother q hlt.ne ?_).trans hpn2⟩
    intro he
    rw [he] at hlt
    exact absurd hlt (by simp)
  · refine List.Forall₂.cons (h.dot.congr (hother _ ?_ ?_)) (List.Forall₂.cons ?_ List.Forall₂.nil)
    · exact Nat.succ_ne_self _
    · exact (Nat.lt_succ_self _).ne
    · exact hnext ▸ isLink_hung h.tree h3 (by decide)
  · exact List.mem_of_find?_eq_some hf
  · simpa using List.find?_some hf
  · intro b hb hp hc
    rw [hother b hb fun he => hc (by simp [he])]
    exact h.other b hb (fun he => hc (by simp [he])) hp

/-- a directory below a parent is taken back -/
theorem undone {fs2 : Fs} {node : FsNode} {p : Addr} (ht : Tree fs) (ht2 : Tree fs2) (hp : node.parent = some p)
    (hrest : fs2 = { fs with heap := fs2.heap, nodes := fs2.nodes }) (hn : fs2.nodes fs.heap.next = some node)
    (hcreate : fsNodeCreate fs parent name nameLen type data fsId = fsNodeUndo fs2 fs.heap.next)
    (hnew : ∀ b nb, fs.heap.next ≤ b → fs2.nodes b = some nb → nb.refCnt = 0)
    (hw : (fs2.without (fs2.subtree fs.heap.next)).nodes = (fs.without (fs2.subtree fs.heap.next)).nodes) :
    Atomic fs parent name nameLen type data fsId := by
  obtain ⟨fs', hu, hsame⟩ := undo_exact ht ht2 hrest hn hp hnew hw
  exact Or.inr ⟨fs', hcreate.trans hu, hsame⟩

theorem dir_below {p : Addr} (ht : Tree fs) (hp : ParentOk fs (some p)) (hlen : nameLen ≤ 31) :
    Atomic fs (some p) name nameLen .dir data fsId := by
  rcases fsNodeMake_exact hp hlen name .dir data fsId with ⟨_, k, h1⟩ | ⟨f, fs1, hf, _, h1, hung1⟩
  · exact Or.inr ⟨_, by rw [fsNodeCreate, h1], untouched_skip fs k⟩
  have ht1 := hung1.tree ht rfl
  have ha1 := hung1.self ht
  rcases fsNodeMake_exact (parentOk_some ha1) (show 1 ≤ 31 by omega) (str ".") .lnk (some fs.heap.next) fsId with
    ⟨_, k, h2⟩ | ⟨f2, fs2, _, _, h2, hung2⟩
  · refine undone ht (ht1.skip k) rfl (by rw [Fs.skip, hung1.rest]) ha1 ?_
      (fun b nb hb hn => hung_new ht hung1 rfl b nb hb hn) ?_
    · simp only [fsNodeCreate, h1, ne_eq, not_true_eq_false, if_false, h2]
    · rw [skip_without]
      exact hung1.without (Fs.self_mem _ _)
  · have hd := dotted ht hung1 hung2 rfl rfl
    obtain ⟨pn, _, hpn2⟩ := hd.last p rfl
    rcases fsNodeMake_exact (parentOk_some hd.dir) (show 2 ≤ 31 by omega) (str "..") .lnk (some p) pn.fsId with
      ⟨_, k, h3⟩ | ⟨f3, fs3, _, _, h3, hung3⟩
    · refine undone ht (hd.tree.skip k) rfl (by rw [Fs.skip, hd.rest]) hd.dir ?_ hd.new ?_
      · simp only [fsNodeCreate, h1, ne_eq, not_true_eq_false, if_false, h2, hpn2, h3]
      · rw [skip_without]
        exact hd.without _ (Fs.self_mem _ _) (Forest.under_child ⟨_, hd.dir, by simp⟩)
    · refine Or.inl ⟨_, fs3, ?_, created_below ht hf hd hung3⟩
      simp only [fsNodeCreate, h1, ne_eq, not_true_eq_false, if_false, h2, hpn2, h3]

theorem dir_root (ht : Tree fs) (hlen : nameLen ≤ 31) :
    Atomic fs none name nameLen .dir data fsId ↔ ¬ RootStuck fs none .dir fsId := by
  rcases fsNodeMake_exact (parentOk_none fs) hlen name .dir data fsId with ⟨hno, k, h1⟩ | ⟨f, fs1, hf, hok, h1, hung1⟩
  · refine iff_of_true (Or.inr ⟨_, by rw [fsNodeCreate, h1], untouched_skip fs k⟩) ?_
    intro h
    obtain ⟨_, _, ⟨f, hf, hid⟩, hok, _⟩ := h
    rcases hno with hnone | hfull
    · exact List.find?_eq_none.1 hnone f hf (decide_eq_true hid)
    · rw [hok] at hfull
      cases hfull
  · have ha1 := hung1.self ht
    have hheap : fs1.heap = { fs.heap with next := fs.heap.next + 1 } := by rw [hung1.rest]
    have hlst : fs1.fsLst = fs.fsLst := by rw [hung1.rest]
    rcases fsNodeMake_exact (parentOk_some ha1) (show 1 ≤ 31 by omega) (str ".") .lnk (some fs.heap.next) fsId with
      ⟨hno, k, h2⟩ | ⟨f2, fs2, _, hok2, h2, hung2⟩
    · -- the file system is known, so it is the memory that is short
      have hfull : fs.heap.ok (fs.heap.next + 1) = false := by
        rcases hno with hnone | hfull
        · rw [hlst, hf] at hnone
          cases hnone
        · rw [hheap] at hfull
          exact hfull
      have hknown : ∃ f ∈ fs.fsLst, f.id = fsId := ⟨f, List.mem_of_find?_eq_some hf, by simpa using List.find?_some hf⟩
      refine iff_of_false ?_ fun h => h ⟨rfl, rfl, hknown, hok, hfull⟩
      have hstuck := fsNodeCreate_stuck ht h1 hfull
      intro h
      rcases h with ⟨a, fs', hr, _⟩ | ⟨fs', hr, _⟩
      · rw [hstuck] at hr
        cases hr
      · rw [hstuck] at hr
        cases hr
    · refine iff_of_true (Or.inl ⟨_, fs2, ?_, created_root ht hf (dotted ht hung1 hung2 rfl rfl)⟩) ?_
      · simp only [fsNodeCreate, h1, ne_eq, not_true_eq_false, if_false, h2]
      · intro h
        obtain ⟨_, _, _, _, hfull⟩ := h
        rw [hheap] at hok2
        exact absurd (hok2.symm.trans hfull) (by decide)

/-- **Creating a node is all or nothing exactly** when it is not stuck with a root whose `.` finds no memory. -/
theorem create_whole (hb : Built fs) (hp : ParentOk fs parent) (hlen : nameLen ≤ 31) :
    Atomic fs parent name nameLen type data fsId ↔ ¬ RootStuck fs parent type fsId := by
  by_cases hdir : type = .dir
  · subst hdir
    cases parent with
    | none => exact dir_root hb.tree hlen
    | some p => exact iff_of_true (dir_below hb.tree hp hlen) fun h => nomatch h.1
  · refine iff_of_true ?_ fun h => hdir h.2.1
    rcases fsNodeMake_exact hp hlen name type data fsId with ⟨_, k, h1⟩ | ⟨f, fs1, hf, _, h1, hung1⟩
    · exact Or.inr ⟨_, by rw [fsNodeCreate, h1], untouched_skip fs k⟩
    · exact Or.inl ⟨_, fs1, by simp only [fsNodeCreate, h1, ne_eq, hdir, not_false_eq_true, if_true],
        created_leaf hb.tree hf hung1 hdir⟩

end Create

/-- one registered file system, no nodes -/
def known (ok : ℕ → Bool) : Fs := (fsRegister ⟨⟨ok, 0⟩, [], [], 0, fun _ => none⟩ (some ⟨true, true⟩)).2

theorem known_built (ok : ℕ → Bool) : Built (known ok) := Built.register _ (Built.start fun _ => rfl)

theorem create_whole_sample : Atomic (known fun _ => true) none (str "root") 4 .dir none 0 := by
  apply (create_whole (known_built _) (parentOk_none _) (by omega)).2
  intro h
  obtain ⟨_, _, _, _, hfull⟩ := h
  cases hfull

/-- the file system and the node take the first two allocations, the third one, for its `.`, fails -/
theorem create_whole_fails : ∃ fs, Built fs ∧ fsNodeCreate fs none [] 0 .dir none 0 = .error .nullNode ∧
    ¬ Atomic fs none [] 0 .dir none 0 := by
  have hr : fsNodeCreate (known fun i => i ≠ 2) none [] 0 .dir none 0 = .error .nullNode := rfl
  refine ⟨known fun i => i ≠ 2, known_built _, hr, fun h => ?_⟩
  rcases h with ⟨a, fs', hc, _⟩ | ⟨fs', hc, _⟩
  · rw [hr] at hc
    cases hc
  · rw [hr] at hc
    cases hc

end EspHostdriver.CreateWhole
