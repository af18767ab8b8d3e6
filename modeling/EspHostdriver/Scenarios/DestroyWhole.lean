/-
All or nothing: destroying a node of a tree that the calls of `bos/fs.c` built.

`fs_node_destroy` goes through the children before it knows that all of them can go, and what it has freed by the time
it meets a node in use is gone. The `.` and `..` of a directory are its first children, so a directory with an open file
in it loses them. A node without a parent has no list to be taken out of, and the call follows its null parent.

- `destroy_whole`: exactly when the call is all or nothing.
- `destroy_whole_fails`: a directory with an open file.
-/
import EspHostdriver.Bos.Creation

namespace EspHostdriver.DestroyWhole

/-- the call ends, with 0 exactly if nothing in the subtree is in use. On 0 the subtree is gone and the parent has its
other children, in order; on -1 nothing has changed. -/
def AllOrNothing (fs : Fs) (a : Addr) : Prop :=
  ∃ r fs', fsNodeDestroy fs a = .ok (r, fs') ∧ (r = 0 ↔ fs.Idle a) ∧
    (r = 0 → fs' = fs.without (fs.subtree a) ∧
      ∀ nd p pn, fs.nodes a = some nd → nd.parent = some p → fs.nodes p = some pn →
        ∃ pn', fs'.nodes p = some pn' ∧ pn'.childs = pn.childs.erase a) ∧
    (r ≠ 0 → r = -1 ∧ fs' = fs)

/-- of the children of the parent, only the node itself is in its subtree -/
theorem outside_childs {fs : Fs} {a p : Addr} {nd pn : FsNode} (ht : Tree fs) (ha : fs.nodes a = some nd)
    (hp : nd.parent = some p) (hpn : fs.nodes p = some pn) : outside (fs.subtree a) pn.childs = pn.childs.erase a := by
  rw [(ht.once p pn hpn).erase_eq_filter]
  refine List.filter_congr fun c hc => ?_
  have hiff : c ∈ fs.subtree a ↔ c = a := by
    constructor
    · intro hm
      by_contra hne
      exact ht.isForest.not_under_sibling (ht.child ha hp) ⟨pn, hpn, hc⟩ (Ne.symm hne) hm
    · intro he
      exact he ▸ fs.self_mem c
  rw [Bool.eq_iff_iff]
  simp [hiff]

/-- a call that fails is all or nothing when it has changed nothing -/
theorem busy_whole {fs : Fs} {a : Addr} (hidle : ¬ fs.Idle a)
    (hr : ∃ fs', fsNodeDestroy fs a = .ok (-1, fs') ∧ (fs' = fs ↔ FirstInUse fs a)) :
    AllOrNothing fs a ↔ FirstInUse fs a := by
  obtain ⟨fs', hr, hiff⟩ := hr
  rw [← hiff]
  constructor
  · intro h
    obtain ⟨r, fs1, hr1, _, _, hno⟩ := h
    rw [hr, ok_pair] at hr1
    obtain ⟨rfl, rfl⟩ := hr1
    exact (hno (by decide)).2
  · intro h
    exact ⟨-1, fs', hr, iff_of_false (by decide) hidle, fun h0 => absurd h0 (by decide), fun _ => ⟨rfl, h⟩⟩

theorem child_whole {fs : Fs} {a p : Addr} {nd : FsNode} (ht : Tree fs) (ha : fs.nodes a = some nd)
    (hp : nd.parent = some p) : AllOrNothing fs a ↔ FirstInUse fs a ∨ fs.Idle a := by
  have hex := fsNodeDestroy_exact ht ha hp
  by_cases hidle : fs.Idle a
  · refine iff_of_true ⟨0, _, hex.idle hidle, iff_of_true rfl hidle, fun _ => ⟨rfl, ?_⟩, fun h => absurd rfl h⟩
      (Or.inr hidle)
    intro nd' q pn ha' hq hpn
    rw [ha] at ha'
    cases ha'
    -- the parent is older than the node, so it is not in the subtree
    have hout : q ∉ fs.subtree a := fun hm => absurd (ht.subtree_le hm) (ht.parent_lt ha hq).not_ge
    exact ⟨_, without_some hout hpn, outside_childs ht ha hq hpn⟩
  · rw [busy_whole hidle (hex.busy hidle), or_iff_left hidle]

theorem root_whole {fs : Fs} {a : Addr} {nd : FsNode} (ht : Tree fs) (ha : fs.nodes a = some nd)
    (hp : nd.parent = none) : AllOrNothing fs a ↔ FirstInUse fs a := by
  obtain ⟨hstuck, hbusy⟩ := fsNodeDestroy_root ht ha hp
  by_cases hidle : fs.Idle a
  · refine iff_of_false ?_ fun h => h.busy hidle
    intro h
    obtain ⟨r, fs', hr, _⟩ := h
    rw [hstuck hidle] at hr
    cases hr
  · exact busy_whole hidle (hbusy hidle)

/-- **Destroying a node is all or nothing exactly** when the node, or the first of its entries all the way down, is in
use, or when the node has a parent and nothing in its subtree is in use. -/
theorem destroy_whole {fs : Fs} (hb : Built fs) {a : Addr} {nd : FsNode} (ha : fs.nodes a = some nd) :
    AllOrNothing fs a ↔ FirstInUse fs a ∨ (nd.parent ≠ none ∧ fs.Idle a) := by
  cases hp : nd.parent with
  | some p =>
    rw [child_whole hb.tree ha hp]
    simp
  | none =>
    rw [root_whole hb.tree ha hp]
    simp

/-! ## A directory with an open file -/

def made (fs : Fs) (parent : Option Addr) (name : Bytes) (type : FileType) : Fs :=
  match fsNodeCreate fs parent name name.length type none 0 with
  | .ok (_, fs') => fs'
  | .error _ => fs

theorem built_made {fs : Fs} (hb : Built fs) {parent : Option Addr} (hp : ParentOk fs parent) (name : Bytes)
    (type : FileType) : Built (made fs parent name type) := by
  unfold made
  split
  · rename_i h
    exact Built.create hb hp h
  · exact hb

def opened (fs : Fs) (a : Addr) : Fs :=
  match fsFdAlloc fs (some a) oRdwr 0 with
  | .ok (_, fs') => fs'
  | .error _ => fs

theorem built_opened {fs : Fs} (hb : Built fs) (a : Addr) : Built (opened fs a) := by
  unfold opened
  split
  · rename_i h
    exact Built.alloc hb h
  · exact hb

/-- one registered file system, no nodes -/
def empty : Fs := (fsRegister ⟨⟨fun _ => true, 0⟩, [], [], 0, fun _ => none⟩ (some ⟨true, true⟩)).2

/-- the root 1 with its `.`, below it the directory 3 with its `.` (4), its `..` (5) and the file 6 -/
def tree : Fs := made (made (made empty none [] .dir) (some 1) (str "d") .dir) (some 3) (str "f") .reg

theorem tree_built : Built tree := by
  have h0 : Built empty := Built.register _ (Built.start fun _ => rfl)
  have h1 := built_made h0 (parentOk_none empty) [] .dir
  have h2 : Built (made (made empty none [] .dir) (some 1) (str "d") .dir) := built_made h1 (parentOk_some rfl) (str "d") .dir
  exact built_made h2 (parentOk_some rfl) (str "f") .reg

/-- a file in use, and the directory with its links and the file, nothing of it in use -/
theorem destroy_whole_sample : AllOrNothing (opened tree 6) 6 ∧ AllOrNothing tree 3 := by
  refine ⟨(destroy_whole (built_opened tree_built 6) (a := 6) rfl).2 (Or.inl ?_),
    (destroy_whole tree_built (a := 3) rfl).2 (Or.inr ⟨nofun, ?_⟩)⟩
  · exact FirstInUse.self rfl (by decide)
  · have hleaf : ∀ {a nd}, tree.nodes a = some nd → nd.refCnt = 0 → nd.childs = [] → tree.Idle a := fun hn hr hc =>
      (idle_iff hn).2 ⟨hr, fun c hm => by simp [hc] at hm⟩
    refine (idle_iff rfl).2 ⟨rfl, fun c hc => ?_⟩
    have hchilds : c ∈ [4, 5, 6] := hc
    simp only [List.mem_cons, List.not_mem_nil, or_false] at hchilds
    rcases hchilds with rfl | rfl | rfl
    · exact hleaf rfl rfl rfl
    · exact hleaf rfl rfl rfl
    · exact hleaf rfl rfl rfl

/-- the directory 3 is not destroyed, since a descriptor refers to its file, but its `.` and its `..` are gone -/
theorem destroy_whole_fails : ∃ fs nd, Built fs ∧ fs.nodes 3 = some nd ∧ nd.childs = [4, 5, 6] ∧
    (∃ fs' nd', fsNodeDestroy fs 3 = .ok (-1, fs') ∧ fs'.nodes 3 = some nd' ∧ nd'.childs = [6]) ∧
    ¬ AllOrNothing fs 3 := by
  have hr : (fsNodeDestroy (opened tree 6) 3).toOption.map (fun p => (p.1, (p.2.nodes 3).map FsNode.childs)) =
      some (-1, some [6]) := by decide +kernel
  obtain ⟨⟨r, fs'⟩, hd, hr⟩ := Option.map_eq_some_iff.1 hr
  simp only [Prod.mk.injEq, Option.map_eq_some_iff] at hr
  obtain ⟨rfl, nd', hn', hch⟩ := hr
  have hcall := toOption_some hd
  refine ⟨opened tree 6, _, built_opened tree_built 6, rfl, rfl, ⟨fs', nd', hcall, hn', hch⟩, fun h => ?_⟩
  obtain ⟨r, fs1, hr1, _, _, hno⟩ := h
  rw [hcall, ok_pair] at hr1
  obtain ⟨rfl, rfl⟩ := hr1
  rw [(hno (by decide)).2] at hn'
  obtain rfl := Option.some.inj hn'
  exact absurd hch (by decide)

end EspHostdriver.DestroyWhole
