/-
Lean model of the singly linked list (`include/sys/list1.h`, `sys/list1.c`, the single-linked part of
`include/sys/list.h`) and what it implements.

Head and tail are two variables next to memory. An element that was removed keeps its link, and an element that is added
may have any link. To follow a null pointer ends the call (`none`).

- `Spells`: the links from head spell a sequence of distinct elements, and tail is the last one.
- `list1Init_spec`, `list1AddHead_spec`, `list1AddTail_spec`, `list1RmHead_spec`: each operation edits the sequence.
- `list1_sequence`: so does every sequence of them that starts with an empty list.
-/
import EspHostdriver.Core.Machine
import EspHostdriver.Sys.List2

namespace EspHostdriver

open Links Machine

/-! ## Model -/

/-- the variables for head and tail, and `list1_t` of every object -/
structure List1 where
  head : Ptr
  tail : Ptr
  next : Addr → Ptr

/-- `p->next = v` -/
def List1.setNext (s : List1) (p v : Ptr) : Option List1 :=
  p.map fun a => { s with next := Function.update s.next a v }

/-- `_list1_init` -/
def list1Init (s : List1) : Option List1 := do
  let s ← s.setNext s.head none
  some { s with tail := s.head }

/-- `_list1_add_head` -/
def list1AddHead (s : List1) (el : Ptr) : Option List1 := do
  let s ← s.setNext el s.head
  let s := { s with head := el }
  if s.tail = none then some { s with tail := s.head } else some s

/-- `_list1_add_tail` -/
def list1AddTail (s : List1) (el : Ptr) : Option List1 := do
  let s ← s.setNext el none
  let s ← if s.tail ≠ none then s.setNext s.tail el else some s
  let s := { s with tail := el }
  if s.head = none then some { s with head := el } else some s

/-- `_list1_rm_head` -/
def list1RmHead (s : List1) : Option List1 := do
  let s := if s.tail = s.head then { s with tail := none } else s
  let second ← s.head.map s.next
  some { s with head := second }

inductive List1Op where
  | addHead (el : Addr)
  | addTail (el : Addr)
  | rmHead
deriving DecidableEq, Repr

namespace List1Op

def apply (s : List1) : List1Op → Option List1
  | .addHead el => list1AddHead s (some el)
  | .addTail el => list1AddTail s (some el)
  | .rmHead => list1RmHead s

/-- what an operation does to the sequence; it is asked for with a new element, or while there is a first one -/
def edit (xs : List Addr) : List1Op → Option (List Addr)
  | .addHead el => if el ∈ xs then none else some (el :: xs)
  | .addTail el => if el ∈ xs then none else some (xs ++ [el])
  | .rmHead => if xs = [] then none else some xs.tail

end List1Op

/-! ## The sequence a list stands for -/

/-- the links lead from head through `xs` to null, and tail is the last element -/
structure Spells (s : List1) (xs : List Addr) : Prop where
  nodup : xs.Nodup
  head : s.head = xs.head?
  tail : s.tail = xs.getLast?
  links : Visits s.next xs none

namespace Spells

variable {s : List1} {xs : List Addr}

theorem tail_eq_none (h : Spells s xs) : s.tail = none ↔ xs = [] := by rw [h.tail, List.getLast?_eq_none_iff]

theorem head_eq_none (h : Spells s xs) : s.head = none ↔ xs = [] := by rw [h.head, List.head?_eq_none_iff]

/-- the list ends with its last element -/
theorem next_tail (h : Spells s xs) {a : Addr} (ha : s.tail = some a) : s.next a = none := by
  rw [h.tail] at ha
  obtain ⟨ys, rfl⟩ := List.getLast?_eq_some_iff.1 ha
  exact h.links.last

end Spells

/-! ## The operations -/

section Operations

variable {s : List1} {xs : List Addr} {el : Addr}

open Function

theorem list1Init_spec {a : Addr} (h : s.head = some a) : ∃ s', list1Init s = some s' ∧ Spells s' [a] := by
  refine ⟨⟨some a, some a, update s.next a none⟩, ?_, ?_⟩
  · simp [list1Init, List1.setNext, h]
  · exact ⟨List.nodup_singleton a, rfl, rfl, by simp⟩

theorem list1AddHead_spec (h : Spells s xs) (hel : el ∉ xs) :
    ∃ s', list1AddHead s (some el) = some s' ∧ Spells s' (el :: xs) := by
  have hlinks : Visits (update s.next el xs.head?) (el :: xs) none := ⟨by simp, h.links.update hel _⟩
  have hnodup : (el :: xs).Nodup := List.nodup_cons.2 ⟨hel, h.nodup⟩
  by_cases hxs : xs = []
  · have htail : s.tail = none := h.tail_eq_none.2 hxs
    refine ⟨⟨some el, some el, update s.next el xs.head?⟩, ?_, hnodup, rfl, ?_, hlinks⟩
    · simp [list1AddHead, List1.setNext, h.head, htail]
    · rw [hxs]
      rfl
  · have htail : s.tail ≠ none := fun h0 => hxs (h.tail_eq_none.1 h0)
    refine ⟨⟨some el, s.tail, update s.next el xs.head?⟩, ?_, hnodup, rfl, ?_, hlinks⟩
    · simp [list1AddHead, List1.setNext, h.head, htail]
    · obtain ⟨x, t, rfl⟩ := List.exists_cons_of_ne_nil hxs
      rw [h.tail, List.getLast?_cons_cons]

theorem list1AddTail_spec (h : Spells s xs) (hel : el ∉ xs) :
    ∃ s', list1AddTail s (some el) = some s' ∧ Spells s' (xs ++ [el]) := by
  by_cases hxs : xs = []
  · have htail : s.tail = none := h.tail_eq_none.2 hxs
    have hhead : s.head = none := h.head_eq_none.2 hxs
    subst hxs
    refine ⟨⟨some el, some el, update s.next el none⟩, ?_, List.nodup_singleton el, rfl, rfl, by simp⟩
    simp [list1AddTail, List1.setNext, htail, hhead]
  · obtain ⟨x, t, ys, z, hx, hz⟩ := exists_ends hxs
    have htail : s.tail = some z := by rw [h.tail, hz, List.getLast?_concat]
    have hhead : s.head = some x := by rw [h.head, hx, List.head?_cons]
    have hzel : el ≠ z := fun he => hel (by rw [hz, he]; simp)
    have hzys : z ∉ ys := not_mem_init (hz ▸ h.nodup)
    refine ⟨⟨some x, some el, update (update s.next el none) z (some el)⟩, ?_, ?_, ?_, ?_, ?_⟩
    · simp [list1AddTail, List1.setNext, htail, hhead]
    · rw [← List.concat_eq_append]
      exact h.nodup.concat hel
    · rw [hx]
      rfl
    · rw [List.getLast?_concat]
    · -- the old last element leads to the new one, which leads nowhere
      have hold : Visits s.next (ys ++ [z]) none := hz ▸ h.links
      rw [hz] at hel ⊢
      exact visits_append.2 ⟨(hold.update hel none).retarget hzys _, by simp [update_of_ne hzel], trivial⟩

theorem list1RmHead_spec (h : Spells s xs) (hxs : xs ≠ []) :
    ∃ s', list1RmHead s = some s' ∧ Spells s' xs.tail := by
  obtain ⟨x, t, rfl⟩ := List.exists_cons_of_ne_nil hxs
  have hhead : s.head = some x := h.head
  have hnext : s.next x = t.head? := by simpa using h.links.1
  have hnodup : t.Nodup := (List.nodup_cons.1 h.nodup).2
  cases t with
  | nil =>
    have htail : s.tail = some x := h.tail
    refine ⟨⟨none, none, s.next⟩, ?_, hnodup, rfl, rfl, trivial⟩
    simp [list1RmHead, hhead, htail, hnext]
  | cons y t =>
    have htail : s.tail = (y :: t).getLast? := by rw [h.tail, List.getLast?_cons_cons]
    -- the last element is another one than the first
    have hne : s.tail ≠ some x := by
      intro h0
      rw [htail] at h0
      exact (List.nodup_cons.1 h.nodup).1 (List.mem_of_getLast? h0)
    refine ⟨⟨some y, s.tail, s.next⟩, ?_, hnodup, rfl, htail, h.links.2⟩
    simp [list1RmHead, hhead, hne, hnext]

theorem List1Op.apply_spec {op : List1Op} {xs' : List Addr} (h : Spells s xs) (he : op.edit xs = some xs') :
    ∃ s', op.apply s = some s' ∧ Spells s' xs' := by
  cases op with
  | addHead el =>
    rw [List1Op.edit, Option.ite_none_left_eq_some, Option.some.injEq] at he
    obtain ⟨hel, rfl⟩ := he
    exact list1AddHead_spec h hel
  | addTail el =>
    rw [List1Op.edit, Option.ite_none_left_eq_some, Option.some.injEq] at he
    obtain ⟨hel, rfl⟩ := he
    exact list1AddTail_spec h hel
  | rmHead =>
    rw [List1Op.edit, Option.ite_none_left_eq_some, Option.some.injEq] at he
    obtain ⟨hxs, rfl⟩ := he
    exact list1RmHead_spec h hxs

end Operations

/-! ## Every sequence of operations -/

theorem spells_empty (next : Addr → Ptr) : Spells ⟨none, none, next⟩ [] := ⟨List.nodup_nil, rfl, rfl, trivial⟩

/-- **The list is the sequence**, whatever the elements were linked to before: no operation follows a null pointer, the
links from head spell the sequence, the last element leads nowhere, tail is the last element, and head and tail are null
together. -/
theorem list1_sequence (next : Addr → Ptr) {ops : List List1Op} {xs : List Addr}
    (h : run List1Op.edit [] ops = some xs) :
    ∃ s, run List1Op.apply ⟨none, none, next⟩ ops = some s ∧ s.head = xs.head? ∧ Visits s.next xs none ∧
      (∀ a, xs.getLast? = some a → s.next a = none) ∧ s.tail = xs.getLast? ∧ (s.head = none ↔ s.tail = none) := by
  -- the list follows the sequence step by step
  obtain ⟨s, hs, hspells⟩ := sim_run (R := fun xs s => Spells s xs) (g := fun _ _ => True) (f := id)
    (fun _ _ _ _ hR _ he => List1Op.apply_spec hR he) (spells_empty next) (guarded_true [] ops) h
  rw [List.map_id] at hs
  refine ⟨s, hs, hspells.head, hspells.links, ?_, hspells.tail, ?_⟩
  · intro a ha
    exact hspells.next_tail (hspells.tail.trans ha)
  · rw [hspells.head_eq_none, hspells.tail_eq_none]

/-- the links of the elements before they are added lead anywhere, and element 2 is added again with its old one -/
theorem list1_sequence_sample :
    ∃ s, run List1Op.apply ⟨none, none, fun a => some (a + 1)⟩ [.addTail 1, .addHead 2, .rmHead, .addTail 2, .addTail 3] =
      some s ∧ s.head = some 1 ∧ Visits s.next [1, 2, 3] none ∧ s.tail = some 3 := by
  have hedit : run List1Op.edit [] [.addTail 1, .addHead 2, .rmHead, .addTail 2, .addTail 3] = some [1, 2, 3] := by decide
  obtain ⟨s, hs, hhead, hlinks, -, htail, -⟩ := list1_sequence (fun a => some (a + 1)) hedit
  exact ⟨s, hs, hhead, hlinks, htail⟩

end EspHostdriver
