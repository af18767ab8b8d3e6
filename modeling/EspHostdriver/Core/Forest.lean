/-
Forests given by a relation between a node and its children.

A relation is a forest when a node has one parent at most and stands above its children in some order. A subtree is
what can be reached from its root, `Under r a b` for `b` in the subtree of `a`.

- `under_iff`: the subtree of a node is the node and the subtrees of its children.
- `IsForest.disjoint`: the subtrees of two siblings have nothing in common.
- `under_prune`: taking a set of nodes away leaves the subtrees that do not meet it as they were.
-/
import Mathlib.Tactic

namespace EspHostdriver.Forest

open Relation

variable {α : Type*} {r : α → α → Prop} {a b c d p : α}

/-- `b` is `a` or below it -/
def Under (r : α → α → Prop) (a b : α) : Prop := ReflTransGen r a b

structure IsForest [Preorder α] (r : α → α → Prop) : Prop where
  lt : ∀ a b, r a b → a < b
  parent : ∀ a b c, r a c → r b c → a = b

theorem under_refl (a : α) : Under r a a := ReflTransGen.refl

theorem Under.trans (h : Under r a b) (h' : Under r b c) : Under r a c := ReflTransGen.trans h h'

theorem under_child (h : r a b) : Under r a b := ReflTransGen.single h

theorem under_iff : Under r a b ↔ a = b ∨ ∃ c, r a c ∧ Under r c b := by
  rw [Under, ReflTransGen.cases_head_iff]
  rfl

/-- from below: a node is the root, or its parent is in the subtree -/
theorem under_iff_parent : Under r a b ↔ b = a ∨ ∃ c, Under r a c ∧ r c b := by
  rw [Under, ReflTransGen.cases_tail_iff]
  rfl

/-! ## Subtrees -/

section Order

variable [PartialOrder α]

theorem IsForest.le (hr : IsForest r) (h : Under r a b) : a ≤ b := by
  induction h with
  | refl => exact le_rfl
  | tail _ hbc ih => exact ih.trans (hr.lt _ _ hbc).le

/-- the parent of a node is not below it -/
theorem IsForest.not_under_parent (hr : IsForest r) (h : r p a) : ¬ Under r a p := by
  intro ha
  exact absurd (hr.le ha) (hr.lt p a h).not_ge

theorem IsForest.total (hr : IsForest r) (ha : Under r a c) (hb : Under r b c) : Under r a b ∨ Under r b a := by
  have hu : Relator.RightUnique (Function.swap r) := fun x y z hy hz => hr.parent y z x hy hz
  rcases ReflTransGen.total_of_right_unique hu (reflTransGen_swap.2 ha) (reflTransGen_swap.2 hb) with h | h
  · exact Or.inr (reflTransGen_swap.1 h)
  · exact Or.inl (reflTransGen_swap.1 h)

theorem IsForest.not_under_sibling (hr : IsForest r) (hc : r p c) (hd : r p d) (hne : c ≠ d) : ¬ Under r c d := by
  intro h
  rcases under_iff_parent.1 h with he | ⟨q, hcq, hqd⟩
  · exact hne he.symm
  · rw [hr.parent q p d hqd hd] at hcq
    exact hr.not_under_parent hc hcq

theorem IsForest.disjoint (hr : IsForest r) (hc : r p c) (hd : r p d) (hne : c ≠ d) (h : Under r c b) :
    ¬ Under r d b := by
  intro h'
  rcases hr.total h h' with hcd | hdc
  · exact hr.not_under_sibling hc hd hne hcd
  · exact hr.not_under_sibling hd hc hne.symm hdc

end Order

/-! ## Taking nodes away -/

/-- the relation without the nodes of `S` -/
def prune (r : α → α → Prop) (S : Set α) (a b : α) : Prop := a ∉ S ∧ b ∉ S ∧ r a b

theorem under_prune {S : Set α} (h : ∀ b, Under r a b → b ∉ S) : Under (prune r S) a b ↔ Under r a b := by
  constructor
  · intro hb
    induction hb with
    | refl => exact under_refl a
    | tail _ hbc ih => exact ih.trans (under_child hbc.2.2)
  · intro hb
    induction hb with
    | refl => exact under_refl a
    | tail hab hbc ih =>
      have hac : Under r a _ := Under.trans hab (under_child hbc)
      exact ih.trans (under_child ⟨h _ hab, h _ hac, hbc⟩)

end EspHostdriver.Forest
