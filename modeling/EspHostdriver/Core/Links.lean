/-
Sequences that are held together by link fields.

A link field is a function from objects to the object it points to, `none` for a null pointer.

- `Visits f xs stop`: whoever stands on the first element of `xs` and follows `f` visits the elements of `xs` in order
  and then arrives at `stop`. `visits_append` cuts a walk in two, `Visits.update` says that writing the link of an
  object that is not visited changes nothing, `Visits.retarget` that writing the link of the last element changes where
  the walk arrives.
- `Threaded next prev xs`: `xs` can be walked along `next` and ends in null; backwards it can be walked along `prev`, and
  from the first element `prev` leads to the last one. `Around` is the same seen from one of its elements.
-/
import Mathlib.Tactic

namespace EspHostdriver.Links

open Function

variable {α : Type*} {f g : α → Option α} {xs ys : List α} {x : α} {stop : Option α}

/-! ## Walks -/

/-- following `f` from the first element visits the elements in order and then arrives at `stop` -/
def Visits (f : α → Option α) : List α → Option α → Prop
  | [], _ => True
  | x :: xs, stop => f x = xs.head?.or stop ∧ Visits f xs stop

@[simp] theorem visits_nil (f : α → Option α) (stop : Option α) : Visits f [] stop := trivial

@[simp] theorem visits_cons (f : α → Option α) (x : α) (xs : List α) (stop : Option α) :
    Visits f (x :: xs) stop ↔ f x = xs.head?.or stop ∧ Visits f xs stop := Iff.rfl

theorem visits_append : Visits f (xs ++ ys) stop ↔ Visits f xs (ys.head?.or stop) ∧ Visits f ys stop := by
  induction xs with
  | nil => simp
  | cons x xs ih => simp [ih, List.head?_append, Option.or_assoc, and_assoc]

theorem Visits.congr (h : Visits f xs stop) (hg : ∀ x ∈ xs, g x = f x) : Visits g xs stop := by
  induction xs with
  | nil => trivial
  | cons x xs ih =>
    have hx := hg x List.mem_cons_self
    exact ⟨hx.trans h.1, ih h.2 fun y hy => hg y (List.mem_cons_of_mem x hy)⟩

/-- where the walk arrives is what the last element points to -/
theorem Visits.last (h : Visits f (xs ++ [x]) stop) : f x = stop := by
  obtain ⟨_, hx, _⟩ := visits_append.1 h
  exact hx

/-- a walk, link by link -/
theorem visits_iff : Visits f xs stop ↔ ∀ as a bs, xs = as ++ a :: bs → f a = bs.head?.or stop := by
  constructor
  · rintro h as a bs rfl
    exact (visits_append.1 h).2.1
  · intro h
    induction xs with
    | nil => trivial
    | cons x xs ih =>
      refine ⟨h [] x xs rfl, ih fun as a bs he => h (x :: as) a bs ?_⟩
      rw [he, List.cons_append]

/-- two walks that start at one element and both end in null visit the same -/
theorem Visits.unique (hx : Visits f xs none) (hy : Visits f ys none) (h : xs.head? = ys.head?) : xs = ys := by
  induction xs generalizing ys with
  | nil => exact (List.head?_eq_none_iff.1 h.symm).symm
  | cons x xs ih =>
    cases ys with
    | nil => cases h
    | cons y ys =>
      obtain rfl : x = y := Option.some.inj h
      obtain ⟨h1, hxs⟩ := hx
      obtain ⟨h2, hys⟩ := hy
      rw [h1, Option.or_none, Option.or_none] at h2
      rw [ih hxs hys h2]

section Update

variable [DecidableEq α]

theorem Visits.update (h : Visits f xs stop) (hx : x ∉ xs) (v : Option α) :
    Visits (Function.update f x v) xs stop := by
  apply h.congr
  intro y hy
  exact update_of_ne (ne_of_mem_of_not_mem hy hx) v f

theorem Visits.retarget (h : Visits f (xs ++ [x]) stop) (hx : x ∉ xs) (v : Option α) :
    Visits (Function.update f x v) (xs ++ [x]) v := by
  obtain ⟨hxs, _, _⟩ := visits_append.1 h
  apply visits_append.2
  exact ⟨hxs.update hx v, by simp, trivial⟩

end Update

/-! ## Sequences linked both ways -/

/-- linked along `next` up to null and along `prev` backwards; `prev` of the first element is the last one -/
structure Threaded (next prev : α → Option α) (xs : List α) : Prop where
  nodup : xs.Nodup
  next : Visits next xs none
  prev : Visits prev xs.reverse xs.getLast?

/-- a nonempty list has a first and a last element -/
theorem exists_ends (h : xs ≠ []) : ∃ x t ys z, xs = x :: t ∧ xs = ys ++ [z] := by
  obtain ⟨x, t, hx⟩ := List.exists_cons_of_ne_nil h
  exact ⟨x, t, xs.dropLast, xs.getLast h, hx, (List.dropLast_append_getLast h).symm⟩

theorem not_mem_init (h : (xs ++ [x]).Nodup) : x ∉ xs := fun hx =>
  List.disjoint_of_nodup_append h hx (List.mem_singleton_self x)

theorem not_mem_tail (h : (x :: xs).Nodup) : x ∉ xs.reverse := fun hx =>
  (List.nodup_cons.1 h).1 (List.mem_reverse.1 hx)

/-- what the links say around one element -/
structure Around (next prev : α → Option α) (as : List α) (x : α) (bs : List α) : Prop where
  before : Visits next as (some x)
  next_eq : next x = bs.head?
  after : Visits next bs none
  back : Visits prev bs.reverse (some x)
  prev_eq : prev x = as.getLast?.or (x :: bs).getLast?
  front : Visits prev as.reverse (x :: bs).getLast?

theorem around_iff {next prev : α → Option α} {as bs : List α} :
    Visits next (as ++ x :: bs) none ∧ Visits prev (as ++ x :: bs).reverse (as ++ x :: bs).getLast? ↔
      Around next prev as x bs := by
  have hlast : (as ++ x :: bs).getLast? = (x :: bs).getLast? := by simp [List.getLast?_append, List.getLast?_cons]
  have hrev : (as ++ x :: bs).reverse = bs.reverse ++ x :: as.reverse := by simp
  rw [hlast, hrev, visits_append, visits_append, visits_cons, visits_cons, List.head?_reverse]
  simp only [List.head?_cons, Option.some_or, Option.or_none]
  constructor
  · rintro ⟨⟨h1, h2, h3⟩, h4, h5, h6⟩
    exact ⟨h1, h2, h3, h4, h5, h6⟩
  · intro h
    exact ⟨⟨h.before, h.next_eq, h.after⟩, h.back, h.prev_eq, h.front⟩

/-- the links one by one: `next` leads to the successor, `prev` to the predecessor, from the first one to the last -/
theorem threaded_iff {next prev : α → Option α} : Threaded next prev xs ↔ xs.Nodup ∧
    ∀ as a bs, xs = as ++ a :: bs → next a = bs.head? ∧ prev a = as.getLast?.or xs.getLast? := by
  constructor
  · intro h
    refine ⟨h.nodup, fun as a bs he => ⟨?_, ?_⟩⟩
    · simpa using visits_iff.1 h.next as a bs he
    · have hrev : xs.reverse = bs.reverse ++ a :: as.reverse := by rw [he]; simp
      rw [visits_iff.1 h.prev _ a _ hrev, List.head?_reverse]
  · rintro ⟨hn, h⟩
    refine ⟨hn, visits_iff.2 fun as a bs he => ?_, visits_iff.2 fun as a bs he => ?_⟩
    · rw [(h as a bs he).1, Option.or_none]
    · have hrev : xs = bs.reverse ++ a :: as.reverse := by
        rw [← List.reverse_reverse xs, he]
        simp
      rw [(h _ a _ hrev).2, List.getLast?_reverse]

theorem Threaded.around {next prev : α → Option α} {as bs : List α} (h : Threaded next prev (as ++ x :: bs)) :
    Around next prev as x bs := around_iff.1 ⟨h.next, h.prev⟩

theorem Around.threaded {next prev : α → Option α} {as bs : List α} (h : Around next prev as x bs)
    (hn : (as ++ x :: bs).Nodup) : Threaded next prev (as ++ x :: bs) :=
  ⟨hn, (around_iff.2 h).1, (around_iff.2 h).2⟩

end EspHostdriver.Links
