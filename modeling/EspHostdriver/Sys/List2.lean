/-
Lean model of the doubly linked list (`include/sys/list2.h`, `sys/list2.c`, the double-linked part of
`include/sys/list.h`) and what it implements.

A pointer is an optional address, and every link is read from and written to memory in the order of the macros; to
follow a null pointer ends the call (`none`). The head is an element itself and its `prev` doubles as the pointer to the
tail. The loops run on fuel, one unit for each round.

- `Represents`: the list is threaded through memory in the order of a sequence of distinct elements.
- `listAddHead_spec`, `listAddTail_spec`, `listAddIn_spec`, `listReplace_spec`, `listRm_spec`: each operation does not
  follow a null pointer, edits the sequence and leaves the links of the elements that are not concerned alone.
- `listContains_spec`, `listFind_spec`: the loops end, with membership and with the first match.
- `list2_sequence`: all of it as one statement about an arbitrary edit (`Edits`) of an arbitrary list.
-/
import EspHostdriver.Core.Heap
import EspHostdriver.Core.Links
import EspHostdriver.Core.Text

namespace EspHostdriver

open Links

/-! ## Model -/

abbrev Ptr := Option Addr

/-- `list2_t` of every object, and the bytes of the object the links are in -/
structure ListMem where
  prev : Addr → Ptr
  next : Addr → Ptr
  byte : Addr → ℕ → UInt8

namespace ListMem

/-- `p->next` -/
def getNext (m : ListMem) (p : Ptr) : Option Ptr := p.map m.next

/-- `p->prev` -/
def getPrev (m : ListMem) (p : Ptr) : Option Ptr := p.map m.prev

/-- `p->next = v` -/
def setNext (m : ListMem) (p v : Ptr) : Option ListMem :=
  p.map fun a => { m with next := Function.update m.next a v }

/-- `p->prev = v` -/
def setPrev (m : ListMem) (p v : Ptr) : Option ListMem :=
  p.map fun a => { m with prev := Function.update m.prev a v }

@[simp] theorem getNext_some (m : ListMem) (a : Addr) : m.getNext (some a) = some (m.next a) := rfl

@[simp] theorem getPrev_some (m : ListMem) (a : Addr) : m.getPrev (some a) = some (m.prev a) := rfl

@[simp] theorem setNext_some (m : ListMem) (a : Addr) (v : Ptr) :
    m.setNext (some a) v = some { m with next := Function.update m.next a v } := rfl

@[simp] theorem setPrev_some (m : ListMem) (a : Addr) (v : Ptr) :
    m.setPrev (some a) v = some { m with prev := Function.update m.prev a v } := rfl

/-- the bytes of a member -/
def member (m : ListMem) (el : Addr) (offset size : ℕ) : Bytes := (List.range size).map fun i => m.byte el (offset + i)

end ListMem

/-- a list: the variable that holds the head, and memory -/
structure List2 where
  head : Ptr
  mem : ListMem

/-- `_list2_add_head` -/
def listAddHead (s : List2) (el : Ptr) : Option List2 := do
  let m ← s.mem.setNext el s.head
  let last ← if s.head = none then some el else m.getPrev s.head
  let m ← m.setPrev el last
  let m ← if s.head ≠ none then m.setPrev s.head el else some m
  some ⟨el, m⟩

/-- `_list2_add_tail` -/
def listAddTail (s : List2) (el : Ptr) : Option List2 := do
  let m ← s.mem.setNext el none
  if s.head = none then do
    let m ← m.setPrev el el
    some ⟨el, m⟩
  else do
    let last ← m.getPrev s.head
    let m ← m.setPrev el last
    let last ← m.getPrev s.head
    let m ← m.setNext last el
    let m ← m.setPrev s.head el
    some ⟨s.head, m⟩

/-- `_list2_add_in` -/
def listAddIn (s : List2) (el front back : Ptr) : Option List2 := do
  let m ← s.mem.setPrev el front
  let m ← m.setNext el back
  let m ← m.setNext front el
  let m ← m.setPrev back el
  some ⟨s.head, m⟩

/-- `_list2_replace` -/
def listReplace (s : List2) (old new : Ptr) : Option List2 :=
  if s.head = none then do
    let m ← s.mem.setPrev new new
    let m ← m.setNext new none
    some ⟨new, m⟩
  else do
    let second ← s.mem.getNext s.head
    let front ← if second = none then some new else s.mem.getPrev old
    let m ← s.mem.setPrev new front
    let back ← m.getNext old
    let m ← m.setNext new back
    let back ← m.getNext old
    let m ← if back ≠ none then m.setPrev back new else m.setPrev s.head new
    if old ≠ s.head then do
      let front ← m.getPrev old
      let m ← m.setNext front new
      some ⟨s.head, m⟩
    else some ⟨new, m⟩

/-- `_list2_rm` -/
def listRm (s : List2) (el : Ptr) : Option List2 := do
  let m ← if el ≠ s.head then do
      let front ← s.mem.getPrev el
      let back ← s.mem.getNext el
      s.mem.setNext front back
    else some s.mem
  let back ← m.getNext el
  let front ← m.getPrev el
  let m ← if back ≠ none then m.setPrev back front else m.setPrev s.head front
  if el = s.head then do
    let back ← m.getNext el
    some ⟨back, m⟩
  else some ⟨s.head, m⟩

/-- `list_last` -/
def listLast (s : List2) : Option Ptr := if s.head ≠ none then s.mem.getPrev s.head else some none

/-- `_list2_contains`; its loop leaves the pointer on the element or on null -/
def listContains (m : ListMem) : ℕ → Ptr → Ptr → Option Bool
  | 0, _, _ => none
  | fuel + 1, head, el =>
    match head with
    | none => some (decide (head = el))
    | some a => if head = el then some (decide (head = el)) else listContains m fuel (m.next a) el

/-- `memcmp` of two blocks of one size -/
def memcmp : Bytes → Bytes → ℤ
  | a :: as, b :: bs => if a = b then memcmp as bs else (a.toNat : ℤ) - b.toNat
  | _, _ => 0

/-- the loop of `_list2_find` over `list_for_each`, which reads the link behind the next element ahead of time -/
def listFindFrom (m : ListMem) (offset : ℕ) (ref : Bytes) : ℕ → Ptr → Ptr → Option Ptr
  | 0, _, _ => none
  | fuel + 1, el, next =>
    match el with
    | none => some none
    | some a =>
      if memcmp (m.member a offset ref.length) ref = 0 then some el
      else listFindFrom m offset ref fuel next (next.bind m.next)

/-- `_list2_find` with a reference of `sizeof(value)` bytes -/
def listFind (s : List2) (fuel offset : ℕ) (ref : Bytes) : Option Ptr :=
  listFindFrom s.mem offset ref fuel s.head (s.head.bind s.mem.next)

/-! ## The sequence a list stands for -/

/-- the list is linked in the order of `xs` -/
structure Represents (s : List2) (xs : List Addr) : Prop where
  head : s.head = xs.head?
  links : Threaded s.mem.next s.mem.prev xs

/-- in plain words: the head, and the links of each element -/
theorem represents_iff {s : List2} {xs : List Addr} : Represents s xs ↔ s.head = xs.head? ∧ xs.Nodup ∧
    ∀ as a bs, xs = as ++ a :: bs → s.mem.next a = bs.head? ∧ s.mem.prev a = as.getLast?.or xs.getLast? :=
  ⟨fun h => ⟨h.head, threaded_iff.1 h.links⟩, fun h => ⟨h.1, threaded_iff.2 h.2⟩⟩

/-- the links of `a` are as before -/
structure SameLinks (s s' : List2) (a : Addr) : Prop where
  prev : s'.mem.prev a = s.mem.prev a
  next : s'.mem.next a = s.mem.next a

/-- a list is a matter of the head and the links of its elements -/
theorem Represents.congr {s s' : List2} {xs : List Addr} (h : Represents s xs) (hh : s'.head = s.head)
    (hs : ∀ a ∈ xs, SameLinks s s' a) : Represents s' xs := by
  refine ⟨hh.trans h.head, h.links.nodup, h.links.next.congr fun a ha => (hs a ha).next, ?_⟩
  exact h.links.prev.congr fun a ha => (hs a (List.mem_reverse.1 ha)).prev

/-! ## The operations -/

section Operations

variable {s : List2} {xs as bs : List Addr} {el a b : Addr}

open Function

theorem listAddHead_spec (h : Represents s xs) (hel : el ∉ xs) : ∃ s', listAddHead s (some el) = some s' ∧
    Represents s' (el :: xs) ∧ ∀ c, c ∉ xs → c ≠ el → SameLinks s s' c := by
  cases xs with
  | nil =>
    have hh : s.head = none := h.head
    refine ⟨⟨some el, ⟨update s.mem.prev el (some el), update s.mem.next el none, s.mem.byte⟩⟩, ?_, ?_, ?_⟩
    · simp [listAddHead, hh]
    · exact ⟨rfl, List.nodup_singleton el, by simp, by simp⟩
    · intro c _ hc
      exact ⟨update_of_ne hc _ _, update_of_ne hc _ _⟩
  | cons x t =>
    have hh : s.head = some x := h.head
    have hx : el ≠ x := List.ne_of_not_mem_cons hel
    have ht : el ∉ t := List.not_mem_of_not_mem_cons hel
    have hrev : Visits s.mem.prev (t.reverse ++ [x]) (x :: t).getLast? := by
      rw [← List.reverse_cons]; exact h.links.prev
    have hxt : x ∉ t.reverse := not_mem_tail h.links.nodup
    refine ⟨⟨some el, ⟨update (update s.mem.prev el (x :: t).getLast?) x (some el), update s.mem.next el (some x),
      s.mem.byte⟩⟩, ?_, ?_, ?_⟩
    · simp [listAddHead, hh, hrev.last]
    · refine ⟨rfl, show Threaded _ _ ([] ++ el :: x :: t) from Around.threaded
        ⟨trivial, by simp, h.links.next.update hel _, ?_, ?_, trivial⟩ (List.nodup_cons.2 ⟨hel, h.links.nodup⟩)⟩
      · rw [List.reverse_cons]
        exact (hrev.update (by simp [hx, ht]) _).retarget hxt _
      · simp [update_of_ne hx, List.getLast?_cons]
    · intro c hc hne
      have hcx : c ≠ x := List.ne_of_not_mem_cons hc
      exact ⟨by simp [update_of_ne hcx, update_of_ne hne], update_of_ne hne _ _⟩

theorem listAddTail_spec (h : Represents s xs) (hel : el ∉ xs) : ∃ s', listAddTail s (some el) = some s' ∧
    Represents s' (xs ++ [el]) ∧ ∀ c, c ∉ xs → c ≠ el → SameLinks s s' c := by
  by_cases hxs : xs = []
  · subst hxs
    have hh : s.head = none := h.head
    refine ⟨⟨some el, ⟨update s.mem.prev el (some el), update s.mem.next el none, s.mem.byte⟩⟩, ?_, ?_, ?_⟩
    · simp [listAddTail, hh]
    · exact ⟨rfl, List.nodup_singleton el, by simp, by simp⟩
    · intro c _ hc
      exact ⟨update_of_ne hc _ _, update_of_ne hc _ _⟩
  · obtain ⟨x, t, ys, z, hx, hz⟩ := exists_ends hxs
    have hh : s.head = some x := by rw [h.head, hx]; rfl
    have hlast : xs.getLast? = some z := by rw [hz]; simp
    have hxel : x ≠ el := fun he => hel (by rw [hx, he]; exact List.mem_cons_self)
    have hzel : el ≠ z := fun he => hel (by rw [hz, he]; simp)
    have hzys : z ∉ ys := not_mem_init (hz ▸ h.links.nodup)
    have hxt : x ∉ t.reverse := not_mem_tail (hx ▸ h.links.nodup)
    have hn : (xs ++ [el]).Nodup := by
      rw [← List.concat_eq_append]
      exact h.links.nodup.concat hel
    have hnext : Visits s.mem.next (ys ++ [z]) none := hz ▸ h.links.next
    have hprev : Visits s.mem.prev (t.reverse ++ [x]) (some z) := by
      rw [← List.reverse_cons, ← hx, ← hlast]; exact h.links.prev
    refine ⟨⟨some x, ⟨update (update s.mem.prev el (some z)) x (some el), update (update s.mem.next el none) z (some el),
      s.mem.byte⟩⟩, ?_, ?_, ?_⟩
    · simp [listAddTail, hh, hprev.last, update_of_ne hxel]
    · refine ⟨by rw [hx]; rfl, show Threaded _ _ (_ ++ el :: []) from
        Around.threaded ⟨?_, ?_, trivial, trivial, ?_, ?_⟩ hn⟩
      · rw [hz] at hel ⊢
        exact (hnext.update hel none).retarget hzys _
      · simp [update_of_ne hzel]
      · simp [update_of_ne hxel.symm, hlast]
      · rw [hx] at hel ⊢
        rw [List.reverse_cons]
        exact (hprev.update (by simpa [and_comm] using hel) _).retarget hxt _
    · intro c hc hne
      have hcx : c ≠ x := fun he => hc (by rw [hx, he]; exact List.mem_cons_self)
      have hcz : c ≠ z := fun he => hc (by rw [hz, he]; simp)
      exact ⟨by simp [update_of_ne hcx, update_of_ne hne], by simp [update_of_ne hcz, update_of_ne hne]⟩

theorem listAddIn_spec (h : Represents s (as ++ a :: b :: bs)) (hel : el ∉ as ++ a :: b :: bs) :
    ∃ s', listAddIn s (some el) (some a) (some b) = some s' ∧ Represents s' (as ++ a :: el :: b :: bs) ∧
      ∀ c, c ∉ as ++ a :: b :: bs → c ≠ el → SameLinks s s' c := by
  have hsplit : as ++ a :: b :: bs = (as ++ [a]) ++ b :: bs := by simp
  have ha := h.links.around
  have hb : Around s.mem.next s.mem.prev (as ++ [a]) b bs := by
    have hl := h.links
    rw [hsplit] at hl
    exact hl.around
  have hn := h.links.nodup
  have hna : a ∉ as := not_mem_init (hn.sublist (by simp))
  have hnb : b ∉ bs.reverse := not_mem_tail (hn.sublist (by simp))
  have hab : a ∉ b :: bs := (List.nodup_cons.1 (hn.sublist (List.sublist_append_right as _))).1
  have hba : b ∉ as ++ [a] := by
    rw [hsplit] at hn
    exact not_mem_init (hn.sublist (by simp))
  simp only [List.mem_append, List.mem_cons, not_or] at hel
  obtain ⟨helas, hela, helb, helbs⟩ := hel
  refine ⟨⟨s.head, ⟨update (update s.mem.prev el (some a)) b (some el), update (update s.mem.next el (some b)) a (some el),
    s.mem.byte⟩⟩, ?_, ⟨by rw [h.head]; cases as <;> rfl, ?_⟩, ?_⟩
  · simp [listAddIn]
  · have hnew : (as ++ a :: el :: b :: bs) = (as ++ [a]) ++ el :: b :: bs := by simp
    rw [hnew]
    apply Around.threaded
    · constructor
      · exact (hb.before.update (by simp [helas, hela]) _).retarget hna _
      · simp [update_of_ne hela]
      · exact (ha.after.update (by simp [helb, helbs]) _).update hab _
      · have hback := ha.back
        rw [List.reverse_cons] at hback ⊢
        exact (hback.update (by simp [helb, helbs]) _).retarget hnb _
      · simp [update_of_ne helb]
      · have hfront := hb.front.update (x := el) (by simp [helas, hela]) (some a)
        have hfront' := hfront.update (x := b) (by simpa only [List.mem_reverse] using hba) (some el)
        simpa [List.getLast?_cons] using hfront'
    · rw [hsplit] at hn
      exact List.nodup_middle.2 (List.nodup_cons.2 ⟨by simp [helas, hela, helb, helbs], hn⟩)
  · intro c hc hne
    simp only [List.mem_append, List.mem_cons, not_or] at hc
    exact ⟨by simp [update_of_ne hc.2.2.1, update_of_ne hne], by simp [update_of_ne hc.2.1, update_of_ne hne]⟩

/-- what is known about the neighbours of an element that is not the head -/
structure Inner (s : List2) (as : List Addr) (el : Addr) (bs : List Addr) (x : Addr) (t ys : List Addr) (p : Addr) :
    Prop where
  first : as = x :: t
  last : as = ys ++ [p]
  head : s.head = some x
  second : s.mem.next x ≠ none
  back : s.mem.prev el = some p
  head_ne : x ≠ el
  back_ne : p ≠ el
  head_notMem : x ∉ t.reverse
  back_notMem : p ∉ ys
  head_notMem_after : x ∉ bs
  back_notMem_after : p ∉ bs

theorem Represents.inner (h : Represents s (as ++ el :: bs)) (has : as ≠ []) : ∃ x t ys p, Inner s as el bs x t ys p := by
  obtain ⟨x, t, ys, p, hx, hp⟩ := exists_ends has
  have hA := h.links.around
  obtain ⟨hel, hn⟩ := List.nodup_cons.1 (List.nodup_middle.1 h.links.nodup)
  obtain ⟨hnas, _, hdisj⟩ := List.nodup_append.1 hn
  have hxas : x ∈ as := by rw [hx]; exact List.mem_cons_self
  have hpas : p ∈ as := by rw [hp]; simp
  refine ⟨x, t, ys, p, hx, hp, by rw [h.head, hx]; rfl, ?_, by rw [hA.prev_eq, hp]; simp, ?_, ?_, ?_, ?_, ?_, ?_⟩
  · have hnext := h.links.next
    rw [hx] at hnext
    rw [hnext.1]
    cases t <;> simp
  · exact fun he => hel (List.mem_append_left bs (he ▸ hxas))
  · exact fun he => hel (List.mem_append_left bs (he ▸ hpas))
  · exact not_mem_tail (hx ▸ hnas)
  · exact not_mem_init (hp ▸ hnas)
  · exact fun hb => hdisj x hxas x hb rfl
  · exact fun hb => hdisj p hpas p hb rfl

theorem Inner.head_mem {x p : Addr} {t ys : List Addr} (h : Inner s as el bs x t ys p) : x ∈ as := by
  rw [h.first]; exact List.mem_cons_self

theorem Inner.back_mem {x p : Addr} {t ys : List Addr} (h : Inner s as el bs x t ys p) : p ∈ as := by
  rw [h.last]; simp

/-- the elements in front, with another one behind them -/
theorem Inner.relink {x p : Addr} {t ys : List Addr} {f : Addr → Ptr} {stop : Ptr} (h : Inner s as el bs x t ys p)
    (hf : Visits f as stop) (v : Ptr) : Visits (update f p v) as v := by
  rw [h.last] at hf ⊢
  exact hf.retarget h.back_notMem v

/-- the elements in front, with another last element of the list -/
theorem Inner.relinkFront {x p : Addr} {t ys : List Addr} {f : Addr → Ptr} {stop : Ptr} (h : Inner s as el bs x t ys p)
    (hf : Visits f as.reverse stop) (v : Ptr) : Visits (update f x v) as.reverse v := by
  rw [h.first, List.reverse_cons] at hf ⊢
  exact hf.retarget h.head_notMem v

theorem listReplace_spec {old new : Addr} (h : Represents s (as ++ old :: bs)) (hnew : new ∉ as ++ old :: bs) :
    ∃ s', listReplace s (some old) (some new) = some s' ∧ Represents s' (as ++ new :: bs) ∧
      ∀ c, c ∉ as ++ old :: bs → c ≠ new → SameLinks s s' c := by
  have hA := h.links.around
  have hn := h.links.nodup
  have hn' : (as ++ new :: bs).Nodup := by
    apply List.nodup_middle.2
    have hn := (List.nodup_cons.1 (List.nodup_middle.1 hn)).2
    exact List.nodup_cons.2 ⟨fun hc => hnew (by simp at hc ⊢; tauto), hn⟩
  have hh := h.head
  simp only [List.mem_append, List.mem_cons, not_or] at hnew
  obtain ⟨hnas, hno, hnbs⟩ := hnew
  by_cases has : as = []
  · subst has
    cases bs with
    | nil =>
      have hnx : s.mem.next old = none := hA.next_eq
      refine ⟨⟨some new, ⟨update (update s.mem.prev new (some new)) old (some new), update s.mem.next new none,
        s.mem.byte⟩⟩, ?_, ⟨rfl, List.nodup_singleton new, ?_, ?_⟩, ?_⟩
      · simp [listReplace, hh, hnx, update_of_ne (Ne.symm hno)]
      · simp
      · simp [update_of_ne hno]
      · intro c hc hne
        have hco : c ≠ old := by simpa using hc
        exact ⟨by simp [update_of_ne hco, update_of_ne hne], by simp [update_of_ne hne]⟩
    | cons b t =>
      have hnx : s.mem.next old = some b := hA.next_eq
      have hbo : b ≠ old := fun he => by simp [he] at hn
      have hbt : b ∉ t.reverse := not_mem_tail (hn.sublist (by simp))
      simp only [List.mem_cons, not_or] at hnbs
      refine ⟨⟨some new, ⟨update (update s.mem.prev new (s.mem.prev old)) b (some new), update s.mem.next new (some b),
        s.mem.byte⟩⟩, ?_, ⟨rfl, Around.threaded ⟨trivial, ?_, ?_, ?_, ?_, trivial⟩ hn'⟩, ?_⟩
      · simp [listReplace, hh, hnx, update_of_ne (Ne.symm hno)]
      · simp
      · exact hA.after.update (by simp [hnbs]) _
      · have hback := hA.back
        rw [List.reverse_cons] at hback ⊢
        exact (hback.update (by simp [hnbs]) _).retarget hbt _
      · simp [update_of_ne hnbs.1, hA.prev_eq, List.getLast?_cons]
      · intro c hc hne
        simp only [List.nil_append, List.mem_cons, not_or] at hc
        exact ⟨by simp [update_of_ne hc.2.1, update_of_ne hne], by simp [update_of_ne hne]⟩
  · obtain ⟨x, t, ys, p, hI⟩ := h.inner has
    have hnx : new ≠ x := (ne_of_mem_of_not_mem hI.head_mem hnas).symm
    have hnp : new ≠ p := (ne_of_mem_of_not_mem hI.back_mem hnas).symm
    have hlast : as.getLast? = some p := by rw [hI.last]; simp
    have hhead : ∀ bs', (as ++ new :: bs').head? = some x := fun bs' => by rw [hI.first]; rfl
    cases bs with
    | nil =>
      have hnext : s.mem.next old = none := hA.next_eq
      refine ⟨⟨some x, ⟨update (update s.mem.prev new (some p)) x (some new),
        update (update s.mem.next new none) p (some new), s.mem.byte⟩⟩, ?_,
        ⟨(hhead []).symm, Around.threaded ⟨?_, ?_, trivial, trivial, ?_, ?_⟩ hn'⟩, ?_⟩
      · simp [listReplace, hI.head, hI.second, hI.back, hnext, update_of_ne (Ne.symm hno), hI.head_ne.symm]
      · exact hI.relink (hA.before.update hnas none) _
      · simp [update_of_ne hnp]
      · simp [update_of_ne hnx, hlast]
      · exact hI.relinkFront (hA.front.update (x := new) (by simpa using hnas) (some p)) _
      · intro c hc hne
        have hcx : c ≠ x := fun he => hc (List.mem_append_left _ (he ▸ hI.head_mem))
        have hcp : c ≠ p := fun he => hc (List.mem_append_left _ (he ▸ hI.back_mem))
        exact ⟨by simp [update_of_ne hcx, update_of_ne hne], by simp [update_of_ne hcp, update_of_ne hne]⟩
    | cons b t' =>
      have hnext : s.mem.next old = some b := hA.next_eq
      have hbo : old ≠ b := fun he => by simp [he, List.nodup_append] at hn
      have hbt : b ∉ t'.reverse := not_mem_tail (hn.sublist (by simp))
      have hbas : b ∉ as := fun hb => by simp [List.nodup_append] at hn; exact (hn.2.2 b hb).2.1 rfl
      refine ⟨⟨some x, ⟨update (update s.mem.prev new (some p)) b (some new),
        update (update s.mem.next new (some b)) p (some new), s.mem.byte⟩⟩, ?_,
        ⟨(hhead _).symm, Around.threaded ⟨?_, ?_, ?_, ?_, ?_, ?_⟩ hn'⟩, ?_⟩
      · simp [listReplace, hI.head, hI.second, hI.back, hnext, update_of_ne (Ne.symm hno), update_of_ne hbo,
          hI.head_ne.symm]
      · exact hI.relink (hA.before.update hnas _) _
      · simp [update_of_ne hnp]
      · exact (hA.after.update hnbs _).update hI.back_notMem_after _
      · have hback := hA.back
        rw [List.reverse_cons] at hback ⊢
        exact (hback.update (by simpa [and_comm] using hnbs) _).retarget hbt _
      · have hnb : new ≠ b := List.ne_of_not_mem_cons hnbs
        simp [update_of_ne hnb, hlast]
      · have hfront := hA.front.update (x := new) (by simpa using hnas) (some p)
        have hfront' := hfront.update (x := b) (by simpa using hbas) (some new)
        simpa [List.getLast?_cons] using hfront'
      · intro c hc hne
        have hcp : c ≠ p := fun he => hc (List.mem_append_left _ (he ▸ hI.back_mem))
        have hcb : c ≠ b := fun he => hc (by simp [he])
        exact ⟨by simp [update_of_ne hcb, update_of_ne hne], by simp [update_of_ne hcp, update_of_ne hne]⟩

theorem listRm_spec (h : Represents s (as ++ el :: bs)) : ∃ s', listRm s (some el) = some s' ∧
    Represents s' (as ++ bs) ∧ ∀ c, c ∉ as ++ el :: bs → SameLinks s s' c := by
  have hA := h.links.around
  have hn := (List.nodup_cons.1 (List.nodup_middle.1 h.links.nodup)).2
  have hh := h.head
  by_cases has : as = []
  · subst has
    cases bs with
    | nil =>
      have hnext : s.mem.next el = none := hA.next_eq
      refine ⟨⟨none, ⟨update s.mem.prev el (s.mem.prev el), s.mem.next, s.mem.byte⟩⟩, ?_,
        ⟨rfl, List.nodup_nil, trivial, trivial⟩, ?_⟩
      · simp [listRm, hh, hnext]
      · intro c _
        exact ⟨by simp, rfl⟩
    | cons b t =>
      have hnext : s.mem.next el = some b := hA.next_eq
      have hbt : b ∉ t.reverse := not_mem_tail hn
      refine ⟨⟨some b, ⟨update s.mem.prev b (s.mem.prev el), s.mem.next, s.mem.byte⟩⟩, ?_,
        ⟨rfl, hn, hA.after, ?_⟩, ?_⟩
      · simp [listRm, hh, hnext]
      · have hback := hA.back
        rw [List.nil_append, List.reverse_cons] at *
        have hlast : s.mem.prev el = (b :: t).getLast? := by simp [hA.prev_eq, List.getLast?_cons]
        rw [hlast]
        exact hback.retarget hbt _
      · intro c hc
        have hcb : c ≠ b := fun he => hc (by simp [he])
        exact ⟨by simp [update_of_ne hcb], rfl⟩
  · obtain ⟨x, t, ys, p, hI⟩ := h.inner has
    have hlast : as.getLast? = some p := by rw [hI.last]; simp
    have hhead : ∀ bs', (as ++ bs').head? = some x := fun bs' => by rw [hI.first]; rfl
    cases bs with
    | nil =>
      have hnext : s.mem.next el = none := hA.next_eq
      rw [List.append_nil] at hn ⊢
      refine ⟨⟨some x, ⟨update s.mem.prev x (some p), update s.mem.next p none, s.mem.byte⟩⟩, ?_, ⟨?_, hn, ?_, ?_⟩, ?_⟩
      · simp [listRm, hI.head, hI.back, hnext, hI.head_ne.symm, update_of_ne hI.back_ne.symm]
      · simpa using (hhead []).symm
      · exact hI.relink hA.before _
      · rw [hlast]
        exact hI.relinkFront hA.front _
      · intro c hc
        have hcx : c ≠ x := fun he => hc (List.mem_append_left _ (he ▸ hI.head_mem))
        have hcp : c ≠ p := fun he => hc (List.mem_append_left _ (he ▸ hI.back_mem))
        exact ⟨by simp [update_of_ne hcx], by simp [update_of_ne hcp]⟩
    | cons b t' =>
      have hnext : s.mem.next el = some b := hA.next_eq
      have hbas : b ∉ as := fun hb => by simp [List.nodup_append] at hn; exact (hn.2.2 b hb).1 rfl
      have hpb : b ≠ p := (ne_of_mem_of_not_mem hI.back_mem hbas).symm
      have hpt : p ∉ t' := fun hc => hI.back_notMem_after (List.mem_cons_of_mem b hc)
      have hbt : b ∉ t'.reverse := not_mem_tail (hn.sublist (by simp))
      obtain ⟨hb, ht⟩ := hA.after
      have hback := hA.back
      rw [List.reverse_cons] at hback
      refine ⟨⟨some x, ⟨update s.mem.prev b (some p), update s.mem.next p (some b), s.mem.byte⟩⟩, ?_,
        ⟨(hhead _).symm, Around.threaded ⟨?_, ?_, ?_, ?_, ?_, ?_⟩ hn⟩, ?_⟩
      · simp [listRm, hI.head, hI.back, hnext, hI.head_ne.symm, update_of_ne hI.back_ne.symm]
      · exact hI.relink hA.before _
      · simpa [update_of_ne hpb] using hb
      · exact ht.update hpt _
      · exact (visits_append.1 hback).1.update hbt _
      · simp [hlast]
      · have hfront := hA.front.update (x := b) (by simpa using hbas) (some p)
        simpa [List.getLast?_cons] using hfront
      · intro c hc
        have hcp : c ≠ p := fun he => hc (List.mem_append_left _ (he ▸ hI.back_mem))
        have hcb : c ≠ b := fun he => hc (by simp [he])
        exact ⟨by simp [update_of_ne hcb], by simp [update_of_ne hcp]⟩

end Operations

/-! ## The questions -/

theorem listLast_spec {s : List2} {xs : List Addr} (h : Represents s xs) : listLast s = some xs.getLast? := by
  have hh := h.head
  cases xs with
  | nil => simp [listLast, hh]
  | cons x t =>
    have hprev := h.links.prev
    rw [List.reverse_cons] at hprev
    simp [listLast, hh, hprev.last]

theorem listContains_spec {m : ListMem} {xs : List Addr} (h : Visits m.next xs none) (el : Addr) {fuel : ℕ}
    (hf : xs.length < fuel) : listContains m fuel xs.head? (some el) = some (decide (el ∈ xs)) := by
  induction xs generalizing fuel with
  | nil =>
    obtain ⟨k, rfl⟩ : ∃ k, fuel = k + 1 := ⟨fuel - 1, by omega⟩
    simp [listContains]
  | cons x xs ih =>
    obtain ⟨k, rfl⟩ : ∃ k, fuel = k + 1 := ⟨fuel - 1, by omega⟩
    have hrest := ih h.2 (show xs.length < k by simpa using hf)
    have hnext : m.next x = xs.head? := by simpa using h.1
    by_cases hx : x = el
    · simp [listContains, hx]
    · simp [listContains, hx, hnext, hrest, Ne.symm hx]

theorem memcmp_eq_zero {as bs : Bytes} (h : as.length = bs.length) : memcmp as bs = 0 ↔ as = bs := by
  induction as generalizing bs with
  | nil =>
    have hbs : bs = [] := List.length_eq_zero_iff.1 h.symm
    simp [hbs, memcmp]
  | cons a as ih =>
    cases bs with
    | nil => simp at h
    | cons b bs =>
      by_cases hab : a = b
      · simp [memcmp, hab, ih (by simpa using h)]
      · have hne : (a.toNat : ℤ) - b.toNat ≠ 0 := fun he => hab (UInt8.toNat_inj.1 (by omega))
        simp [memcmp, hab, hne]

theorem listFindFrom_spec {m : ListMem} {xs : List Addr} (h : Visits m.next xs none) (offset : ℕ) (ref : Bytes)
    {fuel : ℕ} (hf : xs.length < fuel) : listFindFrom m offset ref fuel xs.head? (xs.head?.bind m.next) =
      some (xs.find? fun a => m.member a offset ref.length = ref) := by
  induction xs generalizing fuel with
  | nil =>
    obtain ⟨k, rfl⟩ : ∃ k, fuel = k + 1 := ⟨fuel - 1, by omega⟩
    rfl
  | cons x xs ih =>
    obtain ⟨k, rfl⟩ : ∃ k, fuel = k + 1 := ⟨fuel - 1, by omega⟩
    have hrest := ih h.2 (show xs.length < k by simpa using hf)
    have hnext : m.next x = xs.head? := by simpa using h.1
    have hcmp : memcmp (m.member x offset ref.length) ref = 0 ↔ m.member x offset ref.length = ref :=
      memcmp_eq_zero (by simp [ListMem.member])
    by_cases hx : m.member x offset ref.length = ref
    · have h0 : memcmp ref ref = 0 := (memcmp_eq_zero rfl).2 rfl
      simp [listFindFrom, hx, h0]
    · have hne : ¬ memcmp (m.member x offset ref.length) ref = 0 := fun h0 => hx (hcmp.1 h0)
      simp [listFindFrom, hne, hx, hnext, hrest]

/-! ## Every edit of every list -/

inductive Edit where
  | addHead (el : Addr)
  | addTail (el : Addr)
  | addIn (el front back : Addr)
  | replace (old new : Addr)
  | rm (el : Addr)

def Edit.apply (s : List2) : Edit → Option List2
  | .addHead el => listAddHead s (some el)
  | .addTail el => listAddTail s (some el)
  | .addIn el front back => listAddIn s (some el) (some front) (some back)
  | .replace old new => listReplace s (some old) (some new)
  | .rm el => listRm s (some el)

/-- the element that goes in or out -/
def Edit.arg : Edit → Addr
  | .addHead el => el
  | .addTail el => el
  | .addIn el _ _ => el
  | .replace _ new => new
  | .rm el => el

/-- what an edit does to the sequence, and when it may be asked for -/
inductive Edits : List Addr → Edit → List Addr → Prop where
  | addHead {xs el} (hel : el ∉ xs) : Edits xs (.addHead el) (el :: xs)
  | addTail {xs el} (hel : el ∉ xs) : Edits xs (.addTail el) (xs ++ [el])
  | addIn {as a b bs el} (hel : el ∉ as ++ a :: b :: bs) :
      Edits (as ++ a :: b :: bs) (.addIn el a b) (as ++ a :: el :: b :: bs)
  | replace {as old bs new} (hnew : new ∉ as ++ old :: bs) : Edits (as ++ old :: bs) (.replace old new) (as ++ new :: bs)
  | rm {as el bs} : Edits (as ++ el :: bs) (.rm el) (as ++ bs)

/-- **The list is the sequence.** Every edit follows no null pointer, leaves a list of the edited sequence and does not
touch the links of other elements; the tail, membership and the first match are those of the sequence. -/
theorem list2_sequence {s : List2} {xs : List Addr} (h : Represents s xs) :
    (∀ e xs', Edits xs e xs' → ∃ s', e.apply s = some s' ∧ Represents s' xs' ∧
      ∀ c, c ∉ xs → c ≠ e.arg → SameLinks s s' c) ∧
    listLast s = some xs.getLast? ∧
    (∀ el fuel, xs.length < fuel → listContains s.mem fuel s.head (some el) = some (decide (el ∈ xs))) ∧
    ∀ offset ref fuel, xs.length < fuel →
      listFind s fuel offset ref = some (xs.find? fun a => s.mem.member a offset ref.length = ref) := by
  refine ⟨?_, listLast_spec h, ?_, ?_⟩
  · intro e xs' he
    cases he with
    | addHead hel => exact listAddHead_spec h hel
    | addTail hel => exact listAddTail_spec h hel
    | addIn hel => exact listAddIn_spec h hel
    | replace hnew => exact listReplace_spec h hnew
    | rm =>
      obtain ⟨s', hs, hr, hsame⟩ := listRm_spec h
      exact ⟨s', hs, hr, fun c hc _ => hsame c hc⟩
  · intro el fuel hf
    rw [h.head]
    exact listContains_spec h.links.next el hf
  · intro offset ref fuel hf
    rw [listFind, h.head]
    exact listFindFrom_spec h.links.next offset ref hf

/-- three elements in a row, at the addresses 1, 2 and 3 -/
def sampleList : List2 :=
  ⟨some 1, ⟨fun a => if a = 1 then some 3 else if a = 2 then some 1 else some 2,
    fun a => if a = 1 then some 2 else if a = 2 then some 3 else none, fun a _ => UInt8.ofNat a⟩⟩

theorem sampleList_represents : Represents sampleList [1, 2, 3] :=
  ⟨rfl, by decide, by simp [sampleList], by simp [sampleList]⟩

theorem list2_sequence_sample :
    (∃ s', listRm sampleList (some 3) = some s' ∧ Represents s' [1, 2]) ∧ listLast sampleList = some (some 3) ∧
      listFind sampleList 4 0 [2] = some (some 2) := by
  obtain ⟨hedit, hlast, _, hfind⟩ := list2_sequence sampleList_represents
  obtain ⟨s', hs, hr, _⟩ := hedit (.rm 3) [1, 2] (show Edits ([1, 2] ++ 3 :: []) _ ([1, 2] ++ []) from .rm)
  exact ⟨⟨s', hs, hr⟩, hlast, (hfind 0 [2] 4 (by decide)).trans (by decide)⟩

end EspHostdriver
