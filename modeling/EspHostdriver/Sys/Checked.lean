/-
List operations on a memory that holds other lists too, and objects that may not be accessed.

`bos/fs.c` keeps its file systems, its descriptors and the children of every node on lists of their own, all threaded
through the same memory, and frees what it takes off them. So an operation has to keep to objects that are still there,
and to leave the links of the other lists alone. As in `ForEach`, an access to an object that is not valid ends the call.

- `addTail`, `ForEach.listRm`, `find`: `list_add_tail`, `list_rm`, and a `list_for_each` that stops at the first element
  of a kind, with their accesses checked.
- `addTail_spec`, `rm_spec`, `find_spec`: on a list of valid elements they complete and do to the sequence what the
  unchecked ones do.
- `Represents.frame`: a list without any of the elements that an operation is about is still the list it was.
-/
import EspHostdriver.Sys.ForEach

namespace EspHostdriver.Checked

/-! ## Model -/

/-- `_list2_add_tail` -/
def addTail (valid : Addr → Bool) (s : List2) (el : Ptr) : Option List2 := do
  let m ← s.mem.setNext (el.filter valid) none
  if s.head = none then do
    let m ← m.setPrev (el.filter valid) el
    some ⟨el, m⟩
  else do
    let last ← m.getPrev (s.head.filter valid)
    let m ← m.setPrev (el.filter valid) last
    let last ← m.getPrev (s.head.filter valid)
    let m ← m.setNext (last.filter valid) el
    let m ← m.setPrev (s.head.filter valid) el
    some ⟨s.head, m⟩

/-- `next == 0x0 ? 0 : next->next` -/
def readAhead (valid : Addr → Bool) (m : ListMem) (next : Ptr) : Option Ptr :=
  if next = none then some none else m.getNext (next.filter valid)

/-- the rounds from `el` on of a `list_for_each` with a break; `test` reads the element -/
def findFrom (valid : Addr → Bool) (m : ListMem) (test : Addr → Option Bool) : ℕ → Ptr → Ptr → Option Ptr
  | 0, _, _ => none
  | fuel + 1, el, next =>
    match el with
    | none => some none
    | some a => do
      let hit ← test a
      if hit then some el
      else do
        let after ← readAhead valid m next
        findFrom valid m test fuel next after

def find (valid : Addr → Bool) (m : ListMem) (test : Addr → Option Bool) (fuel : ℕ) (head : Ptr) : Option Ptr := do
  let next ← readAhead valid m head
  findFrom valid m test fuel head next

/-! ## What they do to a list -/

variable {valid : Addr → Bool} {s s' : List2} {xs ys as bs : List Addr} {el : Addr}

open ForEach (filter_valid)

theorem getNext_filter {m : ListMem} {a : Addr} (ha : valid a = true) :
    m.getNext ((some a).filter valid) = some (m.next a) := by
  rw [Option.filter_some_pos ha, ListMem.getNext_some]

theorem addTail_eq (h : Represents s xs) (hv : ∀ a ∈ xs, valid a = true) (hel : valid el = true) :
    addTail valid s (some el) = listAddTail s (some el) := by
  have hel' : (some el).filter valid = some el := Option.filter_some_pos hel
  have hhead : s.head.filter valid = s.head := filter_valid fun a ha => hv a (List.mem_of_head? (h.head ▸ ha))
  have hlast : listLast s = some xs.getLast? := listLast_spec h
  cases hh : s.head with
  | none => simp [addTail, listAddTail, hel', hh]
  | some x =>
    have hlast' : s.mem.prev x = xs.getLast? := by simpa [listLast, hh] using hlast
    have hx : (some x).filter valid = some x := hh ▸ hhead
    have hz : xs.getLast?.filter valid = xs.getLast? := filter_valid fun a ha => hv a (List.mem_of_getLast? ha)
    by_cases hxe : x = el
    · subst hxe
      simp [addTail, listAddTail, hh, hx, hlast', hz]
    · simp [addTail, listAddTail, hh, hel', hx, hlast', hz, Function.update_of_ne hxe]

theorem addTail_spec (h : Represents s xs) (hv : ∀ a ∈ xs, valid a = true) (hel : valid el = true) (hnew : el ∉ xs) :
    ∃ s', addTail valid s (some el) = some s' ∧ Represents s' (xs ++ [el]) ∧
      ∀ c, c ∉ xs → c ≠ el → SameLinks s s' c := by
  rw [addTail_eq h hv hel]
  exact listAddTail_spec h hnew

theorem rm_eq (h : Represents s (as ++ el :: bs)) (hv : ∀ a ∈ as ++ el :: bs, valid a = true) :
    ForEach.listRm valid s (some el) = listRm s (some el) := by
  have hA := h.links.around
  refine ForEach.listRm_eq (hv el (by simp)) (fun _ a ha => hv a ?_) (fun a ha => hv a ?_) fun _ a ha => hv a ?_
  · rw [hA.prev_eq, Option.or_eq_some_iff] at ha
    rcases ha with ha | ⟨_, ha⟩
    · exact List.mem_append_left _ (List.mem_of_getLast? ha)
    · exact List.mem_append_right _ (List.mem_of_getLast? ha)
  · rw [hA.next_eq] at ha
    exact List.mem_append_right _ (List.mem_cons_of_mem _ (List.mem_of_head? ha))
  · exact List.mem_of_head? (h.head ▸ ha)

theorem rm_spec (h : Represents s (as ++ el :: bs)) (hv : ∀ a ∈ as ++ el :: bs, valid a = true) :
    ∃ s', ForEach.listRm valid s (some el) = some s' ∧ Represents s' (as ++ bs) ∧
      ∀ c, c ∉ as ++ el :: bs → SameLinks s s' c := by
  rw [rm_eq h hv]
  exact listRm_spec h

theorem readAhead_head {m : ListMem} (h : Links.Visits m.next xs none) (hv : ∀ a ∈ xs, valid a = true) :
    readAhead valid m xs.head? = some xs.tail.head? := by
  cases xs with
  | nil => rfl
  | cons x t =>
    have hx : valid x = true := hv x List.mem_cons_self
    have hnext : m.next x = t.head? := by simpa using h.1
    simp [readAhead, getNext_filter hx, hnext]

theorem findFrom_spec {m : ListMem} {test : Addr → Option Bool} {p : Addr → Bool} (h : Links.Visits m.next xs none)
    (hv : ∀ a ∈ xs, valid a = true) (ht : ∀ a ∈ xs, test a = some (p a)) {fuel : ℕ} (hf : xs.length < fuel) :
    findFrom valid m test fuel xs.head? xs.tail.head? = some (xs.find? p) := by
  induction xs generalizing fuel with
  | nil =>
    obtain ⟨k, rfl⟩ : ∃ k, fuel = k + 1 := ⟨fuel - 1, by omega⟩
    rfl
  | cons x t ih =>
    obtain ⟨k, rfl⟩ : ∃ k, fuel = k + 1 := ⟨fuel - 1, by omega⟩
    have hv' : ∀ a ∈ t, valid a = true := fun a ha => hv a (List.mem_cons_of_mem x ha)
    have ht' : ∀ a ∈ t, test a = some (p a) := fun a ha => ht a (List.mem_cons_of_mem x ha)
    have hrest := ih h.2 hv' ht' (show t.length < k by simpa using hf)
    have hahead := readAhead_head h.2 hv'
    cases hp : p x with
    | true => simp [findFrom, ht x List.mem_cons_self, hp]
    | false =>
      simp only [List.head?_cons, List.tail_cons, findFrom, ht x List.mem_cons_self, hp, hahead, hrest, bind,
        Option.bind, Bool.false_eq_true, if_false, List.find?_cons]

theorem find_spec {m : ListMem} {head : Ptr} {test : Addr → Option Bool} {p : Addr → Bool}
    (h : Represents ⟨head, m⟩ xs) (hv : ∀ a ∈ xs, valid a = true) (ht : ∀ a ∈ xs, test a = some (p a)) {fuel : ℕ}
    (hf : xs.length < fuel) : find valid m test fuel head = some (xs.find? p) := by
  have hhead : head = xs.head? := h.head
  rw [find, hhead, readAhead_head h.links.next hv]
  exact findFrom_spec h.links.next hv ht hf

/-- an operation on one list is none of the business of another one -/
theorem Represents.frame {head : Ptr} (h : Represents ⟨head, s.mem⟩ xs)
    (hsame : ∀ c, c ∉ ys → c ≠ el → SameLinks s s' c) (hd : ∀ a ∈ xs, a ∉ ys ∧ a ≠ el) :
    Represents ⟨head, s'.mem⟩ xs := by
  refine EspHostdriver.Represents.congr h rfl fun a ha => ?_
  obtain ⟨hprev, hnext⟩ := hsame a (hd a ha).1 (hd a ha).2
  exact ⟨hprev, hnext⟩

end EspHostdriver.Checked
