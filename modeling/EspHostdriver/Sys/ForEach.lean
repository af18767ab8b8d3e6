/-
Lean model of `list_for_each` (`include/sys/list.h`) over a doubly linked list, with a body that may take the element it
is called on off the list.

The loop keeps two pointers: the element of this round and the next one. The link of the next one is read only when the
body has returned. Not every object may be accessed: an element that the body removes becomes invalid, and its memory is
the body's to overwrite. A link that is read or written in an invalid object ends the run (`none`), as a null pointer
does; this holds for `list_rm` as well as for the loop. The loop runs on fuel, one unit for each round.

- `Work`, `Body`: what a loop does with an element, with the promise that only `list_rm` touches the links of the list.
- `listRm_eq`: the objects that `list_rm` accesses.
- `visit_spec`: one round keeps the list intact.
- `loop_eq_walk`: the loop over memory is the loop over the sequence that the list was at the start. The loops of the
  other modules are written that way.
- `removal_safe`: it visits that sequence and leaves the elements that were not removed.
-/
import EspHostdriver.Sys.List2

namespace EspHostdriver.ForEach

/-! ## Model -/

/-- the program in a loop: the list, the objects that may be accessed, and everything else -/
structure World (σ : Type) where
  list : List2
  valid : Addr → Bool
  rest : σ

/-- `_list2_rm` -/
def listRm (valid : Addr → Bool) (s : List2) (el : Ptr) : Option List2 := do
  let m ← if el ≠ s.head then do
      let front ← s.mem.getPrev (el.filter valid)
      let back ← s.mem.getNext (el.filter valid)
      s.mem.setNext (front.filter valid) back
    else some s.mem
  let back ← m.getNext (el.filter valid)
  let front ← m.getPrev (el.filter valid)
  let m ← if back ≠ none then m.setPrev (back.filter valid) front else m.setPrev (s.head.filter valid) front
  if el = s.head then do
    let back ← m.getNext (el.filter valid)
    some ⟨back, m⟩
  else some ⟨s.head, m⟩

variable {σ : Type}

/-- the list is well formed, and its elements may be accessed -/
structure Intact (w : World σ) (xs : List Addr) : Prop where
  linked : Represents w.list xs
  valid : ∀ a ∈ xs, w.valid a = true

/-- what may be done with an element of a list, or after its removal, without touching the links of the list -/
structure Work (σ : Type) where
  run : World σ → Addr → ListMem × σ
  keeps : ∀ w el xs, Intact w xs → ∀ a ∈ xs, SameLinks w.list ⟨w.list.head, (run w el).1⟩ a

def Work.on (f : Work σ) (w : World σ) (el : Addr) : World σ :=
  { w with list := ⟨w.list.head, (f.run w el).1⟩, rest := (f.run w el).2 }

/-- the body of a loop: some work, and for the elements that it removes more of it afterwards -/
structure Body (σ : Type) where
  before : Work σ
  removes : World σ → Addr → Bool
  after : Work σ

/-- the body, called on `el`; was `el` removed -/
def Body.visit (b : Body σ) (w : World σ) (el : Addr) : Option (Bool × World σ) :=
  let w := b.before.on w el
  if b.removes w el then do
    let s ← listRm w.valid w.list (some el)
    some (true, b.after.on { w with list := s, valid := Function.update w.valid el false } el)
  else some (false, w)

/-- `next == 0x0 ? 0 : next->next` -/
def readAhead (w : World σ) (next : Ptr) : Option Ptr :=
  if next = none then some none else w.list.mem.getNext (next.filter w.valid)

/-- the rounds from `el` on: the elements visited, and whether the body removed them -/
def loop (b : Body σ) : ℕ → Ptr → Ptr → World σ → Option (List (Addr × Bool) × World σ)
  | 0, _, _, _ => none
  | fuel + 1, el, next, w =>
    match el with
    | none => some ([], w)
    | some a => do
      let (removed, w) ← b.visit w a
      let after ← readAhead w next
      let (log, w) ← loop b fuel next after w
      some ((a, removed) :: log, w)

def listForEach (b : Body σ) (fuel : ℕ) (w : World σ) : Option (List (Addr × Bool) × World σ) := do
  let next ← readAhead w w.list.head
  loop b fuel w.list.head next w

/-- the body, called on the elements of a sequence -/
def walk (b : Body σ) : List Addr → World σ → Option (List (Addr × Bool) × World σ)
  | [], w => some ([], w)
  | a :: as, w => do
    let (removed, w) ← b.visit w a
    let (log, w) ← walk b as w
    some ((a, removed) :: log, w)

/-- the elements that were not removed -/
def kept (log : List (Addr × Bool)) : List Addr := (log.filter fun p => !p.2).map Prod.fst

/-! ## Taking an element off -/

variable {b : Body σ} {w : World σ} {as bs xs : List Addr} {el : Addr}

theorem filter_valid {valid : Addr → Bool} {p : Ptr} (h : ∀ a, p = some a → valid a = true) : p.filter valid = p := by
  cases p with
  | none => rfl
  | some a => exact Option.filter_some_pos (h a rfl)

/-- the element, its neighbours, and the head if the last element goes -/
theorem listRm_eq {valid : Addr → Bool} {s : List2} (hel : valid el = true)
    (hfront : some el ≠ s.head → ∀ a, s.mem.prev el = some a → valid a = true)
    (hback : ∀ a, s.mem.next el = some a → valid a = true)
    (hhead : s.mem.next el = none → ∀ a, s.head = some a → valid a = true) :
    listRm valid s (some el) = EspHostdriver.listRm s (some el) := by
  have hlast : s.mem.next el = none → s.head.filter valid = s.head := fun h0 => filter_valid (hhead h0)
  -- writing the link of the element in front does not change where the element itself leads
  have hkeep : ∀ a, Function.update s.mem.next a (s.mem.next el) el = s.mem.next el := by
    intro a
    by_cases ha : el = a
    · rw [ha, Function.update_self]
    · exact Function.update_of_ne ha _ _
  by_cases hh : some el = s.head
  · cases hb : s.mem.next el with
    | none => simp [listRm, EspHostdriver.listRm, Option.filter_some, ← hh, hel, hb]
    | some c => simp [listRm, EspHostdriver.listRm, Option.filter_some, ← hh, hel, hb, hback c hb]
  · cases hf : s.mem.prev el with
    | none => simp [listRm, EspHostdriver.listRm, ListMem.setNext, Option.filter_some, hh, hel, hf]
    | some a =>
      have ha : valid a = true := hfront hh a hf
      have hback' := hkeep a
      cases hb : s.mem.next el with
      | none =>
        rw [hb] at hback'
        simp [listRm, EspHostdriver.listRm, Option.filter_some, hh, hel, hf, ha, hb, hback', hlast hb]
      | some c =>
        rw [hb] at hback'
        simp [listRm, EspHostdriver.listRm, Option.filter_some, hh, hel, hf, ha, hb, hback', hback c hb]

/-- on an intact list they are all elements -/
theorem listRm_intact (h : Intact w (as ++ el :: bs)) :
    ∃ s, listRm w.valid w.list (some el) = some s ∧ Represents s (as ++ bs) := by
  have hA := h.linked.links.around
  have hrm : listRm w.valid w.list (some el) = EspHostdriver.listRm w.list (some el) := by
    apply listRm_eq
    · exact h.valid el (by simp)
    · intro hne a ha
      have has : as ≠ [] := by
        rintro rfl
        exact hne h.linked.head.symm
      obtain ⟨x, t, ys, p, hI⟩ := h.linked.inner has
      obtain rfl : p = a := Option.some.inj (hI.back.symm.trans ha)
      exact h.valid p (List.mem_append_left _ hI.back_mem)
    · intro a ha
      rw [hA.next_eq] at ha
      exact h.valid a (List.mem_append_right as (List.mem_cons_of_mem el (List.mem_of_head? ha)))
    · intro _ a ha
      rw [h.linked.head] at ha
      exact h.valid a (List.mem_of_head? ha)
  obtain ⟨s, hs, hr, _⟩ := listRm_spec h.linked
  exact ⟨s, hrm.trans hs, hr⟩

/-! ## One round -/

theorem Work.intact (f : Work σ) (h : Intact w xs) (el : Addr) : Intact (f.on w el) xs :=
  ⟨h.linked.congr rfl (f.keeps w el xs h), h.valid⟩

/-- an element that is off the list may become invalid -/
theorem Intact.invalidate {s : List2} (h : Intact w (as ++ el :: bs)) (hs : Represents s (as ++ bs)) :
    Intact { w with list := s, valid := Function.update w.valid el false } (as ++ bs) := by
  refine ⟨hs, ?_⟩
  intro a ha
  have hel : el ∉ as ++ bs := (List.nodup_cons.1 (List.nodup_middle.1 h.linked.links.nodup)).1
  have hold : a ∈ as ++ el :: bs := by
    rw [List.mem_append] at ha ⊢
    exact ha.imp_right (List.mem_cons_of_mem el)
  exact (Function.update_of_ne (ne_of_mem_of_not_mem ha hel) _ _).trans (h.valid a hold)

/-- what stays on the list of an element that is visited -/
def stays (removed : Bool) (el : Addr) : List Addr := if removed then [] else [el]

theorem visit_spec (h : Intact w (as ++ el :: bs)) :
    ∃ removed w', b.visit w el = some (removed, w') ∧ Intact w' ((as ++ stays removed el) ++ bs) ∧
      w'.valid = if removed then Function.update w.valid el false else w.valid := by
  have hbefore := b.before.intact h el
  by_cases hr : b.removes (b.before.on w el) el = true
  · obtain ⟨s, hs, hrep⟩ := listRm_intact hbefore
    refine ⟨true, _, (if_pos hr).trans (by rw [hs]; rfl), ?_, rfl⟩
    rw [stays, if_pos rfl, List.append_nil]
    exact b.after.intact (hbefore.invalidate hrep) el
  · refine ⟨false, b.before.on w el, if_neg hr, ?_, rfl⟩
    rw [stays, if_neg Bool.false_ne_true, List.append_assoc]
    exact hbefore

/-- the next element is on the list still -/
theorem readAhead_eq (h : Intact w (as ++ bs)) : readAhead w bs.head? = some bs.tail.head? := by
  cases bs with
  | nil => rfl
  | cons c t =>
    have hc : w.valid c = true := h.valid c (by simp)
    simp [readAhead, Option.filter_some, hc, h.linked.links.around.next_eq]

/-! ## The loop -/

/-- the elements of the list from `el` on are those of the sequence; the ones before it do not matter -/
theorem loop_eq_walk (h : Intact w (as ++ bs)) {fuel : ℕ} (hf : bs.length < fuel) :
    loop b fuel bs.head? bs.tail.head? w = walk b bs w := by
  induction bs generalizing as w fuel with
  | nil =>
    obtain ⟨k, rfl⟩ : ∃ k, fuel = k + 1 := ⟨fuel - 1, by omega⟩
    rfl
  | cons a t ih =>
    obtain ⟨k, rfl⟩ : ∃ k, fuel = k + 1 := ⟨fuel - 1, by omega⟩
    obtain ⟨removed, w', hv, hw', _⟩ := visit_spec (b := b) h
    -- the link behind the next element is read in the memory that the body leaves
    have hahead : readAhead w' t.head? = some t.tail.head? := readAhead_eq hw'
    have hrest := ih hw' (show t.length < k by simpa using hf)
    simp only [List.head?_cons, List.tail_cons, loop, walk, hv, hahead, hrest, bind, Option.bind]

theorem listForEach_eq_walk (h : Intact w xs) {fuel : ℕ} (hf : xs.length < fuel) :
    listForEach b fuel w = walk b xs w := by
  have hnil : Intact w ([] ++ xs) := h
  have hahead : readAhead w xs.head? = some xs.tail.head? := readAhead_eq hnil
  simp only [listForEach, h.linked.head, hahead, bind, Option.bind]
  exact loop_eq_walk hnil hf

theorem kept_cons (p : Addr × Bool) (log : List (Addr × Bool)) : kept (p :: log) = stays p.2 p.1 ++ kept log := by
  cases hp : p.2 <;> simp [kept, stays, hp]

/-- what an element loses it does not get back -/
theorem walk_spec (h : Intact w (as ++ bs)) :
    ∃ log w', walk b bs w = some (log, w') ∧ log.map Prod.fst = bs ∧ Intact w' (as ++ kept log) ∧
      (∀ p ∈ log, p.2 = true → w'.valid p.1 = false) ∧ ∀ a, w.valid a = false → w'.valid a = false := by
  induction bs generalizing as w with
  | nil => exact ⟨[], w, rfl, rfl, h, by simp, fun _ ha => ha⟩
  | cons a t ih =>
    obtain ⟨removed, w', hv, hw', hvalid⟩ := visit_spec (b := b) h
    obtain ⟨log, w'', hlog, hfst, hw'', hoff, hmono⟩ := ih hw'
    have hstep : ∀ c, w.valid c = false → w'.valid c = false := by
      intro c hc
      rw [hvalid]
      split_ifs
      · rw [Function.update_apply]
        split_ifs
        · rfl
        · exact hc
      · exact hc
    refine ⟨(a, removed) :: log, w'', ?_, ?_, ?_, ?_, fun c hc => hmono c (hstep c hc)⟩
    · simp only [walk, hv, hlog, bind, Option.bind]
    · rw [List.map_cons, hfst]
    · rw [kept_cons, ← List.append_assoc]
      exact hw''
    · intro p hp hr
      rcases List.mem_cons.1 hp with rfl | hp
      · apply hmono
        rw [hvalid, if_pos hr, Function.update_self]
      · exact hoff p hp hr

/-- **A loop may remove what it visits.** It ends, calls the body on every element that was on the list at the start, in
their order and once each, accesses no element that was removed, and leaves a well-formed list of the others. -/
theorem removal_safe (b : Body σ) {w : World σ} {xs : List Addr} (h : Intact w xs) {fuel : ℕ} (hf : xs.length < fuel) :
    ∃ log w', listForEach b fuel w = some (log, w') ∧ log.map Prod.fst = xs ∧ xs.Nodup ∧
      Intact w' (kept log) ∧ ∀ p ∈ log, p.2 = true → w'.valid p.1 = false := by
  have hnil : Intact w ([] ++ xs) := h
  obtain ⟨log, w', hlog, hfst, hw', hoff, _⟩ := walk_spec (b := b) hnil
  exact ⟨log, w', (listForEach_eq_walk h hf).trans hlog, hfst, h.linked.links.nodup, hw', hoff⟩

/-- overwrite the links of an element that is invalid -/
def scribble : Work Unit where
  run w el :=
    let m := w.list.mem
    if w.valid el then (m, ())
    else (⟨Function.update m.prev el (some el), Function.update m.next el (some el), m.byte⟩, ())
  keeps := by
    intro w el xs h a ha
    by_cases hv : w.valid el = true
    · simp only [hv, if_true]
      exact ⟨rfl, rfl⟩
    · have hne : a ≠ el := by
        rintro rfl
        exact hv (h.valid a ha)
      simp only [hv]
      exact ⟨Function.update_of_ne hne _ _, Function.update_of_ne hne _ _⟩

/-- remove everything but element 3 -/
def sampleBody : Body Unit := ⟨scribble, fun _ el => el != 3, scribble⟩

theorem removal_safe_sample : ∃ w', listForEach sampleBody 4 ⟨sampleList, fun _ => true, ()⟩ =
    some ([(1, true), (2, true), (3, false)], w') ∧ Intact w' [3] := by
  have hintact : Intact (σ := Unit) ⟨sampleList, fun _ => true, ()⟩ [1, 2, 3] := ⟨sampleList_represents, fun _ _ => rfl⟩
  obtain ⟨log, w', hlog, -, -, hw', -⟩ := removal_safe sampleBody hintact (show [1, 2, 3].length < 4 by decide)
  have heval : (listForEach sampleBody 4 ⟨sampleList, fun _ => true, ()⟩).map Prod.fst =
      some [(1, true), (2, true), (3, false)] := by decide
  rw [hlog, Option.map_some, Option.some.injEq] at heval
  subst heval
  exact ⟨w', hlog, hw'⟩

end EspHostdriver.ForEach
