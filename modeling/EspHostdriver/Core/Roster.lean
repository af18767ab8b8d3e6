/-
A list of entries with one entry for each key, such as the calls in progress of a set of threads.

- `lookup`, `edit`, `drop`: the entry of a key, a change to it, its removal.
- `Keyed` says that no two entries share a key; it is kept by all of them.
- `mem_edit`, `mem_drop`: what the entries are afterwards, so that a fact about all entries is carried over by looking
  at the changed one.
- `standing` is the entry of a key that has come to a certain stage; `signal` lets one of those at a stage go on, as a
  signal on a condition variable does with the threads that wait. `signal_some`: what it can have done.
- `lookup_map`, `edit_map`, `drop_map`, `signal_map`: nothing of this depends on what else an entry holds.
- `total` adds up what each entry counts for; `total_edit`, `total_drop`: only the changed entry matters.
-/
import Mathlib.Tactic

namespace EspHostdriver.Roster

variable {α φ : Type*} [DecidableEq φ] (key : α → ℕ) (stage : α → φ)

def lookup (l : List α) (t : ℕ) : Option α := l.find? fun c => key c = t

def edit (l : List α) (t : ℕ) (f : α → α) : List α := l.map fun c => if key c = t then f c else c

def drop (l : List α) (t : ℕ) : List α := l.filter fun c => key c ≠ t

/-- the entry of a key, if it has come to a stage -/
def standing (l : List α) (t : ℕ) (p : φ) : Option α := (lookup key l t).filter fun c => stage c = p

/-- the entry of a key goes on from a stage; without a key, only if no entry is there -/
def signal (l : List α) (p : φ) (f : α → α) : Option ℕ → Option (List α)
  | none => if l.all (fun c => stage c ≠ p) then some l else none
  | some t => (standing key stage l t p).map fun _ => edit key l t f

/-- what the entries count for together -/
def total (l : List α) (g : α → ℕ) : ℕ := (l.map g).sum

/-- one entry for each key -/
def Keyed (l : List α) : Prop := (l.map key).Nodup

variable {key stage} {l : List α} {t : ℕ} {p : φ} {c d : α} {f : α → α}

theorem lookup_some (h : lookup key l t = some c) : c ∈ l ∧ key c = t :=
  ⟨List.mem_of_find?_eq_some h, by simpa using List.find?_some h⟩

theorem lookup_none : lookup key l t = none ↔ ∀ c ∈ l, key c ≠ t := by simp [lookup, List.find?_eq_none]

theorem lookup_last (h : lookup key l (key c) = none) : lookup key (l ++ [c]) (key c) = some c := by
  have hnone : l.find? (fun d => key d = key c) = none := h
  simp [lookup, List.find?_append, hnone]

theorem edit_last (h : lookup key l (key c) = none) : edit key (l ++ [c]) (key c) f = l ++ [f c] := by
  rw [edit, List.map_append, List.map_congr_left fun d hd => if_neg (lookup_none.1 h d hd), List.map_id']
  simp

/-- a change that leaves the key alone is found under the same key -/
theorem lookup_edit (hf : ∀ c, key (f c) = key c) : lookup key (edit key l t f) t = (lookup key l t).map f := by
  induction l with
  | nil => rfl
  | cons c l ih =>
    by_cases hc : key c = t
    · simp [lookup, edit, hc, hf]
    · simpa [lookup, edit, hc] using ih

theorem standing_some : standing key stage l t p = some c ↔ lookup key l t = some c ∧ stage c = p := by
  simp [standing, Option.filter_eq_some_iff]

theorem map_standing {γ : Type*} {g : α → γ} {x : γ} (h : (standing key stage l t p).map g = some x) :
    ∃ c, lookup key l t = some c ∧ stage c = p ∧ x = g c := by
  obtain ⟨c, hc, rfl⟩ := Option.map_eq_some_iff.1 h
  exact ⟨c, (standing_some.1 hc).1, (standing_some.1 hc).2, rfl⟩

theorem signal_some {w : Option ℕ} {l' : List α} (h : signal key stage l p f w = some l') :
    ((∀ c ∈ l, stage c ≠ p) ∧ l' = l) ∨
      ∃ t c, w = some t ∧ lookup key l t = some c ∧ stage c = p ∧ l' = edit key l t f := by
  cases w with
  | none =>
    simp only [signal] at h
    split_ifs at h with hall
    exact Or.inl ⟨by simpa using hall, (Option.some.inj h).symm⟩
  | some t =>
    obtain ⟨c, hc, hp, rfl⟩ := map_standing h
    exact Or.inr ⟨t, c, rfl, hc, hp, rfl⟩

theorem Keyed.unique (hk : Keyed key l) (hc : c ∈ l) (hd : d ∈ l) (h : key c = key d) : c = d :=
  List.inj_on_of_nodup_map hk hc hd h

theorem lookup_of_mem (hk : Keyed key l) (hc : c ∈ l) : lookup key l (key c) = some c := by
  cases h : lookup key l (key c) with
  | none => exact absurd rfl (lookup_none.1 h c hc)
  | some d => rw [hk.unique (lookup_some h).1 hc (lookup_some h).2]

theorem mem_drop : d ∈ drop key l t ↔ d ∈ l ∧ key d ≠ t := by simp [drop]

theorem mem_edit (hk : Keyed key l) (h : lookup key l t = some c) :
    d ∈ edit key l t f ↔ d = f c ∨ (d ∈ l ∧ key d ≠ t) := by
  obtain ⟨hc, ht⟩ := lookup_some h
  rw [edit, List.mem_map]
  constructor
  · rintro ⟨e, he, rfl⟩
    by_cases hkey : key e = t
    · left
      rw [if_pos hkey, hk.unique he hc (hkey.trans ht.symm)]
    · right
      rw [if_neg hkey]
      exact ⟨he, hkey⟩
  · rintro (rfl | ⟨hd, hkey⟩)
    · exact ⟨c, hc, if_pos ht⟩
    · exact ⟨d, hd, if_neg hkey⟩

theorem forall_edit {P : α → Prop} (h : ∀ c ∈ l, P c) (hf : ∀ c, P c → P (f c)) : ∀ c ∈ edit key l t f, P c := by
  rintro d hd
  obtain ⟨c, hc, rfl⟩ := List.mem_map.1 hd
  by_cases hkey : key c = t
  · rw [if_pos hkey]
    exact hf c (h c hc)
  · rw [if_neg hkey]
    exact h c hc

theorem Keyed.add (hk : Keyed key l) (h : lookup key l (key c) = none) : Keyed key (l ++ [c]) := by
  rw [Keyed, List.map_append, List.map_singleton]
  apply List.Nodup.append hk (List.nodup_singleton _)
  rw [List.disjoint_singleton, List.mem_map]
  rintro ⟨d, hd, hkey⟩
  exact lookup_none.1 h d hd hkey

/-- a change that leaves a key alone, whichever key the entries are found by -/
theorem Keyed.edit {other : α → ℕ} (hk : Keyed other l) (hf : ∀ c, other (f c) = other c) :
    Keyed other (edit key l t f) := by
  have hsame : (Roster.edit key l t f).map other = l.map other := by
    rw [Roster.edit, List.map_map]
    apply List.map_congr_left
    intro c _
    by_cases hkey : key c = t <;> simp [hkey, hf]
  rw [Keyed, hsame]
  exact hk

theorem Keyed.drop {other : α → ℕ} (hk : Keyed other l) : Keyed other (drop key l t) :=
  hk.sublist (List.filter_sublist.map other)

/-! ## Entries that hold more -/

section Map

variable {β : Type*} {keyB : β → ℕ} {stageB : β → φ} {g : α → β} {fB : β → β}

theorem lookup_map (hk : ∀ c, keyB (g c) = key c) : lookup keyB (l.map g) t = (lookup key l t).map g := by
  rw [lookup, List.find?_map, lookup]
  congr 2
  funext c
  rw [Function.comp_apply, hk]

theorem standing_map (hk : ∀ c, keyB (g c) = key c) (hs : ∀ c, stageB (g c) = stage c) :
    standing keyB stageB (l.map g) t p = (standing key stage l t p).map g := by
  rw [standing, lookup_map hk, Option.filter_map, standing]
  congr 2
  funext c
  rw [Function.comp_apply, hs]

theorem edit_map (hk : ∀ c, keyB (g c) = key c) (hf : ∀ c, fB (g c) = g (f c)) :
    edit keyB (l.map g) t fB = (edit key l t f).map g := by
  rw [edit, edit, List.map_map, List.map_map]
  apply List.map_congr_left
  intro c _
  by_cases hc : key c = t <;> simp [hk, hf, hc]

theorem drop_map (hk : ∀ c, keyB (g c) = key c) : drop keyB (l.map g) t = (drop key l t).map g := by
  rw [drop, List.filter_map, drop]
  congr 2
  funext c
  rw [Function.comp_apply, hk]

theorem signal_map (hk : ∀ c, keyB (g c) = key c) (hs : ∀ c, stageB (g c) = stage c) (hf : ∀ c, fB (g c) = g (f c))
    (w : Option ℕ) : signal keyB stageB (l.map g) p fB w = (signal key stage l p f w).map (List.map g) := by
  cases w with
  | none => simp [signal, List.all_map, Function.comp_def, hs, apply_ite]
  | some t =>
    rw [signal, standing_map hk hs, edit_map hk hf, signal, Option.map_map, Option.map_map]
    rfl

end Map

/-! ## Totals -/

variable {g : α → ℕ}

theorem total_add : total (l ++ [c]) g = total l g + g c := by simp [total]

theorem total_eq_zero : total l g = 0 ↔ ∀ c ∈ l, g c = 0 := by simp [total, List.sum_eq_zero_iff]

theorem le_total (hc : c ∈ l) : g c ≤ total l g := List.single_le_sum (fun _ _ => Nat.zero_le _) _ (List.mem_map_of_mem hc)

/-- an entry that is there stands between others that have another key -/
theorem Keyed.split (hk : Keyed key l) (h : lookup key l t = some c) :
    ∃ l1 l2, l = l1 ++ c :: l2 ∧ key c = t ∧ (∀ d ∈ l1, key d ≠ t) ∧ ∀ d ∈ l2, key d ≠ t := by
  obtain ⟨hc, rfl⟩ := lookup_some h
  obtain ⟨l1, l2, rfl⟩ := List.append_of_mem hc
  have hsplit : ((l1 ++ l2).map key).Nodup ∧ key c ∉ (l1 ++ l2).map key := by
    rw [Keyed, List.map_append, List.map_cons, List.nodup_middle, ← List.map_append] at hk
    exact ⟨(List.nodup_cons.1 hk).2, (List.nodup_cons.1 hk).1⟩
  have hne : ∀ d ∈ l1 ++ l2, key d ≠ key c := fun d hd heq => hsplit.2 (List.mem_map.2 ⟨d, hd, heq⟩)
  exact ⟨l1, l2, rfl, rfl, fun d hd => hne d (List.mem_append_left _ hd), fun d hd => hne d (List.mem_append_right _ hd)⟩

theorem total_edit (hk : Keyed key l) (h : lookup key l t = some c) :
    total (edit key l t f) g + g c = total l g + g (f c) := by
  obtain ⟨l1, l2, rfl, hc, h1, h2⟩ := hk.split h
  have hsame : ∀ l' : List α, (∀ d ∈ l', key d ≠ t) → edit key l' t f = l' := fun l' hl => by
    rw [edit, List.map_congr_left fun d hd => if_neg (hl d hd), List.map_id']
  have hedit : edit key (l1 ++ c :: l2) t f = l1 ++ f c :: l2 := by
    have happ : edit key (l1 ++ c :: l2) t f = edit key l1 t f ++ (if key c = t then f c else c) :: edit key l2 t f := by
      simp [edit]
    rw [happ, hsame l1 h1, hsame l2 h2, if_pos hc]
  rw [hedit]
  simp only [total, List.map_append, List.map_cons, List.sum_append, List.sum_cons]
  omega

theorem total_drop (hk : Keyed key l) (h : lookup key l t = some c) : total (drop key l t) g + g c = total l g := by
  obtain ⟨l1, l2, rfl, hc, h1, h2⟩ := hk.split h
  have hsame : ∀ l' : List α, (∀ d ∈ l', key d ≠ t) → drop key l' t = l' := fun l' hl =>
    List.filter_eq_self.2 fun d hd => by simpa using hl d hd
  have hdrop : drop key (l1 ++ c :: l2) t = l1 ++ l2 := by
    have happ : drop key (l1 ++ c :: l2) t = drop key l1 t ++ drop key l2 t := by
      rw [drop, List.filter_append, List.filter_cons_of_neg (by simpa using hc)]
      rfl
    rw [happ, hsame l1 h1, hsame l2 h2]
  rw [hdrop]
  simp only [total, List.map_append, List.map_cons, List.sum_append, List.sum_cons]
  omega

end EspHostdriver.Roster
