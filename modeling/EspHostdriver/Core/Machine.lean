/-
Machines with a partial step: the library the scenario files are built on.

A machine is a function `step : σ → α → Option σ`; `none` means that the action is not possible in this state. `run`
takes a list of actions, so a statement about every run is a statement about every list of actions, and a statement
about every moment of a run is one about every prefix of it.

- `run_append`: a run is cut anywhere.
- `inv_run`: what holds at the start and is kept by every step holds after every run.
- `guarded_inv_run`: the same for runs whose steps all meet a condition `g` on the state before the step (`Guarded`).
- `inv_guarded`: a condition that an invariant implies is met by every run.
- `total_run`: runs whose allowed steps are all possible are possible.
- `sim_run`: a step-by-step simulation carries every (guarded) run over to the abstract machine.
- `length_run`: steps that all use up some of a finite stock make a run no longer than the stock.
- `iff_run`: when every step keeps a property exactly if it meets the condition, so does every run.
- `always_iff_run`: when every step from a state with a property keeps it exactly if it meets the condition, the property
  holds at every moment of a run exactly if the run meets the condition.
- `Exact`: the property holds, and every step that breaks the condition can be continued to a state without it;
  `exact_run` proves this after every run that meets the condition, from an invariant.
- `Guarded` is decidable for a decidable condition, so a concrete run is checked by evaluation.
- `agree_run`: two machines that step together, or both not at all, run together.
- `answers` is the run of a component that answers every call; `answers_sim`: two components whose answers agree call by
  call, in related states, answer every list of calls alike.
-/
import Mathlib.Tactic

namespace EspHostdriver.Machine

variable {σ τ α β : Type*}

/-- take the actions in order; `none` as soon as one is not possible -/
def run (step : σ → α → Option σ) : σ → List α → Option σ
  | s, [] => some s
  | s, a :: as => (step s a).bind fun s' => run step s' as

/-- every action of the run is taken in a state in which `g` allows it -/
def Guarded (step : σ → α → Option σ) (g : σ → α → Prop) : σ → List α → Prop
  | _, [] => True
  | s, a :: as => g s a ∧ ∀ s', step s a = some s' → Guarded step g s' as

/-! ## Cutting a run -/

variable {step : σ → α → Option σ} {g : σ → α → Prop}

@[simp] theorem run_nil (s : σ) : run step s [] = some s := rfl

theorem run_cons (s : σ) (a : α) (as : List α) :
    run step s (a :: as) = (step s a).bind fun s' => run step s' as := rfl

theorem run_cons_some {s s' : σ} {a : α} {as : List α} :
    run step s (a :: as) = some s' ↔ ∃ m, step s a = some m ∧ run step m as = some s' := by
  simp [run_cons, Option.bind_eq_some_iff]

theorem run_append (s : σ) (as bs : List α) :
    run step s (as ++ bs) = (run step s as).bind fun m => run step m bs := by
  induction as generalizing s with
  | nil => rfl
  | cons a as ih =>
    cases h : step s a with
    | none => simp [run_cons, h]
    | some m => simp [run_cons, h, ih]

theorem Guarded.head {s : σ} {a : α} {as : List α} (h : Guarded step g s (a :: as)) : g s a := h.1

theorem Guarded.tail {s s' : σ} {a : α} {as : List α} (h : Guarded step g s (a :: as)) (hs : step s a = some s') :
    Guarded step g s' as := h.2 s' hs

theorem Guarded.mono {g' : σ → α → Prop} (hg : ∀ s a, g s a → g' s a) {s : σ} {as : List α}
    (h : Guarded step g s as) : Guarded step g' s as := by
  induction as generalizing s with
  | nil => trivial
  | cons a as ih => exact ⟨hg s a h.head, fun s' hs => ih (h.tail hs)⟩

/-- what is known of every action may be added to the condition -/
theorem Guarded.and {p : α → Prop} {s : σ} {as : List α} (hp : ∀ a ∈ as, p a) (h : Guarded step g s as) :
    Guarded step (fun s a => p a ∧ g s a) s as := by
  induction as generalizing s with
  | nil => trivial
  | cons a as ih =>
    exact ⟨⟨hp a List.mem_cons_self, h.head⟩, fun s' hs => ih (fun b hb => hp b (List.mem_cons_of_mem a hb)) (h.tail hs)⟩

/-- a condition that is decided step by step is decided along a run -/
instance decidableGuarded [∀ s a, Decidable (g s a)] : ∀ (s : σ) (as : List α), Decidable (Guarded step g s as)
  | _, [] => isTrue trivial
  | s, a :: as =>
    match hs : step s a with
    | none => decidable_of_iff (g s a) ⟨fun h => ⟨h, by simp [hs]⟩, fun h => h.1⟩
    | some m =>
      have := decidableGuarded m as
      decidable_of_iff (g s a ∧ Guarded step g m as)
        ⟨fun h => ⟨h.1, fun s' h' => by rw [hs] at h'; cases h'; exact h.2⟩, fun h => ⟨h.1, h.2 m hs⟩⟩

/-! ## Invariants -/

/-- what every allowed step keeps holds after every allowed run -/
theorem guarded_inv_run {I : σ → Prop} (hstep : ∀ s a s', I s → g s a → step s a = some s' → I s')
    {s s' : σ} {as : List α} (h0 : I s) (hg : Guarded step g s as) (h : run step s as = some s') : I s' := by
  induction as generalizing s with
  | nil => cases h; exact h0
  | cons a as ih =>
    obtain ⟨m, hm, hr⟩ := run_cons_some.1 h
    exact ih (hstep s a m h0 hg.head hm) (hg.tail hm) hr

theorem guarded_true (s : σ) (as : List α) : Guarded step (fun _ _ => True) s as := by
  induction as generalizing s with
  | nil => trivial
  | cons a as ih => exact ⟨trivial, fun s' _ => ih s'⟩

/-- what every step keeps holds after every run -/
theorem inv_run {I : σ → Prop} (hstep : ∀ s a s', I s → step s a = some s' → I s')
    {s s' : σ} {as : List α} (h0 : I s) (h : run step s as = some s') : I s' :=
  guarded_inv_run (g := fun _ _ => True) (fun s a s' hi _ => hstep s a s' hi) h0 (guarded_true s as) h

/-- an invariant that implies the condition: every run meets it -/
theorem inv_guarded {I : σ → Prop} {p : α → Prop} (hstep : ∀ s a s', I s → p a → step s a = some s' → I s')
    (hg : ∀ s a, I s → p a → g s a) {s : σ} {as : List α} (h0 : I s) (hp : ∀ a ∈ as, p a) : Guarded step g s as := by
  induction as generalizing s with
  | nil => trivial
  | cons a as ih =>
    have ha := hp a List.mem_cons_self
    exact ⟨hg s a h0 ha, fun s' hs => ih (hstep s a s' h0 ha hs) fun b hb => hp b (List.mem_cons_of_mem a hb)⟩

/-- when every allowed step is possible and keeps `I`, every allowed run is possible -/
theorem total_run {I : σ → Prop} (hstep : ∀ s a, I s → g s a → ∃ s', step s a = some s' ∧ I s') {s : σ} {as : List α}
    (h0 : I s) (hg : Guarded step g s as) : ∃ s', run step s as = some s' ∧ I s' := by
  induction as generalizing s with
  | nil => exact ⟨s, rfl, h0⟩
  | cons a as ih =>
    obtain ⟨m, hm, hi⟩ := hstep s a h0 hg.head
    obtain ⟨s', hs', hi'⟩ := ih hi (hg.tail hm)
    exact ⟨s', run_cons_some.2 ⟨m, hm, hs'⟩, hi'⟩

/-- when every step of a kind takes something from `m`, a run of them ends -/
theorem length_run {I : σ → Prop} {p : α → Prop} {m : σ → ℕ}
    (hstep : ∀ s a s', I s → p a → step s a = some s' → I s' ∧ m s' < m s) {s s' : σ} {as : List α} (h0 : I s)
    (hp : ∀ a ∈ as, p a) (h : run step s as = some s') : as.length + m s' ≤ m s := by
  induction as generalizing s with
  | nil => cases h; simp
  | cons a as ih =>
    obtain ⟨n, hn, hr⟩ := run_cons_some.1 h
    obtain ⟨hi, hlt⟩ := hstep s a n h0 (hp a List.mem_cons_self) hn
    have hrest := ih hi (fun b hb => hp b (List.mem_cons_of_mem a hb)) hr
    rw [List.length_cons]
    omega

/-! ## Exact conditions -/

/-- a property that is lost for good by the first step that does not meet the condition, and by no other -/
theorem iff_run {I P : σ → Prop} (hstep : ∀ s a s', I s → step s a = some s' → I s' ∧ (P s' ↔ P s ∧ g s a))
    {s s' : σ} {as : List α} (h0 : I s) (h : run step s as = some s') : P s' ↔ P s ∧ Guarded step g s as := by
  induction as generalizing s with
  | nil =>
    cases h
    exact (and_iff_left trivial).symm
  | cons a as ih =>
    obtain ⟨m, hm, hr⟩ := run_cons_some.1 h
    obtain ⟨hi, hp⟩ := hstep s a m h0 hm
    have htail : Guarded step g s (a :: as) ↔ g s a ∧ Guarded step g m as :=
      ⟨fun hg => ⟨hg.head, hg.tail hm⟩, fun hg => ⟨hg.1, fun m' hm' => by rw [hm] at hm'; cases hm'; exact hg.2⟩⟩
    rw [ih hi hr, hp, htail, and_assoc]

/-- a property at every moment of a run, which the first step that does not meet the condition ends -/
theorem always_iff_run {I P : σ → Prop} {p : α → Prop}
    (hstep : ∀ s a s', I s → P s → p a → step s a = some s' → I s' ∧ (P s' ↔ g s a)) {s s' : σ} {as : List α}
    (h0 : I s) (hP : P s) (hp : ∀ a ∈ as, p a) (h : run step s as = some s') :
    (∀ bs cs m, as = bs ++ cs → run step s bs = some m → P m) ↔ Guarded step g s as := by
  induction as generalizing s with
  | nil =>
    refine ⟨fun _ => trivial, fun _ bs cs m hsplit hm => ?_⟩
    obtain ⟨rfl, _⟩ := List.nil_eq_append_iff.1 hsplit
    cases hm
    exact hP
  | cons a as ih =>
    obtain ⟨n, hn, hr⟩ := run_cons_some.1 h
    obtain ⟨hi, hiff⟩ := hstep s a n h0 hP (hp a List.mem_cons_self) hn
    have hrest : ∀ b ∈ as, p b := fun b hb => hp b (List.mem_cons_of_mem a hb)
    constructor
    · intro hall
      have hpn : P n := hall [a] as n rfl (by rw [run_cons, hn]; rfl)
      have htail := (ih hi hpn hrest hr).1 fun bs cs m hsplit hm => hall (a :: bs) cs m (by rw [hsplit, List.cons_append])
        (run_cons_some.2 ⟨n, hn, hm⟩)
      exact ⟨hiff.1 hpn, fun n' hn' => by rw [hn] at hn'; cases hn'; exact htail⟩
    · intro hg bs cs m hsplit hm
      cases bs with
      | nil =>
        cases hm
        exact hP
      | cons b bs =>
        obtain ⟨rfl, hcut⟩ := List.cons.inj hsplit
        obtain ⟨n', hn', hm⟩ := run_cons_some.1 hm
        rw [hn] at hn'
        cases hn'
        exact (ih hi (hiff.2 hg.head) hrest hr).2 (hg.tail hn) bs cs m hcut hm

/-- `P` holds here, and a step for which `g` does not can be continued to a state without `P` -/
structure Exact (step : σ → α → Option σ) (g : σ → α → Prop) (P : σ → Prop) (s : σ) : Prop where
  safe : P s
  sharp : ∀ a s', step s a = some s' → ¬ g s a → ∃ bs t, run step s' bs = some t ∧ ¬ P t

/-- an invariant of the allowed runs that implies the property and shows where every other step can lead -/
theorem exact_run {I P : σ → Prop} (hstep : ∀ s a s', I s → g s a → step s a = some s' → I s') (hP : ∀ s, I s → P s)
    (hsharp : ∀ s a s', I s → step s a = some s' → ¬ g s a → ∃ bs t, run step s' bs = some t ∧ ¬ P t)
    {s s' : σ} {as : List α} (h0 : I s) (hg : Guarded step g s as) (h : run step s as = some s') :
    Exact step g P s' := by
  have hi : I s' := guarded_inv_run hstep h0 hg h
  exact ⟨hP s' hi, fun a t => hsharp s' a t hi⟩

/-! ## Simulation -/

/-- if every allowed step is matched by a step of the abstract machine, so is every allowed run -/
theorem sim_run {astep : τ → β → Option τ} {R : σ → τ → Prop} {f : α → β}
    (hstep : ∀ s a s' t, R s t → g s a → step s a = some s' → ∃ t', astep t (f a) = some t' ∧ R s' t')
    {s s' : σ} {t : τ} {as : List α} (h0 : R s t) (hg : Guarded step g s as) (h : run step s as = some s') :
    ∃ t', run astep t (as.map f) = some t' ∧ R s' t' := by
  induction as generalizing s t with
  | nil => cases h; exact ⟨t, rfl, h0⟩
  | cons a as ih =>
    obtain ⟨m, hm, hr⟩ := run_cons_some.1 h
    obtain ⟨u, hu, hR⟩ := hstep s a m t h0 hg.head hm
    obtain ⟨t', ht', hR'⟩ := ih hR (hg.tail hm) hr
    exact ⟨t', run_cons_some.2 ⟨u, hu, ht'⟩, hR'⟩

/-- in lockstep: related states stay related, and a step that is possible in one of them is possible in the other -/
theorem agree_run {astep : τ → α → Option τ} {R : σ → τ → Prop} {g : τ → α → Prop}
    (hstep : ∀ s t a, R s t → g t a → Option.Rel R (step s a) (astep t a)) {s : σ} {t : τ} {as : List α} (h0 : R s t)
    (hg : Guarded astep g t as) : Option.Rel R (run step s as) (run astep t as) := by
  induction as generalizing s t with
  | nil => exact .some h0
  | cons a as ih =>
    have ha := hstep s t a h0 hg.head
    rw [run_cons, run_cons]
    cases ht : astep t a with
    | none =>
      rw [ht] at ha
      generalize step s a = x at ha ⊢
      cases ha
      exact .none
    | some u =>
      rw [ht] at ha
      generalize step s a = x at ha ⊢
      cases ha with
      | some hR => exact ih hR (hg.tail ht)

/-! ## Calls and their answers -/

/-- the answers to a list of calls, and the state they leave -/
def answers (call : σ → α → β × σ) : σ → List α → List β × σ
  | s, [] => ([], s)
  | s, a :: as =>
    let r := answers call (call s a).2 as
    ((call s a).1 :: r.1, r.2)

theorem answers_sim {call : σ → α → β × σ} {acall : τ → α → β × τ} {R : σ → τ → Prop}
    (hcall : ∀ s t a, R s t → (call s a).1 = (acall t a).1 ∧ R (call s a).2 (acall t a).2) {s : σ} {t : τ}
    (h0 : R s t) (as : List α) :
    (answers call s as).1 = (answers acall t as).1 ∧ R (answers call s as).2 (answers acall t as).2 := by
  induction as generalizing s t with
  | nil => exact ⟨rfl, h0⟩
  | cons a as ih =>
    obtain ⟨hr, hR⟩ := hcall s t a h0
    obtain ⟨hrs, hRs⟩ := ih hR
    exact ⟨by simp only [answers, hr, hrs], hRs⟩

end EspHostdriver.Machine
