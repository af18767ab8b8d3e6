/-
A machine behind a transducer.

A transducer reads raw inputs one by one and now and then puts out inputs for a machine. The machine also gets direct
inputs, from others, at any moment between two raw ones. `Transducer.step` is the two together.

- `Interleaved xs ys zs`: `zs` is made of `xs` and `ys`, each in its order.
- `trace`: the inputs the machine sees. `run_eq`: the two together run as the machine does on these.
- `guarded_iff`: a condition on what the machine sees, as one on the raw and direct inputs.
- `results_iff`: if no raw input puts out more than one, then what can become of the machine, over all interleavings of
  raw and direct inputs, is what can become of it over all interleavings of the direct inputs with what the transducer
  puts out on the raw ones.
-/
import EspHostdriver.Core.Machine

namespace EspHostdriver.Machine

variable {σ ρ α β γ : Type*}

/-! ## Interleavings -/

inductive Interleaved : List α → List α → List α → Prop
  | nil : Interleaved [] [] []
  | left {x xs ys zs} : Interleaved xs ys zs → Interleaved (x :: xs) ys (x :: zs)
  | right {y xs ys zs} : Interleaved xs ys zs → Interleaved xs (y :: ys) (y :: zs)

namespace Interleaved

/-- the elements of one of the lists that matter are those of the whole that matter -/
theorem flatMap_right {δ : Type*} {g : α → List δ} {xs ys zs : List α} (h : Interleaved xs ys zs)
    (hg : ∀ x ∈ xs, g x = []) : zs.flatMap g = ys.flatMap g := by
  induction h with
  | nil => rfl
  | left h ih => rw [List.flatMap_cons, hg _ List.mem_cons_self, ih fun x hx => hg x (List.mem_cons_of_mem _ hx)]; rfl
  | right h ih => rw [List.flatMap_cons, List.flatMap_cons, ih hg]

theorem mem {xs ys zs : List α} (h : Interleaved xs ys zs) {z : α} (hz : z ∈ zs) : z ∈ xs ∨ z ∈ ys := by
  induction h with
  | nil => exact Or.inl hz
  | left h ih =>
    rcases List.mem_cons.1 hz with rfl | hz
    · exact Or.inl List.mem_cons_self
    · exact (ih hz).imp (List.mem_cons_of_mem _) id
  | right h ih =>
    rcases List.mem_cons.1 hz with rfl | hz
    · exact Or.inr List.mem_cons_self
    · exact (ih hz).imp id (List.mem_cons_of_mem _)

theorem left_only : ∀ xs : List α, Interleaved xs [] xs
  | [] => .nil
  | _ :: xs => .left (left_only xs)

theorem eq_left {xs zs : List α} (h : Interleaved xs [] zs) : zs = xs := by
  induction xs generalizing zs with
  | nil => cases h; rfl
  | cons x xs ih =>
    cases h with
    | left h => rw [ih h]

/-- more of the second list in front -/
theorem right_append {xs ys zs : List α} (h : Interleaved xs ys zs) : ∀ us, Interleaved xs (us ++ ys) (us ++ zs)
  | [] => h
  | _ :: us => .right (h.right_append us)

end Interleaved

/-! ## Transducers -/

/-- a state for each raw input, and what it puts out -/
structure Transducer (ρ β γ : Type*) where
  next : ρ → β → ρ
  out : ρ → β → List γ

inductive Transducer.Input (β γ : Type*) where
  | raw (b : β)
  | direct (c : γ)

namespace Transducer

variable (T : Transducer ρ β γ)

/-- what they put out -/
def outputs : ρ → List β → List γ
  | _, [] => []
  | r, b :: bs => T.out r b ++ outputs (T.next r b) bs

/-- the machine and the transducer: a raw input first makes the transducer put out, and the machine takes it -/
def step (f : σ → γ → Option σ) (t : σ × ρ) : Input β γ → Option (σ × ρ)
  | .raw b => (run f t.1 (T.out t.2 b)).map fun s => (s, T.next t.2 b)
  | .direct c => (f t.1 c).map fun s => (s, t.2)

/-- what the machine sees -/
def trace : ρ → List (Input β γ) → List γ
  | _, [] => []
  | r, .raw b :: is => T.out r b ++ trace (T.next r b) is
  | r, .direct c :: is => c :: trace r is

/-- the state of the transducer after some inputs -/
def left : ρ → List (Input β γ) → ρ
  | r, [] => r
  | r, .raw b :: is => left (T.next r b) is
  | r, .direct _ :: is => left r is

variable {T} {f : σ → γ → Option σ}

theorem run_eq (s : σ) (r : ρ) (is : List (Input β γ)) :
    run (T.step f) (s, r) is = (run f s (T.trace r is)).map fun s' => (s', T.left r is) := by
  induction is generalizing s r with
  | nil => rfl
  | cons i is ih =>
    cases i with
    | raw b =>
      rw [run_cons, trace, left, run_append, step]
      cases run f s (T.out r b) with
      | none => rfl
      | some s1 => exact ih s1 (T.next r b)
    | direct c =>
      rw [run_cons, trace, left, run_cons, step]
      cases f s c with
      | none => rfl
      | some s1 => exact ih s1 r

/-- a condition on what the machine sees -/
def Through (T : Transducer ρ β γ) (g : σ → γ → Prop) (t : σ × ρ) : Input β γ → Prop
  | .raw b => ∀ c ∈ T.out t.2 b, g t.1 c
  | .direct c => g t.1 c

instance decidableThrough {g : σ → γ → Prop} [∀ s c, Decidable (g s c)] (t : σ × ρ) :
    ∀ i, Decidable (T.Through g t i)
  | .raw b => inferInstanceAs (Decidable (∀ c ∈ T.out t.2 b, g t.1 c))
  | .direct c => inferInstanceAs (Decidable (g t.1 c))

theorem guarded_iff (hone : ∀ r b, (T.out r b).length ≤ 1) {g : σ → γ → Prop} (s : σ) (r : ρ)
    (is : List (Input β γ)) : Guarded (T.step f) (T.Through g) (s, r) is ↔ Guarded f g s (T.trace r is) := by
  induction is generalizing s r with
  | nil => exact Iff.rfl
  | cons i is ih =>
    cases i with
    | direct c =>
      refine and_congr_right fun _ => ?_
      simp only [step, Option.map_eq_some_iff]
      constructor
      · exact fun h s' hs => (ih s' r).1 (h (s', r) ⟨s', hs, rfl⟩)
      · rintro h _ ⟨s', hs, rfl⟩
        exact (ih s' r).2 (h s' hs)
    | raw b =>
      have hlen := hone r b
      rw [trace]
      match hout : T.out r b, hlen with
      | [], _ =>
        have hstep : T.step f (s, r) (.raw b) = some (s, T.next r b) := by simp [step, hout]
        rw [List.nil_append, ← ih]
        constructor
        · exact fun h => h.tail hstep
        · refine fun h => ⟨fun c hc => ?_, fun p hp => ?_⟩
          · rw [hout] at hc
            cases hc
          · rw [hstep] at hp
            cases hp
            exact h
      | [c], _ =>
        have hthrough : T.Through g (s, r) (.raw b) ↔ g s c := by simp [Through, hout]
        refine and_congr hthrough ?_
        have hstep : T.step f (s, r) (.raw b) = (f s c).map fun s' => (s', T.next r b) := by
          rw [step, hout, run_cons]
          cases f s c <;> rfl
        simp only [hstep, Option.map_eq_some_iff]
        constructor
        · exact fun h s' hs => (ih s' _).1 (h _ ⟨s', hs, rfl⟩)
        · rintro h _ ⟨s', hs, rfl⟩
          exact (ih s' _).2 (h s' hs)

/-- an interleaving of raw and direct inputs is seen as one of the outputs and the direct inputs -/
theorem trace_interleaved {cs : List γ} {bs : List β} {is : List (Input β γ)} {r : ρ}
    (h : Interleaved (cs.map .direct) (bs.map .raw) is) : Interleaved cs (T.outputs r bs) (T.trace r is) := by
  generalize hx : cs.map Input.direct = xs at h
  generalize hy : bs.map Input.raw = ys at h
  induction h generalizing cs bs r with
  | nil =>
    rw [List.map_eq_nil_iff.1 hx, List.map_eq_nil_iff.1 hy]
    exact .nil
  | left h ih =>
    obtain ⟨c, cs, rfl, rfl, rfl⟩ := List.map_eq_cons_iff.1 hx
    exact .left (ih rfl hy)
  | right h ih =>
    obtain ⟨b, bs, rfl, rfl, rfl⟩ := List.map_eq_cons_iff.1 hy
    exact (ih hx rfl).right_append (T.out r b)

/-- and every such one is seen, since the direct inputs may come between any two raw ones -/
theorem interleaved_trace (hone : ∀ r b, (T.out r b).length ≤ 1) {cs gs : List γ} {bs : List β} {r : ρ}
    (h : Interleaved cs (T.outputs r bs) gs) :
    ∃ is, Interleaved (cs.map .direct) (bs.map .raw) is ∧ T.trace r is = gs := by
  induction bs generalizing cs gs r with
  | nil =>
    obtain rfl := h.eq_left
    refine ⟨gs.map .direct, .left_only _, ?_⟩
    clear h
    induction gs with
    | nil => rfl
    | cons g gs ih => rw [List.map_cons, trace, ih]
  | cons b bs ih =>
    cases hout : T.out r b with
    | nil =>
      rw [outputs, hout] at h
      obtain ⟨is, hi, ht⟩ := ih h
      exact ⟨.raw b :: is, .right hi, by rw [trace, hout, ht]; rfl⟩
    | cons g rest =>
      obtain rfl : rest = [] := by
        have hlen := hone r b
        rw [hout, List.length_cons] at hlen
        exact List.length_eq_zero_iff.1 (by omega)
      rw [outputs, hout, List.cons_append, List.nil_append] at h
      -- the direct inputs that come before the output
      generalize hg : g :: T.outputs (T.next r b) bs = ys at h
      induction h with
      | nil => cases hg
      | left h ihl =>
        obtain ⟨is, hi, ht⟩ := ihl hg
        exact ⟨.direct _ :: is, .left hi, by rw [trace, ht]⟩
      | right h _ =>
        cases hg
        obtain ⟨is, hi, ht⟩ := ih h
        exact ⟨.raw b :: is, .right hi, by rw [trace, hout, ht]; rfl⟩

/-- **What can become of the machine behind the transducer is what can become of it on the outputs.** -/
theorem results_iff (hone : ∀ r b, (T.out r b).length ≤ 1) (s : σ) (r : ρ) (bs : List β) (cs : List γ) (x : Option σ) :
    (∃ is, Interleaved (cs.map .direct) (bs.map .raw) is ∧ (run (T.step f) (s, r) is).map Prod.fst = x) ↔
      ∃ gs, Interleaved cs (T.outputs r bs) gs ∧ run f s gs = x := by
  have hfst : ∀ is, (run (T.step f) (s, r) is).map Prod.fst = run f s (T.trace r is) := by
    intro is
    rw [run_eq, Option.map_map]
    exact Option.map_id'
  constructor
  · rintro ⟨is, hi, rfl⟩
    exact ⟨T.trace r is, trace_interleaved hi, (hfst is).symm⟩
  · rintro ⟨gs, hg, rfl⟩
    obtain ⟨is, hi, ht⟩ := interleaved_trace hone hg
    exact ⟨is, hi, (hfst is).trans (by rw [ht])⟩

end Transducer

end EspHostdriver.Machine
