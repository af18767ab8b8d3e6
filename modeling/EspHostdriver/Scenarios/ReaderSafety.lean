/-
The line buffer of the reader, on any input.

The reader is driven by any bytes, and at each of them the response text that is expected may be another one. `used`
collects the indices of the buffer that it has used so far.

- `parse_line` reads nine and eight bytes back from the end of a line, whatever its length, so every line of fewer than
  eight characters makes it read in front of the buffer. `OK` is such a line.
- `accept` stores the status lines of the module without looking at the size, from a pointer that moves on with every
  line of its link, and looks for a quote and a comma as far as it takes.

- `reader_safe`: on every input, all indices are inside exactly when every byte fits.
- `status_line_fits`: in the loop of `accept` it is the length of a line, counted from the pointer, that has to fit.
- `reader_safe_fails`: the answer `OK`.
-/
import EspHostdriver.Core.Machine
import EspHostdriver.Esp01.Buffer
import EspHostdriver.Scenarios.Framing

namespace EspHostdriver.ReaderSafety

open Machine
open Framing (sampleStack sampleReader)

/-! ## Model -/

/-- the reader and the indices it has used -/
structure Traced where
  reader : Reader
  used : List ℤ

/-- a byte from the line, and the response text that is expected at that moment -/
abbrev Input := UInt8 × Option Bytes

def tracedStep (st : Stack) (t : Traced) (a : Input) : Option Traced :=
  some ⟨readByte st t.reader a.1, t.used ++ byteUses st t.reader a.1 a.2⟩

/-- the byte fits into what the reader is doing -/
def Met (t : Traced) (a : Input) : Prop := Fits t.reader a.1

instance decidableInside (xs : List ℤ) : Decidable (Inside xs) := inferInstanceAs (Decidable (∀ x ∈ xs, _))

instance decidableFound (line : Bytes) (base : ℕ) (linkId : Bytes) : Decidable (Found line base linkId) := by
  unfold Found
  infer_instance

instance decidableFits (r : Reader) (c : UInt8) : Decidable (Fits r c) := by
  unfold Fits
  cases r.mode <;> infer_instance

instance decidableMet (t : Traced) (a : Input) : Decidable (Met t a) := inferInstanceAs (Decidable (Fits t.reader a.1))

/-! ## Every input -/

variable {st : Stack}

/-- a reader between two lines -/
theorem idle_sized {r : Reader} (h : r.Idle) : r.Sized :=
  ⟨h.size, fun _ => by rw [h.i]; decide, fun b l hm => by rw [h.mode] at hm; cases hm⟩

/-- one byte: the reader stays sized, and the indices stay inside when the byte fits -/
theorem step_used (t : Traced) (a : Input) (t' : Traced) (h : t.reader.Sized) (hs : tracedStep st t a = some t') :
    t'.reader.Sized ∧ (Inside t'.used ↔ Inside t.used ∧ Met t a) := by
  cases hs
  refine ⟨readByte_sized h a.1, ?_⟩
  rw [inside_append, byteUses_inside h, Met]

/-- **The reader stays inside its buffer exactly as long as every byte fits**: every line has eight characters, and what
`accept` stores and looks for has its place. -/
theorem reader_safe (st : Stack) {r : Reader} (hr : r.Idle) {input : List Input} {t : Traced}
    (hrun : run (tracedStep st) ⟨r, []⟩ input = some t) :
    Inside t.used ↔ Guarded (tracedStep st) Met ⟨r, []⟩ input := by
  rw [iff_run (I := fun t => t.reader.Sized) (P := fun t => Inside t.used) step_used (idle_sized hr) hrun]
  exact and_iff_right inside_nil

/-- **A status line fits by its length**: behind the pointer of `accept` there is a place for each of its bytes and for the
terminator, and in a line of the own link the quote and the comma are found. -/
theorem status_line_fits (st : Stack) {r : Reader} {linkId front pre rest : Bytes} {used : List ℤ} {t : List Input}
    {newline : Input} (hsize : (front ++ (pre ++ rest)).length = 64) (ht : ∀ a ∈ t, a.1 ≠ 10) (hn : newline.1 = 10) :
    Guarded (tracedStep st) Met ⟨r.listening linkId front pre rest, used⟩ (t ++ [newline]) ↔
      front.length + (pre.length + t.length) < 64 ∧
        Found (front ++ (pre ++ t.map Prod.fst ++ 0 :: rest.drop (t.length + 1))) front.length linkId := by
  have hmet : ∀ (pre rest : Bytes) (used : List ℤ) (a : Input), Met ⟨r.listening linkId front pre rest, used⟩ a ↔
      front.length + pre.length < 64 ∧
        (a.1 = 10 → Found ((front ++ (pre ++ rest)).set (front.length + pre.length) 0) front.length linkId) :=
    fun _ _ _ _ => Iff.rfl
  simp only [List.length_append] at hsize
  induction t generalizing pre rest used with
  | nil =>
    rw [List.nil_append, Guarded, hmet]
    cases rest with
    | nil => simp only [List.length_nil] at hsize ⊢; omega
    | cons x rest => simp [hn, Guarded]
  | cons a t ih =>
    have ha : a.1 ≠ 10 := ht a List.mem_cons_self
    rw [List.cons_append, Guarded, hmet]
    cases rest with
    | nil => simp only [List.length_nil, List.length_cons] at hsize ⊢; omega
    | cons x rest =>
      have hstep : tracedStep st ⟨r.listening linkId front pre (x :: rest), used⟩ a = some ⟨r.listening linkId front
          (pre ++ [a.1]) rest, used ++ byteUses st (r.listening linkId front pre (x :: rest)) a.1 a.2⟩ := by
        rw [tracedStep, status_store ha]
      rw [List.length_cons] at hsize
      have hroom : front.length + pre.length < 64 := by omega
      have hsize' : front.length + ((pre ++ [a.1]).length + rest.length) = 64 := by
        rw [List.length_append, List.length_singleton]
        omega
      simp only [hstep, Option.some.injEq, forall_eq', hroom, ha, false_implies, and_self, true_and]
      have hlen : (pre ++ [a.1]).length + t.length = pre.length + (a :: t).length := by
        simp only [List.length_append, List.length_cons, List.length_nil]
        omega
      have htext : pre ++ [a.1] ++ t.map Prod.fst = pre ++ (a :: t).map Prod.fst := by simp
      have htail := @ih (pre ++ [a.1]) rest (used ++ byteUses st (r.listening linkId front pre (x :: rest)) a.1 a.2)
        (fun b hb => ht b (List.mem_cons_of_mem a hb)) hsize'
      rw [hlen, htext] at htail
      exact htail

/-- a text, while no particular response is expected -/
def plain (s : String) : List Input := (str s).map fun c => (c, none)

/-- a closed line of eight characters, and an incoming connection with its status -/
def fitting : List Input := plain "0,CLOSED\n1,CONNECT\n+CIPSTATUS:1,\"TCP\",\"10.0.0.7\",4711,80,1\nOK\n"

theorem reader_safe_sample : ∃ t, run (tracedStep sampleStack) ⟨sampleReader, []⟩ fitting = some t ∧
    t.reader.calls.length = 3 ∧ Inside t.used := by
  have hr : (run (tracedStep sampleStack) ⟨sampleReader, []⟩ fitting).map (fun t => (t.reader.calls.length,
      decide (Guarded (tracedStep sampleStack) Met ⟨sampleReader, []⟩ fitting))) = some (3, true) := by decide +kernel
  obtain ⟨t, ht, he⟩ := Option.map_eq_some_iff.1 hr
  obtain ⟨hlen, hg⟩ := Prod.mk.inj he
  exact ⟨t, ht, hlen, (reader_safe sampleStack ⟨rfl, rfl, by decide⟩ ht).2 (of_decide_eq_true hg)⟩

/-- the module answers `OK`: the reader looks at the index -6 -/
theorem reader_safe_fails : ∃ t, run (tracedStep sampleStack) ⟨sampleReader, []⟩ (plain "OK\n") = some t ∧
    -6 ∈ t.used ∧ ¬ Inside t.used := by
  have hr : (run (tracedStep sampleStack) ⟨sampleReader, []⟩ (plain "OK\n")).map (fun t => decide (-6 ∈ t.used)) =
      some true := by decide +kernel
  obtain ⟨t, ht, he⟩ := Option.map_eq_some_iff.1 hr
  have hmem := of_decide_eq_true he
  exact ⟨t, ht, hmem, fun h => absurd (h _ hmem).1 (by decide)⟩

end EspHostdriver.ReaderSafety
