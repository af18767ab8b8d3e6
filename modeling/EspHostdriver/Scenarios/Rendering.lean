/-
What a command looks like on the line.

`send_cmd` prints an address through `inet_ntoa(.., s, 15)`, which leaves room for 14 characters, so the addresses whose
text has 15 lose the last digit. Everything else is printed whole: a string is not copied, and an `int` has 11
characters at most, which fit into the scratch buffer of 16 bytes.

- `Stands fmt args as t`: with these arguments the format stands for the text `t`, in which the addresses `as` occur.
- `command_rendered`: the command is the text and a newline exactly when no address has 15 characters.
- `command_rendered_fails`: the address 255.255.255.255.
-/
import EspHostdriver.Esp01.Command

namespace EspHostdriver.Rendering

/-- what a format and its arguments stand for -/
inductive Stands : Bytes → List Arg → List UInt32 → Bytes → Prop
  | nil {args} : Stands [] args [] []
  | lit {c fmt args as t} : c ≠ 37 → Stands fmt args as t → Stands (c :: fmt) args as (c :: t)
  | s {m fmt args as t} : Stands fmt args as t → Stands (37 :: 115 :: fmt) (.ptr m :: args) as (cstr m ++ t)
  | d {n fmt args as t} : Stands fmt args as t →
      Stands (37 :: 100 :: fmt) (.word n :: args) as (decInt (toInt32 n) ++ t)
  | a {m fmt args as t} : Stands fmt args as t →
      Stands (37 :: 97 :: fmt) (.ptr m :: args) (rd32 m :: as) (dotted (rd32 m) ++ t)
  | other {c fmt args as t} : c ≠ 115 → c ≠ 100 → c ≠ 97 → Stands fmt args as t →
      Stands (37 :: c :: fmt) args as (c :: t)
  | last {args} : Stands [37] args [] []

/-! ## Rendering -/

/-- the writes `ws` come to the text `t` exactly if `P`, and are never longer -/
structure Comes (ws : List Bytes) (t : Bytes) (P : Prop) : Prop where
  le : ws.flatten.length ≤ t.length
  iff : ws.flatten = t ↔ P

theorem Comes.whole {ws w : List Bytes} {t u : Bytes} {P : Prop} (h : Comes ws t P) (hw : w.flatten = u) :
    Comes (w ++ ws) (u ++ t) P := by
  constructor
  · rw [List.flatten_append, hw, List.length_append, List.length_append]
    exact Nat.add_le_add_left h.le _
  · rw [List.flatten_append, hw, List.append_cancel_left_eq]
    exact h.iff

/-- a text that is cut after `n` bytes is whole exactly if it is no longer, whatever comes after it -/
theorem Comes.cut {ws w : List Bytes} {t u : Bytes} {P : Prop} {n : ℕ} (h : Comes ws t P) (hw : w.flatten = u.take n) :
    Comes (w ++ ws) (u ++ t) (u.length ≤ n ∧ P) := by
  have hle := h.le
  by_cases hn : u.length ≤ n
  · rw [List.take_of_length_le hn] at hw
    have hwhole := h.whole hw
    exact ⟨hwhole.le, hwhole.iff.trans (and_iff_right hn).symm⟩
  · have hshort : (w ++ ws).flatten.length < (u ++ t).length := by
      rw [List.flatten_append, hw, List.length_append, List.length_append, List.length_take]
      omega
    refine ⟨hshort.le, iff_of_false ?_ fun hp => hn hp.1⟩
    intro he
    rw [he] at hshort
    exact lt_irrefl _ hshort

theorem render_stands {fmt : Bytes} {args : List Arg} {as : List UInt32} {t : Bytes} (h : Stands fmt args as t) :
    ∃ ws, render fmt args = .ok ws ∧ Comes ws t (∀ a ∈ as, (dotted a).length ≤ 14) := by
  induction h with
  | nil => exact ⟨[], rfl, ⟨le_rfl, by simp⟩⟩
  | @lit c fmt args as t hc _ ih =>
    obtain ⟨ws, hr, hcomes⟩ := ih
    refine ⟨serialCmdSendChar c ++ ws, ?_, hcomes.whole (u := [c]) rfl⟩
    rw [render_char hc, hr, Except.map]
  | @s m fmt args as t _ ih =>
    obtain ⟨ws, hr, hcomes⟩ := ih
    refine ⟨serialCmdSend (some m) ++ ws, ?_, hcomes.whole (send_flatten m)⟩
    rw [render_s, hr, Except.map]
  | @d n fmt args as t _ ih =>
    obtain ⟨ws, hr, hcomes⟩ := ih
    refine ⟨serialCmdSend (some (decInt (toInt32 n))) ++ ws, ?_,
      hcomes.whole (serialCmdSend_flatten (zero_notMem_decInt _))⟩
    rw [render_d, hr, Except.map]
  | @a m fmt args as t _ ih =>
    obtain ⟨ws, hr, hcomes⟩ := ih
    refine ⟨serialCmdSend (some (inetNtoa (rd32 m) 15)) ++ ws, ?_, ?_⟩
    · rw [render_a, hr, Except.map]
    · rw [List.forall_mem_cons]
      exact hcomes.cut (serialCmdSend_flatten (zero_notMem_ntoa _ 15))
  | @other c fmt args as t hs hd ha _ ih =>
    obtain ⟨ws, hr, hcomes⟩ := ih
    refine ⟨serialCmdSendChar c ++ ws, ?_, hcomes.whole (u := [c]) rfl⟩
    simp [render, directive, ha, hs, hd, hr, Except.map]
  | last => exact ⟨[], rfl, ⟨le_rfl, by simp⟩⟩

/-- the command is on the line: the text and a newline behind what was written before, and `inet_addr` reads the
addresses back from their text -/
def Rendered (s : Serial) (resp : Option Bytes) (fmt : Bytes) (args : List Arg) (as : List UInt32) (t : Bytes) : Prop :=
  ∃ r s', sendCmd s resp fmt args = .ok (r, s') ∧ s'.out.flatten = s.out.flatten ++ t ++ [10] ∧
    ∀ a ∈ as, inetAddr (dotted a) = a

/-- **A command is rendered as its format says exactly** when no address in it has a text of 15 characters. -/
theorem command_rendered (s : Serial) (resp : Option Bytes) {fmt : Bytes} {args : List Arg} {as : List UInt32} {t : Bytes}
    (h : Stands fmt args as t) : Rendered s resp fmt args as t ↔ ∀ a ∈ as, (dotted a).length ≠ 15 := by
  obtain ⟨ws, hr, hcomes⟩ := render_stands h
  have hcall : sendCmd s resp fmt args = _ := sendCmd_of_render hr
  have hshort : (∀ a ∈ as, (dotted a).length ≠ 15) ↔ ∀ a ∈ as, (dotted a).length ≤ 14 := by
    refine forall₂_congr fun a _ => ?_
    have hle := dotted_length_le a
    omega
  rw [hshort, ← hcomes.iff]
  constructor
  · intro h
    obtain ⟨r, s', hs, hout, _⟩ := h
    rw [hcall, ok_pair] at hs
    obtain ⟨_, rfl⟩ := hs
    simpa using hout
  · intro h
    exact ⟨_, _, hcall, by simp [h], fun a _ => inetAddr_quad a⟩

theorem stands_a {a : UInt32} {fmt t : Bytes} {args : List Arg} {as : List UInt32} (h : Stands fmt args as t) :
    Stands (37 :: 97 :: fmt) (.ptr (le32 a) :: args) (a :: as) (dotted a ++ t) := by
  have hrd : rd32 (le32 a) = a := by simpa using rd32_le32 a []
  have h1 := Stands.a (m := le32 a) h
  rwa [hrd] at h1

theorem stands_lit {lit fmt t : Bytes} {args : List Arg} {as : List UInt32} (hl : 37 ∉ lit) (h : Stands fmt args as t) :
    Stands (lit ++ fmt) args as (lit ++ t) := by
  induction lit with
  | nil => exact h
  | cons c lit ih =>
    rw [List.mem_cons, not_or] at hl
    exact Stands.lit (Ne.symm hl.1) (ih hl.2)

/-- the command that opens a connection -/
theorem stands_start : Stands (str "AT+CIPSTART=%d,\"%s\",\"%a\",%d")
    [.word 1, .ptr (str "TCP"), .ptr (le32 0xc0a80001), .word 80] [0xc0a80001]
    (str "AT+CIPSTART=1,\"TCP\",\"192.168.0.1\",80") := by
  have h : Stands (str "AT+CIPSTART=" ++ 37 :: 100 :: (str ",\"" ++ 37 :: 115 :: (str "\",\"" ++ 37 :: 97 ::
      (str "\"," ++ 37 :: 100 :: [])))) [.word 1, .ptr (str "TCP"), .ptr (le32 0xc0a80001), .word 80] [0xc0a80001]
      (str "AT+CIPSTART=" ++ (decInt (toInt32 (1 : ℕ)) ++ (str ",\"" ++ (cstr (str "TCP") ++ (str "\",\"" ++
        (dotted 0xc0a80001 ++ (str "\"," ++ (decInt (toInt32 (80 : ℕ)) ++ [])))))))) := by
    apply stands_lit (by decide)
    apply Stands.d
    apply stands_lit (by decide)
    apply Stands.s
    apply stands_lit (by decide)
    apply stands_a
    apply stands_lit (by decide)
    apply Stands.d
    exact Stands.nil
  have htext : str "AT+CIPSTART=1,\"TCP\",\"192.168.0.1\",80" = str "AT+CIPSTART=" ++ (decInt (toInt32 (1 : ℕ)) ++
      (str ",\"" ++ (cstr (str "TCP") ++ (str "\",\"" ++ (dotted 0xc0a80001 ++ (str "\"," ++
        (decInt (toInt32 (80 : ℕ)) ++ []))))))) := by decide +kernel
  rw [htext]
  exact h

theorem command_rendered_sample : Rendered .willing none (str "AT+CIPSTART=%d,\"%s\",\"%a\",%d")
    [.word 1, .ptr (str "TCP"), .ptr (le32 0xc0a80001), .word 80] [0xc0a80001]
    (str "AT+CIPSTART=1,\"TCP\",\"192.168.0.1\",80") := by
  apply (command_rendered .willing none stands_start).2
  intro a ha
  rw [List.mem_singleton.1 ha]
  decide

/-- the last digit of 255.255.255.255 is lost -/
theorem command_rendered_fails : Stands (str "%a") [.ptr (le32 0xffffffff)] [0xffffffff] (str "255.255.255.255") ∧
    (sendCmd .willing none (str "%a") [.ptr (le32 0xffffffff)]).toOption.map (fun p => p.2.out.flatten) =
      some (str "255.255.255.25\n") ∧
    ¬ Rendered .willing none (str "%a") [.ptr (le32 0xffffffff)] [0xffffffff] (str "255.255.255.255") := by
  have hstands : Stands (str "%a") [.ptr (le32 0xffffffff)] [0xffffffff] (dotted 0xffffffff ++ []) := stands_a Stands.nil
  rw [show dotted 0xffffffff ++ [] = str "255.255.255.255" by decide] at hstands
  have hout : (sendCmd .willing none (str "%a") [.ptr (le32 0xffffffff)]).toOption.map (fun p => p.2.out.flatten) =
      some (str "255.255.255.25\n") := by decide +kernel
  refine ⟨hstands, hout, fun h => ?_⟩
  obtain ⟨r, s', hs, hline, _⟩ := h
  rw [hs] at hout
  have hsame : s'.out.flatten = str "255.255.255.25\n" := Option.some.inj hout
  rw [hsame] at hline
  exact absurd hline (by decide)

end EspHostdriver.Rendering
