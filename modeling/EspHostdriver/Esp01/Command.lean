/-
Lean model of the command side of the serial line (`serial_cmd_*` of `esp01/serial.c`, `send_cmd` of `esp01/esp01.c`).

A command is written in pieces: every literal character of the format is one `write`, every directive one `write` of the
whole text (none when the text is empty), and `serial_cmd_wait` writes the closing newline. `render` is the loop of
`send_cmd` over the format. Its arguments are what `va_arg` finds: a pointer (the memory it points to) or a word.

What `result` holds when a wait wakes up is asked from the oracle `ans`, so every pattern of answers is covered;
`parseResponse` is the check by which the reader decides on a line.

- `render_lit`, `render_d`, `render_a`, `render_s`: the loop on a run of literal characters and on each directive.
- `Puts`: what a format and its arguments put on the line; `puts_lit`, `puts_d`, `puts_a`, `puts_s`: piece by piece.
- `sendCmd_ok`: a command only appends to the output and uses up one answer.
-/
import EspHostdriver.Bos.Fs
import EspHostdriver.Net.Inet

namespace EspHostdriver

/-! ## Model -/

/-- `result_t` -/
inductive Res where
  | inval
  | ok
  | err
  | busy
deriving DecidableEq, Repr

def Res.val : Res → ℤ
  | .inval => -1
  | .ok => 0
  | .err => 1
  | .busy => 2

/-- the value `serial_cmd_wait` makes of it -/
def Res.ret (r : Res) : ℤ := if r = .ok then 0 else -r.val

/-- the response check of `parse_line`: what a line means while `response` is expected -/
def parseResponse (response : Option Bytes) (line : Bytes) : Res :=
  match response with
  | none => if (str "OK").isPrefixOf line then .ok else if (str "ERROR").isPrefixOf line then .err else .inval
  | some r => if r.isPrefixOf line then .ok else if (str "ERROR").isPrefixOf line then .err else .inval

/-- the line to the device: the writes so far, the expected response, and what each wait finds in `result` -/
structure Serial where
  out : List Bytes
  response : Option Bytes
  ans : ℕ → Res
  waits : ℕ

/-- a line on which nothing was written yet, to a module that answers OK to everything -/
def Serial.willing : Serial := ⟨[], none, fun _ => .ok, 0⟩

def serialCmdStart (s : Serial) (resp : Option Bytes) : Serial := { s with response := resp }

/-- the writes of `serial_cmd_send`: one, or none for a null or empty string -/
def serialCmdSend (m : Option Bytes) : List Bytes :=
  match m with
  | none => []
  | some m => if cstr m = [] then [] else [cstr m]

def serialCmdSendChar (c : UInt8) : List Bytes := [[c]]

def serialCmdWait (s : Serial) : ℤ × Serial :=
  ((s.ans s.waits).ret, { s with out := s.out ++ [[10]], waits := s.waits + 1 })

def serialCmd (s : Serial) (cmd : Bytes) (resp : Option Bytes) : ℤ × Serial :=
  let s := serialCmdStart s resp
  serialCmdWait { s with out := s.out ++ serialCmdSend (some cmd) }

/-- an argument of `send_cmd` -/
inductive Arg where
  | null
  | ptr (m : Bytes)
  | word (n : ℕ)
deriving DecidableEq, Repr

/-- one directive: its writes and the arguments left -/
def directive (c : UInt8) (args : List Arg) : Except Fault (List Bytes × List Arg) :=
  if c = 97 then
    match args with
    | .ptr m :: args => .ok (serialCmdSend (some (inetNtoa (rd32 m) 15)), args)
    | _ => .error .badArg
  else if c = 115 then
    match args with
    | .ptr m :: args => .ok (serialCmdSend (some m), args)
    | .null :: args => .ok (serialCmdSend none, args)
    | _ => .error .badArg
  else if c = 100 then
    match args with
    -- `snprintf` into an array of 16 bytes
    | .word n :: args => .ok (serialCmdSend (some ((decInt (toInt32 n)).take 15)), args)
    | _ => .error .badArg
  else .ok (serialCmdSendChar c, args)

/-- the loop of `send_cmd` over the format: the writes it makes -/
def render : Bytes → List Arg → Except Fault (List Bytes)
  | [], _ => .ok []
  | [c], _ => .ok (if c = 37 then [] else serialCmdSendChar c)
  | c :: d :: fmt, args =>
    if c = 37 then
      match directive d args with
      | .error e => .error e
      | .ok (ws, args) => (render fmt args).map (ws ++ ·)
    else (render (d :: fmt) args).map (serialCmdSendChar c ++ ·)

def sendCmd (s : Serial) (resp : Option Bytes) (fmt : Bytes) (args : List Arg) : Except Fault (ℤ × Serial) :=
  let s := serialCmdStart s resp
  (render fmt args).map fun ws => serialCmdWait { s with out := s.out ++ ws }

/-! ## Rendering -/

theorem render_char {c : UInt8} (h : c ≠ 37) (fmt : Bytes) (args : List Arg) :
    render (c :: fmt) args = (render fmt args).map (serialCmdSendChar c ++ ·) := by
  cases fmt with
  | nil => simp [render, h, Except.map]
  | cons d fmt => simp [render, h]

theorem render_lit {lit : Bytes} (h : 37 ∉ lit) (fmt : Bytes) (args : List Arg) :
    render (lit ++ fmt) args = (render fmt args).map (lit.map (fun c => [c]) ++ ·) := by
  induction lit with
  | nil => cases h : render fmt args <;> simp [h, Except.map]
  | cons c lit ih =>
    simp only [List.mem_cons, not_or] at h
    rw [List.cons_append, render_char (Ne.symm h.1), ih h.2]
    cases render fmt args <;> simp [Except.map, serialCmdSendChar]

/-- an `int` fits into 16 bytes, so `snprintf` does not cut it -/
theorem decInt_fits (n : ℕ) : (decInt (toInt32 n)).take 15 = decInt (toInt32 n) := by
  have hlo : -2 ^ 31 ≤ toInt32 n := by
    have h := Int.le_bmod (x := n) (m := 2 ^ 32) (by norm_num)
    simpa [toInt32] using h
  have hhi : toInt32 n < 2 ^ 31 := by
    have h := Int.bmod_lt (x := n) (m := 2 ^ 32) (by norm_num)
    simpa [toInt32] using h
  apply List.take_of_length_le
  unfold decInt
  split_ifs with hneg
  · have hlen : (dec (-toInt32 n).toNat).length ≤ 10 := dec_length_le (by omega) (by omega)
    rw [List.length_cons]
    omega
  · have hlen : (dec (toInt32 n).toNat).length ≤ 10 := dec_length_le (by omega) (by omega)
    omega

theorem render_d (fmt : Bytes) (n : ℕ) (args : List Arg) :
    render (37 :: 100 :: fmt) (.word n :: args) =
      (render fmt args).map (serialCmdSend (some (decInt (toInt32 n))) ++ ·) := by
  simp [render, directive, decInt_fits]

theorem render_a (fmt : Bytes) (m : Bytes) (args : List Arg) :
    render (37 :: 97 :: fmt) (.ptr m :: args) =
      (render fmt args).map (serialCmdSend (some (inetNtoa (rd32 m) 15)) ++ ·) := by
  simp [render, directive]

theorem render_s (fmt : Bytes) (m : Bytes) (args : List Arg) :
    render (37 :: 115 :: fmt) (.ptr m :: args) = (render fmt args).map (serialCmdSend (some m) ++ ·) := by
  simp [render, directive]

/-- what `serial_cmd_send` puts on the line is the whole string -/
theorem send_flatten (m : Bytes) : (serialCmdSend (some m)).flatten = cstr m := by
  unfold serialCmdSend
  dsimp only
  split_ifs with h <;> simp [h]

/-- a text that holds no terminator is its own string -/
theorem serialCmdSend_flatten {t : Bytes} (h : 0 ∉ t) : (serialCmdSend (some t)).flatten = t := by
  rw [send_flatten, cstr_self h]

theorem zero_notMem_decInt (v : ℤ) : 0 ∉ decInt v := by
  have h := fun n => notMem_dec (c := 0) (by decide) n
  unfold decInt
  split_ifs <;> simp [h]

theorem zero_notMem_ntoa (a : UInt32) (len : ℕ) : 0 ∉ inetNtoa a len := by
  intro h
  exact notMem_dotted (by decide) (by decide) a (List.mem_of_mem_take h)

theorem decInt_of_lt {n : ℕ} (h : n < 2 ^ 31) : decInt (toInt32 n) = dec n := by
  rw [toInt32_of_lt h, decInt, if_neg (by omega), Int.toNat_natCast]

/-! ## What is written -/

/-- the format and its arguments put this text on the line -/
def Puts (c : Bytes × List Arg) (t : Bytes) : Prop := ∃ ws, render c.1 c.2 = .ok ws ∧ ws.flatten = t

theorem puts_nil (args : List Arg) : Puts ([], args) [] := ⟨[], rfl, rfl⟩

theorem flatten_chars (lit : Bytes) : (lit.map fun c => [c]).flatten = lit := by
  induction lit with
  | nil => rfl
  | cons c lit ih => simp [ih]

theorem puts_lit {lit fmt t : Bytes} {args : List Arg} (hl : 37 ∉ lit) (h : Puts (fmt, args) t) :
    Puts (lit ++ fmt, args) (lit ++ t) := by
  obtain ⟨ws, hr, rfl⟩ := h
  exact ⟨_, by rw [render_lit hl, hr, Except.map], by rw [List.flatten_append, flatten_chars]⟩

theorem puts_last (lit : Bytes) (hl : 37 ∉ lit) (args : List Arg) : Puts (lit, args) lit := by
  have h := puts_lit hl (puts_nil args)
  rwa [List.append_nil] at h

theorem puts_s {fmt t : Bytes} {args : List Arg} (m : Bytes) (h : Puts (fmt, args) t) :
    Puts (37 :: 115 :: fmt, .ptr m :: args) (cstr m ++ t) := by
  obtain ⟨ws, hr, rfl⟩ := h
  exact ⟨_, by rw [render_s, hr, Except.map], by rw [List.flatten_append, send_flatten]⟩

theorem puts_d {fmt t : Bytes} {args : List Arg} (n : ℕ) (h : Puts (fmt, args) t) :
    Puts (37 :: 100 :: fmt, .word n :: args) (decInt (toInt32 n) ++ t) := by
  obtain ⟨ws, hr, rfl⟩ := h
  refine ⟨_, by rw [render_d, hr, Except.map], ?_⟩
  rw [List.flatten_append, serialCmdSend_flatten (zero_notMem_decInt _)]

/-- what a format puts on the line is all that it writes -/
theorem Puts.flatten {c : Bytes × List Arg} {t : Bytes} {ws : List Bytes} (h : Puts c t)
    (hr : render c.1 c.2 = .ok ws) : ws.flatten = t := by
  obtain ⟨vs, hv, rfl⟩ := h
  rw [hr] at hv
  rw [Except.ok.inj hv]

/-- 14 characters of an address -/
theorem puts_a {fmt t : Bytes} {args : List Arg} (m : Bytes) (h : Puts (fmt, args) t) :
    Puts (37 :: 97 :: fmt, .ptr m :: args) ((dotted (rd32 m)).take 14 ++ t) := by
  obtain ⟨ws, hr, rfl⟩ := h
  refine ⟨_, by rw [render_a, hr, Except.map], ?_⟩
  rw [List.flatten_append, serialCmdSend_flatten (zero_notMem_ntoa _ 15)]
  rfl

/-! ## Commands -/

/-- a command only appends to the output and uses up one answer -/
theorem sendCmd_ok {s s' : Serial} {resp : Option Bytes} {fmt : Bytes} {args : List Arg} {r : ℤ}
    (h : sendCmd s resp fmt args = .ok (r, s')) :
    ∃ ws, render fmt args = .ok ws ∧ r = (s.ans s.waits).ret ∧
      s' = { s with out := s.out ++ ws ++ [[10]], response := resp, waits := s.waits + 1 } := by
  unfold sendCmd at h
  cases hr : render fmt args with
  | error e => simp [hr, Except.map] at h
  | ok ws =>
    simp only [hr, Except.map, serialCmdStart, serialCmdWait, Except.ok.injEq, Prod.mk.injEq] at h
    exact ⟨ws, rfl, h.1.symm, h.2.symm⟩

/-- a format whose directives match its arguments is rendered -/
theorem sendCmd_of_render {s : Serial} {resp : Option Bytes} {fmt : Bytes} {args : List Arg} {ws : List Bytes}
    (h : render fmt args = .ok ws) :
    sendCmd s resp fmt args = .ok ((s.ans s.waits).ret,
      { s with out := s.out ++ ws ++ [[10]], response := resp, waits := s.waits + 1 }) := by
  simp [sendCmd, h, Except.map, serialCmdStart, serialCmdWait]

theorem Res.ret_eq_zero {r : Res} : r.ret = 0 ↔ r = .ok := by cases r <;> decide

end EspHostdriver
