/-
What `bos_send` puts on the line and what it returns.

Three lengths have to agree: the one the command announces (`%d` reads an `int`), the one written (`serial_cmd_send`
writes a string, so it stops at the first 0 byte and goes on past the end of the data until it finds one), and the one
returned (through the `int` of `bos_sendto`). `mem` is the data followed by the memory behind it.

- `cipsend_puts`: the bytes of the command that announces the data.
- `send_exact_iff`: a send that does not report an error is exact just when the data has no 0 byte, a 0 byte follows it
  in memory, and it is shorter than 2^31 bytes; besides that only a wait that woke up for nothing goes wrong.
- `send_exact_fails`: data with a 0 byte in it is cut off.
-/
import EspHostdriver.Net.Calls

namespace EspHostdriver.SendExact

/-! ## Model -/

/-- the command line that announces the length `num` for a socket on link `l` -/
def cipsendText (k : Socket) (l : Fin 5) (num : Bytes) : Bytes :=
  str "AT+CIPSEND=" ++ dec l ++ str "," ++ num ++
  match k.type with
  | .stream => []
  | .dgram => str ",\"" ++ inetNtoa k.addr.data.addr 15 ++ str "\"," ++ dec k.addr.data.port.toNat

/-- a send of `buf` that returns a non-negative value returns its length, announced it, and wrote it -/
def Exact (w : Host) (fdId : ℤ) (buf past : Bytes) : Prop :=
  ∀ r w' s k, bosSend w fdId (buf ++ past) buf.length = .ok (r, w') → 0 ≤ r → w.fdSock fdId = some (s, k) →
    r = buf.length ∧ ∃ l, w.esp.links l = some s ∧
      w'.itf.out.flatten = w.itf.out.flatten ++ cipsendText k l (dec buf.length) ++ [10] ++ buf ++ [10]

/-- the module refuses the announcement; or it accepts it, and then refuses the data, or the length turns negative as an
`int`, or it stays what it is and the data ends where its string ends -/
def sendFits (w : Host) (buf past : Bytes) : Prop :=
  w.itf.ans w.itf.waits = .err ∨ w.itf.ans w.itf.waits = .busy ∨
  (w.itf.ans w.itf.waits = .ok ∧
    (w.itf.ans (w.itf.waits + 1) ≠ .ok ∨ 2 ^ 31 ≤ buf.length % 2 ^ 32 ∨
      buf.length < 2 ^ 31 ∧ 0 ∉ buf ∧ past.headD 0 = 0))

instance decidableSendFits (w : Host) (buf past : Bytes) : Decidable (sendFits w buf past) :=
  inferInstanceAs (Decidable (_ ∨ _ ∨ _ ∧ _))

/-! ## The announcement -/

/-- the bytes of the command; the length goes through `%d` -/
theorem cipsend_puts (k : Socket) (l : Fin 5) (n : ℕ) :
    Puts (cipsend k l n) (cipsendText k l (decInt (toInt32 n))) := by
  have hl : decInt (toInt32 ((l : ℕ) : ℤ)) = dec l := decInt_of_lt (by omega)
  have hp : decInt (toInt32 (k.addr.data.port.toNat : ℤ)) = dec k.addr.data.port.toNat :=
    decInt_of_lt (by have := k.addr.data.port.toNat_lt; omega)
  unfold cipsend cipsendText
  cases k.type with
  | stream =>
    have h : Puts (str "AT+CIPSEND=" ++ 37 :: 100 :: (str "," ++ 37 :: 100 :: []), [.word l, .word n])
        (str "AT+CIPSEND=" ++ (decInt (toInt32 l) ++ (str "," ++ (decInt (toInt32 n) ++ [])))) := by
      apply puts_lit (by decide)
      apply puts_d
      apply puts_lit (by decide)
      apply puts_d
      exact puts_nil []
    rw [hl] at h
    simp only [List.append_assoc]
    exact h
  | dgram =>
    have hrd : rd32 (remoteAddr k.addr) = k.addr.data.addr := by rw [remoteAddr, List.append_assoc, rd32_le32]
    have h : Puts (str "AT+CIPSEND=" ++ 37 :: 100 :: (str "," ++ 37 :: 100 :: (str ",\"" ++ 37 :: 97 ::
          (str "\"," ++ 37 :: 100 :: []))),
        [.word l, .word n, .ptr (remoteAddr k.addr), .word k.addr.data.port.toNat])
        (str "AT+CIPSEND=" ++ (decInt (toInt32 l) ++ (str "," ++ (decInt (toInt32 n) ++ (str ",\"" ++
          ((dotted (rd32 (remoteAddr k.addr))).take 14 ++ (str "\"," ++
            (decInt (toInt32 k.addr.data.port.toNat) ++ [])))))))) := by
      apply puts_lit (by decide)
      apply puts_d
      apply puts_lit (by decide)
      apply puts_d
      apply puts_lit (by decide)
      apply puts_a
      apply puts_lit (by decide)
      apply puts_d
      exact puts_nil []
    rw [hl, hp, hrd, List.append_nil] at h
    simp only [List.append_assoc]
    exact h

/-! ## The returned value -/

theorem toInt32_eq_iff (n : ℕ) : toInt32 n = n ↔ n < 2 ^ 31 := by
  simp only [toInt32, Int.bmod_def]
  omega

/-! ## Exactness -/

/-- the ways out of a send on a link: refused announcement, refused data, or both accepted -/
theorem bosSend_cases {w : Host} {fdId : ℤ} {s : Addr} {k : Socket} (h : w.Inv) (hs : w.fdSock fdId = some (s, k))
    (hd : k.dev ≠ none) (hl : ∃ l, w.esp.links l = some s) (mem : Bytes) {n : ℕ} (hn : n ≠ 0) :
    ∃ l ws, w.esp.links l = some s ∧ render (cipsend k l n).1 (cipsend k l n).2 = .ok ws ∧
      bosSend w fdId mem n = .ok
        (if w.itf.ans w.itf.waits = .ok then
          (if w.itf.ans (w.itf.waits + 1) = .ok then toInt32 n else -1,
            { w with itf := (w.itf.sent ws).sentPayload mem })
        else ((w.itf.ans w.itf.waits).ret, { w with itf := w.itf.sent ws })) := by
  have hk := sock_of_fdSock hs
  obtain ⟨d, hd'⟩ := Option.ne_none_iff_exists'.1 hd
  obtain ⟨v, hv, _⟩ := h.dev_ok hk hd'
  rcases espSend_cases hk hv mem hn with ⟨hno, _⟩ | ⟨l, ws, hl', hws, he⟩
  · obtain ⟨l, hl⟩ := hl
    exact absurd hl (getLinkId_none.1 hno l)
  · refine ⟨l, ws, getLinkId_some hl', hws, ?_⟩
    rw [bosSend_eq h hs hd, he]
    cases h1 : w.itf.ans w.itf.waits <;> cases h2 : w.itf.ans (w.itf.waits + 1) <;>
      simp [Except.map, toInt32_toInt64, Res.ret, Res.val] <;> rfl

/-- a call has one result, so exactness is a property of it -/
theorem exact_of_result {w w0 : Host} {fdId r0 : ℤ} {s : Addr} {k : Socket} {buf past : Bytes}
    (hs : w.fdSock fdId = some (s, k)) (he : bosSend w fdId (buf ++ past) buf.length = .ok (r0, w0)) :
    Exact w fdId buf past ↔ (0 ≤ r0 → r0 = buf.length ∧ ∃ l, w.esp.links l = some s ∧
      w0.itf.out.flatten = w.itf.out.flatten ++ cipsendText k l (dec buf.length) ++ [10] ++ buf ++ [10]) := by
  constructor
  · intro hx h0
    exact hx r0 w0 s k he h0 hs
  · intro hx r w' s' k' hr h0 hs'
    obtain ⟨rfl, rfl⟩ := ok_pair.1 (he.symm.trans hr)
    obtain ⟨rfl, rfl⟩ := Prod.mk.injEq .. ▸ Option.some.inj (hs.symm.trans hs')
    exact hx h0

/-- the number of a link is one digit, so the announcements of two links are equally long -/
theorem cipsendText_length (k : Socket) (l l' : Fin 5) (num : Bytes) :
    (cipsendText k l num).length = (cipsendText k l' num).length := by
  have h1 : ∀ l : Fin 5, (dec l).length = 1 := fun l => by rw [dec_small (by omega)]; rfl
  simp only [cipsendText, List.length_append, h1]

/-- the bytes on the line after an accepted announcement -/
theorem out_sent (itf : Serial) (ws : List Bytes) (mem : Bytes) :
    ((itf.sent ws).sentPayload mem).out.flatten = itf.out.flatten ++ ws.flatten ++ [10] ++ cstr mem ++ [10] := by
  simp [Serial.sent, Serial.sentPayload, send_flatten]

/-- the payload written is the buffer, whichever link the announcement names -/
theorem payload_eq {k : Socket} {l l' : Fin 5} {num old x y : Bytes}
    (h : old ++ cipsendText k l num ++ [10] ++ x ++ [10] = old ++ cipsendText k l' num ++ [10] ++ y ++ [10]) : x = y := by
  have h1 := List.append_cancel_right h
  rw [List.append_assoc, List.append_assoc, List.append_assoc, List.append_assoc] at h1
  exact (List.append_inj (List.append_cancel_left h1) (cipsendText_length k l l' num)).2 |> List.append_cancel_left

/-- **Exactness of a send.** On a connected socket a send is exact exactly when the module refuses, or the length and
the content of the data survive an `int` and a C string. -/
theorem send_exact_iff {w : Host} {fdId : ℤ} {s : Addr} {k : Socket} {buf past : Bytes} (hw : Reach w)
    (hs : w.fdSock fdId = some (s, k)) (hd : k.dev ≠ none) (hl : ∃ l, w.esp.links l = some s) (hb : buf ≠ []) :
    Exact w fdId buf past ↔ sendFits w buf past := by
  have hn : buf.length ≠ 0 := fun h0 => hb (List.length_eq_zero_iff.1 h0)
  obtain ⟨l, ws, hl', hws, he⟩ := bosSend_cases hw.inv hs hd hl (buf ++ past) hn
  have htext := (cipsend_puts _ _ _).flatten hws
  cases h1 : w.itf.ans w.itf.waits with
  | err =>
    simp only [h1, reduceCtorEq, if_false] at he
    rw [exact_of_result hs he]
    exact iff_of_true (fun h0 => absurd h0 (by decide)) (Or.inl h1)
  | busy =>
    simp only [h1, reduceCtorEq, if_false] at he
    rw [exact_of_result hs he]
    exact iff_of_true (fun h0 => absurd h0 (by decide)) (Or.inr (Or.inl h1))
  | inval =>
    -- the wait woke up for nothing: 1 is returned, and only the announcement was written
    simp only [h1, reduceCtorEq, if_false] at he
    rw [exact_of_result hs he]
    refine iff_of_false (fun hx => ?_) (by simp [sendFits, h1])
    obtain ⟨hr, l1, _, hout⟩ := hx (by decide)
    have hlen : buf.length = 1 := by
      have hr' : (1 : ℤ) = buf.length := hr
      omega
    have hsent : (w.itf.sent ws).out.flatten = w.itf.out.flatten ++ cipsendText k l (dec buf.length) ++ [10] := by
      rw [decInt_of_lt (by omega)] at htext
      simp [Serial.sent, htext]
    have := congrArg List.length (hsent.symm.trans hout)
    simp only [List.length_append, cipsendText_length k l l1, hlen] at this
    simp at this
  | ok =>
    simp only [h1, if_true] at he
    by_cases h2 : w.itf.ans (w.itf.waits + 1) = .ok
    · simp only [h2, if_true] at he
      rw [exact_of_result hs he, out_sent, htext, sendFits]
      simp only [h1, h2, reduceCtorEq, false_or, true_and, ne_eq, not_true]
      by_cases hneg : 2 ^ 31 ≤ buf.length % 2 ^ 32
      · refine iff_of_true (fun h0 => ?_) (Or.inl hneg)
        have := (toInt32_neg_iff buf.length).2 hneg
        omega
      · have h0 : 0 ≤ toInt32 buf.length := not_lt.1 (mt (toInt32_neg_iff _).1 hneg)
        simp only [h0, true_imp_iff, hneg, false_or, toInt32_eq_iff]
        refine and_congr_right fun hlt => ?_
        rw [decInt_of_lt hlt, ← cstr_eq_take]
        exact ⟨fun ⟨l1, _, hout⟩ => payload_eq hout, fun hc => ⟨l, hl', by rw [hc]⟩⟩
    · simp only [h2, if_false] at he
      rw [exact_of_result hs he]
      exact iff_of_true (fun h0 => absurd h0 (by decide)) (Or.inr (Or.inr ⟨h1, Or.inl h2⟩))

theorem send_exact_sample :
    Exact (sampleConn .stream) 1 (str "hello") [] ∧ ¬ Exact (sampleConn .stream) 1 [65, 0, 66] [] :=
  ⟨(send_exact_iff (sampleConn_reach _) (sampleConn_sock _) (by decide) ⟨0, sampleConn_link _⟩ (by decide)).2
      (by decide +kernel),
    fun h => absurd ((send_exact_iff (sampleConn_reach _) (sampleConn_sock _) (by decide) ⟨0, sampleConn_link _⟩
      (by decide)).1 h) (by decide +kernel)⟩

/-- **A 0 byte ends the payload**: of three bytes only the first is written, and 3 is returned. -/
theorem send_exact_fails :
    ¬ ∀ w fdId s k buf past, Reach w → w.fdSock fdId = some (s, k) → k.dev ≠ none → (∃ l, w.esp.links l = some s) →
      buf ≠ [] → Exact w fdId buf past := by
  intro h
  have hx := h (sampleConn .stream) 1 7 (sampleSock .stream) [65, 0, 66] [] (sampleConn_reach _) (sampleConn_sock _)
    (by decide) ⟨0, sampleConn_link _⟩ (by decide)
  have h0 : ((bosSend (sampleConn .stream) 1 [65, 0, 66] 3).toOption.map fun r =>
      (r.1, r.2.itf.out.flatten.length)) = some (3, (sampleConn .stream).itf.out.flatten.length + 17) := by
    decide +kernel
  obtain ⟨⟨r, w'⟩, hr, he⟩ := Option.map_eq_some_iff.1 h0
  obtain ⟨rfl, hlen⟩ := Prod.mk.injEq .. ▸ he
  obtain ⟨_, l, _, hout⟩ := hx 3 w' 7 (sampleSock .stream) (toOption_some hr) (by decide) (sampleConn_sock _)
  rw [hout] at hlen
  simp only [List.length_append, cipsendText_length _ l 0] at hlen
  revert hlen
  decide +kernel

end EspHostdriver.SendExact
