/-
The lookup of a connection: `accept` of `esp01/serial.c` reads the reply to `AT+CIPSTATUS`.

It compares prefixes, cuts the line it is looking for in place, and from then on stores the lines behind the cut; the
columns are counted from wherever `line` points. Here the memory behind `line` is as long as the reply.

- `lookup_step`: one line of the reply. The line of the link is reported, every other one is skipped, and the reader
  waits for the next line with room for the rest of the reply.
- `lookup_part`: inside a line nothing is decided.
- `status_lookup`: the call for the link's line, wherever it stands, or none, and an end exactly at the OK.
-/
import EspHostdriver.Esp01.Wire

namespace EspHostdriver.StatusLookup

/-- a line of the reply: one of another kind, or the one of a connection -/
inductive ReplyLine where
  | other (t : Bytes) (plain : 10 ∉ t)
      (kind : cstr t ≠ str "OK" ∧ cstr t ≠ str "ERROR" ∧ ¬ str "+CIPSTATUS:" <+: t)
  | status (link : Fin 5) (udp : Bool) (addr : UInt32) (port : UInt16) (tail : Bytes) (plain : 10 ∉ tail)

namespace ReplyLine

def text : ReplyLine → Bytes
  | .other t _ _ => t
  | .status k udp a p tail _ => connLine k udp a p tail

def link : ReplyLine → Option (Fin 5)
  | .other _ _ _ => none
  | .status k _ _ _ _ _ => some k

/-- address and port, when it is the line of the link -/
def remote (l : Fin 5) : ReplyLine → Option (UInt32 × UInt16)
  | .other _ _ _ => none
  | .status k _ a p _ _ => if k = l then some (a, p) else none

theorem text_plain (s : ReplyLine) : 10 ∉ s.text := by
  cases s with
  | other t plain kind => exact plain
  | status k udp a p tail plain =>
    have hdec : ∀ n, (10 : UInt8) ∉ dec n := notMem_dec (by decide)
    have hdot : (10 : UInt8) ∉ dotted a := notMem_dotted (by decide) (by decide) a
    cases udp <;> simp [text, connLine, connHead, str, hdec, hdot, plain]

end ReplyLine

/-- the reply: the lines, and a final OK -/
def reply : List ReplyLine → Bytes
  | [] => str "OK" ++ [10]
  | s :: ls => s.text ++ [10] ++ reply ls

/-- the links that have a line, in order -/
def links (ls : List ReplyLine) : List (Fin 5) := ls.filterMap ReplyLine.link

/-- address and port of the first line of the link -/
def remoteIn (l : Fin 5) (ls : List ReplyLine) : Option (UInt32 × UInt16) := ls.findSome? (ReplyLine.remote l)

def reported (st : Stack) (l : Fin 5) (c : Option (UInt32 × UInt16)) : List Call :=
  c.toList.map fun c => .accept (l : ℕ) (remoteOf st c.1 c.2)

/-! ## One line -/

variable {st : Stack} {r : Reader} {l : Fin 5} {front rest : Bytes}

/-- inside a line the reader goes on in the loop -/
theorem lookup_part {t : Bytes} (ht : t.length ≤ rest.length) (hn : 10 ∉ t) :
    (readRun st (r.listening (dec l) front [] rest) t).mode = .status front.length (dec l) := by
  rw [status_text ht hn]
  rfl

theorem lookup_step (s : ReplyLine) {n : ℕ} (hn : (s.text ++ [10]).length + n ≤ rest.length) :
    ∃ front' rest', n ≤ rest'.length ∧ readRun st (r.listening (dec l) front [] rest) (s.text ++ [10]) =
      { r with calls := r.calls ++ reported st l (s.remote l) }.listening (dec l) front' [] rest' := by
  rw [List.length_append, List.length_singleton] at hn
  have hfits : s.text.length < rest.length := by omega
  rw [status_line hfits s.text_plain]
  set m := rest.drop (s.text.length + 1) with hm
  have hmlen : m.length = rest.length - (s.text.length + 1) := by rw [hm, List.length_drop]
  have hskip : ∀ x, r.listening (dec l) front [] x =
      { r with calls := r.calls ++ reported st l none }.listening (dec l) front [] x := by
    intro x
    rw [reported, Option.toList_none, List.map_nil, List.append_nil]
  cases s with
  | other t plain kind =>
    have hfin : ¬ (cstr t = str "OK" ∨ cstr t = str "ERROR") := fun ht => ht.elim kind.1 kind.2.1
    refine ⟨front, t ++ 0 :: m, ?_, (statusLine_other hfin fun h => ?_).trans (hskip _)⟩
    · simp only [ReplyLine.text, List.length_append, List.length_cons] at hn hmlen ⊢
      omega
    · exact kind.2.2 (prefix_of_prefix_term (by decide) h.1)
  | status k udp a p tail plain =>
    by_cases hk : k = l
    · subst hk
      have hrem : (ReplyLine.status k udp a p tail plain).remote k = some (a, p) := if_pos rfl
      rw [hrem]
      refine ⟨_, _, ?_, statusLine_own st⟩
      simp only [ReplyLine.text, connLine, List.length_append, List.length_cons] at hn hmlen ⊢
      omega
    · have hrem : (ReplyLine.status k udp a p tail plain).remote l = none := if_neg hk
      rw [hrem]
      refine ⟨front, connLine k udp a p tail ++ 0 :: m, ?_, (statusLine_foreign st hk).trans (hskip _)⟩
      simp only [ReplyLine.text, List.length_append, List.length_cons] at hn hmlen ⊢
      omega

/-! ## The whole reply -/

theorem part_of_line {t p c : Bytes} (h : t ++ [10] = p ++ c) (hc : c ≠ []) : p <+: t := by
  rcases List.prefix_concat_iff.1 ⟨c, h.symm⟩ with he | hp
  · rw [he] at h
    exact absurd (List.append_cancel_left (h.symm.trans (List.append_nil _).symm)) hc
  · exact hp

theorem part_listens {t p c : Bytes} (h : t ++ [10] = p ++ c) (hc : c ≠ []) (ht : t.length ≤ rest.length) (hn : 10 ∉ t) :
    (readRun st (r.listening (dec l) front [] rest) p).mode = .status front.length (dec l) := by
  have hp := part_of_line h hc
  exact lookup_part (hp.length_le.trans ht) fun hm => hn (hp.subset hm)

/-- the reader is through with the reply, in which `cs` were reported, and it was not before its last byte -/
structure Looked (st : Stack) (l : Fin 5) (r0 : Reader) (calls : List Call) (bs : Bytes) : Prop where
  mode : (readRun st r0 bs).mode = .line
  i : (readRun st r0 bs).i = 0
  calls : (readRun st r0 bs).calls = calls
  during : ∀ p q, bs = p ++ q → q ≠ [] → ∃ base, (readRun st r0 p).mode = .status base (dec l)

theorem lookup_run (st : Stack) (l : Fin 5) (ls : List ReplyLine) (r : Reader) (front rest : Bytes)
    (hroom : (reply ls).length ≤ rest.length) :
    Looked st l (r.listening (dec l) front [] rest) (r.calls ++ ls.flatMap fun s => reported st l (s.remote l))
      (reply ls) := by
  induction ls generalizing r front rest with
  | nil =>
    have hlen : (str "OK").length < rest.length := Nat.lt_of_succ_le (by simpa [reply] using hroom)
    have hok : (10 : UInt8) ∉ str "OK" := by decide
    have hrun : readRun st (r.listening (dec l) front [] rest) (reply []) = _ :=
      (status_line hlen hok).trans (statusLine_final (Or.inl rfl))
    constructor
    · rw [hrun]
    · rw [hrun]
    · rw [hrun]
      simp
    · intro p q hpq hq
      exact ⟨_, part_listens hpq hq hlen.le hok⟩
  | cons s ls ih =>
    have hsum : (s.text ++ [10]).length + (reply ls).length ≤ rest.length := by
      rw [← List.length_append]
      exact hroom
    obtain ⟨front', rest', hroom', hstep⟩ := @lookup_step st r l front rest s _ hsum
    obtain ⟨hmode, hi, hcalls, hduring⟩ := ih { r with calls := r.calls ++ reported st l (s.remote l) } front' rest' hroom'
    have hrun : ∀ bs, readRun st (r.listening (dec l) front [] rest) (s.text ++ [10] ++ bs) = readRun st
        ({ r with calls := r.calls ++ reported st l (s.remote l) }.listening (dec l) front' [] rest') bs := by
      intro bs
      rw [readRun_append, hstep]
    constructor
    · exact (congrArg Reader.mode (hrun _)).trans hmode
    · exact (congrArg Reader.i (hrun _)).trans hi
    · refine (congrArg Reader.calls (hrun _)).trans (hcalls.trans ?_)
      rw [List.flatMap_cons, List.append_assoc]
    · intro p q hpq hq
      have htext : s.text.length ≤ rest.length := by
        rw [List.length_append, List.length_singleton] at hsum
        omega
      rcases List.append_eq_append_iff.1 hpq with ⟨c, rfl, hrest⟩ | ⟨c, hline, _⟩
      · obtain ⟨base, hbase⟩ := hduring c q hrest hq
        exact ⟨base, (congrArg Reader.mode (hrun c)).trans hbase⟩
      · by_cases hc : c = []
        · rw [hc, List.append_nil] at hline
          refine ⟨front'.length, ?_⟩
          rw [← hline, hstep]
          rfl
        · exact ⟨_, part_listens hline hc htext s.text_plain⟩

/-- a link without a line is not reported -/
theorem remote_none {ls : List ReplyLine} (h : l ∉ links ls) : ∀ s ∈ ls, s.remote l = none := by
  intro s hs
  cases s with
  | other t plain kind => rfl
  | status k udp a p tail plain =>
    refine if_neg fun hk => h ?_
    rw [links, List.mem_filterMap]
    exact ⟨_, hs, congrArg some hk⟩

/-- with one line a link, what is reported is the line of the link -/
theorem reported_once (st : Stack) (l : Fin 5) {ls : List ReplyLine} (hd : (links ls).Nodup) :
    (ls.flatMap fun s => reported st l (s.remote l)) = reported st l (remoteIn l ls) := by
  induction ls with
  | nil => rfl
  | cons s ls ih =>
    rw [List.flatMap_cons, remoteIn, List.findSome?_cons]
    cases s with
    | other t plain kind => exact ih hd
    | status k udp a p tail plain =>
      have hlinks : links (.status k udp a p tail plain :: ls) = k :: links ls := rfl
      rw [hlinks, List.nodup_cons] at hd
      by_cases hk : k = l
      · have hrem : (ReplyLine.status k udp a p tail plain).remote l = some (a, p) := if_pos hk
        have hrest : (ls.flatMap fun s => reported st l (s.remote l)) = [] := by
          refine List.flatMap_eq_nil_iff.2 fun s hs => ?_
          rw [remote_none (hk ▸ hd.1) s hs]
          rfl
        rw [hrem, hrest, List.append_nil]
      · have hrem : (ReplyLine.status k udp a p tail plain).remote l = none := if_neg hk
        rw [hrem]
        exact ih hd.2

/-- **The lookup finds the connection.** `accept`, called on the line of link `l`, asks for the status, and then calls
the driver once, with the address and port of the link's status line, if the reply has one, and not at all otherwise. It
is back at the start of a line after the OK, and not before. -/
theorem status_lookup (st : Stack) (l : Fin 5) {r : Reader} {m : Bytes} {len : ℕ} (hline : r.line = dec l ++ 44 :: m)
    (hlen : 0 < len) (ls : List ReplyLine) (hd : (links ls).Nodup) (hroom : (reply ls).length ≤ r.line.length) :
    Looked st l (acceptBegin st r len) (r.calls ++ .query :: reported st l (remoteIn l ls)) (reply ls) := by
  have hone : (dec l).length = 1 := by rw [dec_fin]; rfl
  have hbegin : acceptBegin st r len = _ := acceptBegin_field (by omega) hline (by omega)
  have hroom' : (reply ls).length ≤ (dec l ++ 0 :: m).length := by
    refine hroom.trans_eq ?_
    rw [hline]
    simp
  have h := lookup_run st l ls { r with calls := r.calls ++ [.query] } [] (dec l ++ 0 :: m) hroom'
  rw [reported_once st l hd, List.append_assoc] at h
  rw [hbegin]
  exact h

theorem busy_plain : 10 ∉ str "busy p..." := by decide

theorem busy_kind : cstr (str "busy p...") ≠ str "OK" ∧ cstr (str "busy p...") ≠ str "ERROR" ∧
    ¬ str "+CIPSTATUS:" <+: str "busy p..." := by decide

theorem tail_plain : 10 ∉ str "333,0" := by decide

/-- two connections and a line of another kind -/
def sampleLines (l1 l2 : Fin 5) : List ReplyLine :=
  [.other (str "busy p...") busy_plain busy_kind, .status l1 true 0xc0a80005 4000 (str "333,0") tail_plain,
    .status l2 false 0xffffffff 65535 (str "333,0") tail_plain]

/-- the reader at the start of `accept` for link 3 -/
def sampleReader : Reader := ⟨str "3,CONNECT\n" ++ List.replicate 200 0, 10, .line, []⟩

theorem status_lookup_sample : Looked ⟨fun _ => 0, [], 0⟩ 3 (acceptBegin ⟨fun _ => 0, [], 0⟩ sampleReader 10)
    [.query, .accept 3 ⟨.afInet, ⟨0xffffffff, 65535, 0⟩⟩] (reply (sampleLines 1 3)) := by
  have hline : sampleReader.line = dec (3 : Fin 5) ++ 44 :: (str "CONNECT\n" ++ List.replicate 200 0) := rfl
  exact status_lookup ⟨fun _ => 0, [], 0⟩ 3 hline (by decide) (sampleLines 1 3) (by decide) (by decide +kernel)

end EspHostdriver.StatusLookup
