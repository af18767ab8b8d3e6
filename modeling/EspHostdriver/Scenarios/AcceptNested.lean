/-
Device output that arrives while a connection is being accepted.

On a connect line `parse_line` calls `accept`, which asks for the status of all links and reads the reply with a loop
of its own. That loop takes every byte for a part of the reply: it knows neither frames nor closed lines, drops every line
that is not a status line of its link, ends at any OK or ERROR, and stores each line behind the address of the last match.

- `Merge` is a reply (status lines, then OK) merged with other output, piece by piece; `Item.own` is the call that
  belongs to a piece of other output.
- `NothingSwallowed`: every piece leads to exactly its own call while it is read, the connection is reported exactly
  once, and the reader survives.
- `listening_stuck`: in the loop of `accept` no piece of other output leads to its call.
- `accept_nested_iff`: nothing is swallowed just when the reply comes first and whole, contains the line of the link
  once, fits into the buffer as `accept` uses it, and nothing follows a further connect line.
- `accept_nested_fails`: a frame between two lines of the reply is lost.
-/
import EspHostdriver.Scenarios.Framing

namespace EspHostdriver.AcceptNested

/-! ## Model -/

/-- complete output of the module that is not part of the reply; `final` is the end of a user's command -/
inductive Other where
  | frame (link : Fin 5) (data : Bytes) (size : data.length < 2 ^ 31) (addr : UInt32) (port : UInt16)
  | closed (link : Fin 5)
  | connect (link : Fin 5)
  | final (ok : Bool)

def Other.text (ok : Bool) : Bytes := if ok then str "OK" else str "ERROR"

def Other.bytes : Other → Bytes
  | .frame l data _ a p => frameBytes l data a p
  | .closed k => closedBytes k
  | .connect k => connectBytes k
  | .final ok => text ok ++ [10]

/-- what has to become of it: a connect line starts the accept path, a final line is checked as a response -/
def Other.call (st : Stack) : Other → Call
  | .frame l data _ a p => .recv (l : ℕ) data (remoteOf st a p)
  | .closed k => .closed (k : ℕ)
  | .connect _ => .query
  | .final ok => .response (text ok ++ [10])

def Other.isConnect : Other → Bool
  | .connect _ => true
  | _ => false

/-- a piece of the merged output -/
inductive Item where
  | status (s : StatusLine)
  | done
  | other (o : Other)

def Item.bytes : Item → Bytes
  | .status s => s.bytes
  | .done => str "OK" ++ [10]
  | .other o => o.bytes

def Item.isReply : Item → Bool
  | .other _ => false
  | _ => true

/-- the call that belongs to a piece; reports of connections are counted on their own -/
def Item.own (st : Stack) : Item → List Call
  | .other o => [o.call st]
  | _ => []

/-- a reply of any number of status lines and its OK, merged with other output -/
structure Merge where
  items : List Item
  lines : List StatusLine
  reply : items.filter Item.isReply = lines.map .status ++ [.done]

def isReport : Call → Bool
  | .accept _ _ => true
  | _ => false

def reports (cs : List Call) : List Call := cs.filter isReport

def events (cs : List Call) : List Call := cs.filter fun c => !isReport c

/-- each piece leads to exactly its own calls while it is read -/
def Passed (st : Stack) : Reader → List Item → Prop
  | _, [] => True
  | r, m :: ms =>
    events (readRun st r m.bytes).calls = events r.calls ++ m.own st ∧ Passed st (readRun st r m.bytes) ms

/-- the connect line of `l` and then the merge: all of it is passed on, and the connection is reported exactly once -/
def NothingSwallowed (st : Stack) (l : Fin 5) (r : Reader) (m : Merge) : Prop :=
  (readRun st r (connectBytes l)).calls = r.calls ++ [.query] ∧
  Passed st (readRun st r (connectBytes l)) m.items ∧
  (∃ remote, reports (readRun st r (connectBytes l ++ m.items.flatMap Item.bytes)).calls =
    reports r.calls ++ [.accept (l : ℕ) remote]) ∧
  (readRun st r (connectBytes l ++ m.items.flatMap Item.bytes)).mode ≠ .crashed

/-- the line of link `l` -/
def isOf (l : Fin 5) : StatusLine → Bool
  | .text _ _ _ => false
  | .conn k _ _ _ _ _ => k = l

/-- every line of the reply, and its OK, ends inside the buffer, from where `line` stands -/
def Fits (l : Fin 5) : ℕ → List StatusLine → Prop
  | base, [] => base + 2 < 64
  | base, s :: ss => base + s.line.length < 64 ∧ Fits l (s.next l base) ss

instance decidableFits (l : Fin 5) : ∀ base lines, Decidable (Fits l base lines)
  | base, [] => inferInstanceAs (Decidable (base + 2 < 64))
  | base, s :: ss =>
    have := decidableFits l (s.next l base) ss
    inferInstanceAs (Decidable (base + s.line.length < 64 ∧ Fits l (s.next l base) ss))

/-- the reply comes first and whole, names the link once and fits; a further connect line comes last -/
def Clear (l : Fin 5) (m : Merge) : Prop :=
  (∃ os : List Other, m.items = m.lines.map .status ++ .done :: os.map .other ∧
    ∀ o ∈ os.dropLast, o.isConnect = false) ∧
  (m.lines.filter (isOf l)).length = 1 ∧ Fits l 0 m.lines

variable {st : Stack} {l : Fin 5} {r : Reader}

/-! ## Counting calls -/

@[simp] theorem events_append (cs ds : List Call) : events (cs ++ ds) = events cs ++ events ds := List.filter_append _ _

@[simp] theorem reports_append (cs ds : List Call) : reports (cs ++ ds) = reports cs ++ reports ds :=
  List.filter_append _ _

theorem events_other (st : Stack) (o : Other) : events [o.call st] = [o.call st] := by cases o <;> rfl

theorem reports_other (st : Stack) (o : Other) : reports [o.call st] = [] := by cases o <;> rfl

theorem status_calls (st : Stack) (l : Fin 5) (s : StatusLine) :
    (isOf l s = true ∧ ∃ remote, s.calls st l = [.accept (l : ℕ) remote]) ∨ (isOf l s = false ∧ s.calls st l = []) := by
  cases s with
  | text t plain kind => exact Or.inr ⟨rfl, rfl⟩
  | conn k udp a p tail plain =>
    by_cases hk : k = l
    · exact Or.inl ⟨by simp [isOf, hk], _, if_pos hk⟩
    · exact Or.inr ⟨by simp [isOf, hk], if_neg hk⟩

theorem events_status (st : Stack) (l : Fin 5) (s : StatusLine) : events (s.calls st l) = [] := by
  rcases status_calls st l s with ⟨_, remote, h⟩ | ⟨_, h⟩ <;> rw [h] <;> rfl

/-- as many reports as lines of the link -/
theorem reports_lines (st : Stack) (l : Fin 5) (lines : List StatusLine) :
    reports (lines.flatMap (·.calls st l)) = lines.flatMap (·.calls st l) ∧
      (lines.flatMap (·.calls st l)).length = (lines.filter (isOf l)).length := by
  induction lines with
  | nil => exact ⟨rfl, rfl⟩
  | cons s ss ih =>
    rw [List.flatMap_cons, reports_append, ih.1, List.length_append, ih.2]
    rcases status_calls st l s with ⟨hof, remote, h⟩ | ⟨hof, h⟩
    · rw [h, List.filter_cons_of_pos hof]
      exact ⟨rfl, by simp; omega⟩
    · rw [h, List.filter_cons_of_neg (by simp [hof])]
      exact ⟨rfl, by simp⟩

/-- exactly one line of the link is exactly one report of it -/
theorem one_report (st : Stack) (l : Fin 5) (lines : List StatusLine) :
    (∃ remote, lines.flatMap (·.calls st l) = [Call.accept (l : ℕ) remote]) ↔
      (lines.filter (isOf l)).length = 1 := by
  rw [← (reports_lines st l lines).2]
  constructor
  · rintro ⟨remote, h⟩
    rw [h]
    rfl
  · intro h
    obtain ⟨c, hc⟩ := List.length_eq_one_iff.1 h
    have hmem : c ∈ lines.flatMap (·.calls st l) := by simp [hc]
    obtain ⟨s, _, hs⟩ := List.mem_flatMap.1 hmem
    rcases status_calls st l s with ⟨_, remote, h⟩ | ⟨_, h⟩
    · rw [h, List.mem_singleton] at hs
      exact ⟨remote, by rw [hc, hs]⟩
    · simp [h] at hs

/-! ## In the loop of `accept` -/

theorem text_plain (ok : Bool) : 10 ∉ Other.text ok ∧ 0 ∉ Other.text ok ∧ ¬ str "+CIPSTATUS:" <+: Other.text ok := by
  cases ok <;> decide

theorem link_text_plain (k : Fin 5) {w : Bytes} (h10 : 10 ∉ w) (h0 : 0 ∉ w) :
    10 ∉ dec k ++ w ∧ 0 ∉ dec k ++ w ∧ ¬ str "+CIPSTATUS:" <+: dec k ++ w := by
  have d10 : (10 : UInt8) ∉ dec k := notMem_dec (by decide) k
  have d0 : (0 : UInt8) ∉ dec k := notMem_dec (by decide) k
  refine ⟨by simp [d10, h10], by simp [d0, h0], fun h => ?_⟩
  rw [dec_fin] at h
  have hd : (43 : UInt8) = digit k := (List.cons_prefix_cons.1 h).1
  have hv := congrArg UInt8.toNat hd
  rw [digit_toNat (by omega)] at hv
  simp at hv
  omega

/-- **in the loop of `accept` no piece of other output leads to its call** -/
theorem listening_stuck {base : ℕ} (h : r.Listening l base) (o : Other) :
    events (readRun st r o.bytes).calls ≠ events r.calls ++ [o.call st] := by
  have hsame : (readRun st r o.bytes).calls = r.calls →
      events (readRun st r o.bytes).calls ≠ events r.calls ++ [o.call st] := fun hc => by simp [hc]
  cases o with
  | closed k =>
    have ht := link_text_plain k (w := str ",CLOSED") (by decide) (by decide)
    exact hsame (listen_text st h ht.1 ht.2.1 ht.2.2)
  | connect k =>
    have ht := link_text_plain k (w := str ",CONNECT") (by decide) (by decide)
    exact hsame (listen_text st h ht.1 ht.2.1 ht.2.2)
  | final ok => exact hsame (listen_text st h (text_plain ok).1 (text_plain ok).2.1 (text_plain ok).2.2)
  | frame k data size a p =>
    -- the header is taken for a piece of a line; whatever its payload looks like, it holds no frame of its own length
    intro hev
    have hcolon : 10 ∉ header (str "+IPD") k data.length a p ++ [58] := by
      have := notMem_header (c := 10) (by decide) (by decide) (by decide) (by decide) k data.length a p
      simp [this]
    obtain ⟨hc, hm⟩ := listen_part st h hcolon
    have hbytes : (Other.frame k data size a p).bytes = header (str "+IPD") k data.length a p ++ [58] ++ data := by
      simp [Other.bytes, frameBytes]
    obtain ⟨cs, hcs, hlt⟩ := (readRun_short st hm data).made
    rw [hbytes, readRun_append, hcs, hc, events_append, List.append_cancel_left_eq] at hev
    have hmem : Call.recv (k : ℕ) data (remoteOf st a p) ∈ cs := by
      have : Call.recv (k : ℕ) data (remoteOf st a p) ∈ events cs := by rw [hev]; exact List.mem_singleton.2 rfl
      exact List.mem_of_mem_filter this
    exact absurd (hlt _ _ _ hmem) (lt_irrefl _)

/-- a reply that fits is read to its end; it leads to the reports of the link and nothing else -/
theorem reply_read (st : Stack) {lines : List StatusLine} {base : ℕ} (h : r.Listening l base) (hf : Fits l base lines) :
    (readRun st r ((lines.map Item.status ++ [Item.done]).flatMap Item.bytes)).Idle ∧
    (readRun st r ((lines.map Item.status ++ [Item.done]).flatMap Item.bytes)).calls =
      r.calls ++ lines.flatMap (·.calls st l) ∧
    Passed st r (lines.map Item.status ++ [Item.done]) := by
  induction lines generalizing r base with
  | nil =>
    obtain ⟨hi, hc⟩ := listen_final st h (Or.inl rfl) hf
    have hbytes : (([].map Item.status ++ [Item.done]).flatMap Item.bytes) = str "OK" ++ [10] := rfl
    rw [hbytes]
    exact ⟨hi, by simpa using hc, by simp [Item.bytes, hc, Item.own], trivial⟩
  | cons s ss ih =>
    obtain ⟨hl, hc⟩ := listen_status st h s hf.1
    obtain ⟨hi, hcs, hp⟩ := ih hl hf.2
    have hbytes : (((s :: ss).map Item.status ++ [Item.done]).flatMap Item.bytes) =
        s.bytes ++ (ss.map Item.status ++ [Item.done]).flatMap Item.bytes := rfl
    rw [hbytes, readRun_append]
    refine ⟨hi, ?_, ?_, hp⟩
    · rw [hcs, hc, List.flatMap_cons, List.append_assoc]
    · show events (readRun st r s.bytes).calls = _
      rw [hc, events_append, events_status]
      rfl

/-! ## After the reply -/

/-- the two final lines are too short for the tests on the end of a line, whatever stands in front of the buffer -/
theorem reads_final (st : Stack) (ok : Bool) :
    Reads st (Other.text ok ++ [10]) [.response (Other.text ok ++ [10])] := by
  apply reads_line
  · cases ok <;> decide
  · cases ok <;> decide
  · cases ok <;> decide
  · intro m
    cases ok <;> simp [Other.text, str, lineTail, List.range_succ]
  · intro m
    cases ok <;> simp [Other.text, str, lineTail, List.range_succ]

theorem reads_other (st : Stack) {o : Other} (ho : o.isConnect = false) : Reads st o.bytes [o.call st] := by
  cases o with
  | frame k data size a p => exact reads_frame k size a p
  | closed k => exact reads_closed st k
  | connect k => cases ho
  | final ok => exact reads_final st ok

theorem other_calls (st : Stack) (hr : r.Idle) (o : Other) :
    (readRun st r o.bytes).calls = r.calls ++ [o.call st] := by
  cases hc : o.isConnect with
  | false => exact (reads_other st hc r hr).2
  | true =>
    cases o with
    | connect k => exact (connect_listens st hr k).2
    | frame k data size a p => cases hc
    | closed k => cases hc
    | final ok => cases hc

theorem Passed.append {ms ns : List Item} :
    Passed st r (ms ++ ns) ↔ Passed st r ms ∧ Passed st (readRun st r (ms.flatMap Item.bytes)) ns := by
  induction ms generalizing r with
  | nil => simp [Passed]
  | cons m ms ih => simp [Passed, ih, readRun_append, and_assoc]

/-- other output that no connect line interrupts is passed on piece by piece; none of it is a report -/
theorem others_read (st : Stack) {os : List Other} (hr : r.Idle) (hos : ∀ o ∈ os.dropLast, o.isConnect = false) :
    Passed st r (os.map Item.other) ∧
    reports (readRun st r ((os.map Item.other).flatMap Item.bytes)).calls = reports r.calls ∧
    (readRun st r ((os.map Item.other).flatMap Item.bytes)).mode ≠ .crashed := by
  induction os generalizing r with
  | nil => exact ⟨trivial, rfl, by simp [hr.mode]⟩
  | cons o os ih =>
    have hc := other_calls st hr o
    have hev : events (readRun st r o.bytes).calls = events r.calls ++ [o.call st] := by
      rw [hc, events_append, events_other]
    have hrep : reports (readRun st r o.bytes).calls = reports r.calls := by
      rw [hc, reports_append, reports_other, List.append_nil]
    have hbytes : ((o :: os).map Item.other).flatMap Item.bytes =
        o.bytes ++ (os.map Item.other).flatMap Item.bytes := rfl
    rw [hbytes, readRun_append]
    cases os with
    | nil =>
      refine ⟨⟨hev, trivial⟩, hrep, ?_⟩
      show (readRun st r o.bytes).mode ≠ .crashed
      cases o with
      | frame k data size a p => simp [(reads_frame k size a p r hr).1.mode, Other.bytes]
      | closed k => simp [(reads_closed st k r hr).1.mode, Other.bytes]
      | connect k => simp [(connect_listens st hr k).1.mode, Other.bytes]
      | final ok => simp [(reads_final st ok r hr).1.mode, Other.bytes]
    | cons o' os =>
      have hi := (reads_other st (hos o (by simp)) r hr).1
      obtain ⟨hp, hcs, hm⟩ := ih hi (fun x hx => hos x (by simp [List.dropLast, hx]))
      exact ⟨⟨hev, hp⟩, hcs.trans hrep, hm⟩

/-- a connect line among other output leaves the reader in the loop of `accept`, so it is the last piece -/
theorem connect_last {os : List Other} (hr : r.Idle) (hp : Passed st r (os.map Item.other)) :
    ∀ o ∈ os.dropLast, o.isConnect = false := by
  induction os generalizing r with
  | nil => simp
  | cons o os ih =>
    cases os with
    | nil => simp
    | cons o' os =>
      have ho : o.isConnect = false := by
        cases o with
        | connect k => exact absurd hp.2.1 (listening_stuck (connect_listens st hr k).1 o')
        | frame k data size a p => rfl
        | closed k => rfl
        | final ok => rfl
      intro x hx
      rcases List.mem_cons.1 hx with rfl | hx
      · exact ho
      · exact ih (reads_other st ho r hr).1 hp.2 x hx

/-! ## Before the reply has ended -/

theorem only_others {ms : List Item} (h : ms.filter Item.isReply = []) : ∃ os : List Other, ms = os.map .other := by
  induction ms with
  | nil => exact ⟨[], rfl⟩
  | cons m ms ih =>
    cases m with
    | status s => simp [Item.isReply] at h
    | done => simp [Item.isReply] at h
    | other o =>
      obtain ⟨os, hos⟩ := ih (by simpa [Item.isReply] using h)
      exact ⟨o :: os, by simp [hos]⟩

/-- when everything is passed on and the reader survives, the reply came first, whole, and fitted -/
theorem reply_first {ms : List Item} {lines : List StatusLine} {base : ℕ} (h : r.Listening l base)
    (hms : ms.filter Item.isReply = lines.map .status ++ [.done]) (hp : Passed st r ms)
    (hm : (readRun st r (ms.flatMap Item.bytes)).mode ≠ .crashed) :
    Fits l base lines ∧ ∃ os : List Other, ms = lines.map .status ++ .done :: os.map .other := by
  induction ms generalizing r lines base with
  | nil => simp at hms
  | cons m ms ih =>
    rw [List.flatMap_cons, readRun_append] at hm
    have halive : (readRun st r m.bytes).mode ≠ .crashed := fun hx => hm (by rw [readRun_crashed hx]; exact hx)
    cases m with
    | other o => exact absurd hp.1 (listening_stuck h o)
    | done =>
      rw [List.filter_cons_of_pos rfl] at hms
      cases lines with
      | cons s ss => cases (List.cons.inj hms).1
      | nil =>
        obtain ⟨os, hos⟩ := only_others (List.cons.inj hms).2
        refine ⟨?_, os, by rw [hos]; rfl⟩
        by_contra hf
        exact halive (listen_overflow st h (t := str "OK") (by decide) (Nat.not_lt.1 hf)).1
    | status s =>
      rw [List.filter_cons_of_pos rfl] at hms
      cases lines with
      | nil => cases (List.cons.inj hms).1
      | cons s' ss =>
        obtain ⟨hs, htail⟩ := List.cons.inj hms
        cases hs
        have hf : base + s.line.length < 64 := by
          by_contra hf
          exact halive (listen_overflow st h s.line_plain.2 (Nat.not_lt.1 hf)).1
        obtain ⟨hfs, os, hos⟩ := ih (listen_status st h s hf).1 htail hp.2 hm
        exact ⟨⟨hf, hfs⟩, os, by rw [hos]; rfl⟩

/-! ## When nothing is swallowed -/

/-- **Nothing is swallowed while a connection is accepted** just when the reply comes first and whole, names the link
once and fits into the buffer, and a further connect line comes last. -/
theorem accept_nested_iff (st : Stack) (l : Fin 5) {r : Reader} (hr : r.Idle) (m : Merge) :
    NothingSwallowed st l r m ↔ Clear l m := by
  obtain ⟨hl, hq⟩ := connect_listens st hr l
  set r1 := readRun st r (connectBytes l) with hr1
  have hrep1 : reports r1.calls = reports r.calls := by rw [hq, reports_append]; exact List.append_nil _
  have hsplit : ∀ os : List Other, m.items = m.lines.map .status ++ .done :: os.map .other →
      m.items = (m.lines.map Item.status ++ [Item.done]) ++ os.map Item.other := fun os h => by simp [h]
  -- what a reply that fits leads to
  have hreply : ∀ os : List Other, m.items = m.lines.map .status ++ .done :: os.map .other → Fits l 0 m.lines →
      ∃ r2 : Reader, r2.Idle ∧ r2.calls = r1.calls ++ m.lines.flatMap (·.calls st l) ∧
        readRun st r (connectBytes l ++ m.items.flatMap Item.bytes) =
          readRun st r2 ((os.map Item.other).flatMap Item.bytes) ∧
        (Passed st r1 m.items ↔ Passed st r2 (os.map Item.other)) := by
    intro os hos hf
    obtain ⟨hi, hc, hp⟩ := reply_read st hl hf
    refine ⟨_, hi, hc, ?_, ?_⟩
    · rw [hsplit os hos, List.flatMap_append, readRun_append, readRun_append]
    · rw [hsplit os hos, Passed.append]
      exact ⟨fun h => h.2, fun h => ⟨hp, h⟩⟩
  constructor
  · rintro ⟨_, hp, ⟨remote, hrep⟩, hm⟩
    rw [readRun_append] at hm
    obtain ⟨hf, os, hos⟩ := reply_first hl m.reply hp hm
    obtain ⟨r2, hi, hc, hrun, hpass⟩ := hreply os hos hf
    have hlast := connect_last hi (hpass.1 hp)
    refine ⟨⟨os, hos, hlast⟩, (one_report st l m.lines).1 ⟨remote, ?_⟩, hf⟩
    rw [hrun, (others_read st hi hlast).2.1, hc, reports_append, (reports_lines st l m.lines).1, hrep1] at hrep
    exact List.append_cancel_left hrep
  · rintro ⟨⟨os, hos, hlast⟩, hone, hf⟩
    obtain ⟨r2, hi, hc, hrun, hpass⟩ := hreply os hos hf
    obtain ⟨hp, hrep, hm⟩ := others_read st hi hlast
    obtain ⟨remote, hremote⟩ := (one_report st l m.lines).2 hone
    refine ⟨hq, hpass.2 hp, ⟨remote, ?_⟩, by rw [hrun]; exact hm⟩
    rw [hrun, hrep, hc, reports_append, (reports_lines st l m.lines).1, hrep1, hremote]

/-! ## Samples -/

open Framing (sampleStack sampleReader)

def sampleStatus : StatusLine := .text (str "STATUS:3") (by decide) (by decide)

def sampleConn : StatusLine := .conn 0 false 0xc0a80007 4711 (str "80,1") (by decide)

/-- the whole reply, then a frame of another link, then a further connect line -/
def sampleMerge : Merge where
  items := [.status sampleStatus, .status sampleConn, .done, .other (.frame 1 (str "\nOK\n") (by decide) 0x0a000001 80),
    .other (.connect 2)]
  lines := [sampleStatus, sampleConn]
  reply := rfl

theorem accept_nested_sample : NothingSwallowed sampleStack 0 sampleReader sampleMerge :=
  (accept_nested_iff sampleStack 0 ⟨rfl, rfl, by decide⟩ sampleMerge).2
    ⟨⟨[.frame 1 (str "\nOK\n") (by decide) 0x0a000001 80, .connect 2], rfl, by simp [Other.isConnect]⟩, rfl,
      by decide +kernel⟩

/-- the frame arrives between the two lines of the reply -/
def lostMerge : Merge where
  items := [.status sampleStatus, .other (.frame 1 (str "hello") (by decide) 0x0a000001 80), .status sampleConn, .done]
  lines := [sampleStatus, sampleConn]
  reply := rfl

/-- a frame between two lines of the reply is lost -/
theorem accept_nested_fails : ¬ NothingSwallowed sampleStack 0 sampleReader lostMerge := by
  rintro ⟨_, ⟨_, hframe, _⟩, _⟩
  exact absurd hframe (by decide +kernel)

end EspHostdriver.AcceptNested
