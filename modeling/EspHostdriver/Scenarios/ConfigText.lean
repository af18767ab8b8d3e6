/-
What `configure` tells the module about the network.

- `configure_text`: the lines it emits, whatever the answers are.
- An address with 15 characters is cut by `%a`, so the module reads another one (or none).
- The static addresses of a client go out in the order ip, netmask, gateway, and the gateway through `%s`: the four bytes
  of the number, and what lies behind them in memory, as text. `static_never`: what stands in the third field is never
  the netmask.
- `config_faithful`: exactly when the addresses and the names arrive.
- `config_faithful_fails`: a client with static addresses.
-/
import EspHostdriver.Core.Fields
import EspHostdriver.Net.System
import EspHostdriver.Scenarios.Rendering

namespace EspHostdriver.ConfigText

open Fields Rendering

/-! ## Property -/

/-- the quoted text is a dotted quad, and `inet_addr` makes that address of it -/
def Reads (t : Bytes) (a : UInt32) : Prop := (∃ b, t = dotted b) ∧ inetAddr t = a

/-- there is a line with that command, and it has the property -/
def Line (lines : List Bytes) (cmd : String) (P : Bytes → Prop) : Prop := ∃ l ∈ lines, str cmd <+: l ∧ P l

/-- the addresses, in the order ip, gateway, netmask -/
def Addresses (cfg : InetDevCfg) (l : Bytes) : Prop :=
  Reads (quoted 34 l 0) cfg.ip ∧ Reads (quoted 34 l 1) cfg.gw ∧ Reads (quoted 34 l 2) cfg.netmask

/-- the names, verbatim -/
def Names (ssid password l : Bytes) : Prop := quoted 34 l 0 = ssid ∧ quoted 34 l 1 = password

def Faithful (w : Host) (strs : Addr → Bytes) (cfg : InetDevCfg) (ssid password : Bytes) : Prop :=
  ∃ r w' out, espConfigure w strs cfg = .ok (r, w') ∧ w'.itf.out.flatten = w.itf.out.flatten ++ out ∧
    (cfg.devMode = some .ap → Line (out.splitOn 10) "AT+CIPAP_CUR=" (Addresses cfg) ∧
      Line (out.splitOn 10) "AT+CWSAP_CUR=" (Names ssid password)) ∧
    (cfg.devMode = some .client → (cfg.dhcp = false → Line (out.splitOn 10) "AT+CIPSTA_CUR=" (Addresses cfg)) ∧
      Line (out.splitOn 10) "AT+CWJAP_CUR=" (Names ssid password))

/-- no quote, no backslash, no control character -/
def Plain (t : Bytes) : Prop := ∀ c ∈ t, c ≠ 34 ∧ c ≠ 92 ∧ 32 ≤ c ∧ c ≠ 127

instance decidablePlain (t : Bytes) : Decidable (Plain t) := List.decidableBAll _ t

theorem Plain.quote {t : Bytes} (h : Plain t) : 34 ∉ t := fun hm => (h 34 hm).1 rfl

theorem Plain.newline {t : Bytes} (h : Plain t) : 10 ∉ t := fun hm => absurd (h 10 hm).2.2.1 (by decide)

/-! ## What is written -/

theorem sendCmds_puts {cs : List (Bytes × List Arg)} {ts : List Bytes} (h : List.Forall₂ Puts cs ts) (s : Serial)
    (r : ℤ) : ∃ r' s', sendCmds s r cs = .ok (r', s') ∧ s'.out.flatten = s.out.flatten ++ ts.flatMap (· ++ [10]) := by
  induction h generalizing s r with
  | nil => exact ⟨r, s, rfl, by simp⟩
  | cons hc _ ih =>
    obtain ⟨ws, hr, rfl⟩ := hc
    obtain ⟨r', s', hs, hout⟩ := ih (s.sent ws) (intOr r (s.ans s.waits).ret)
    refine ⟨r', s', ?_, ?_⟩
    · simp only [sendCmds, sendCmd_sent hr]
      exact hs
    · rw [hout]
      simp [Serial.sent]

/-- what is left of an address in a command -/
def cut (a : UInt32) : Bytes := (dotted a).take 14

/-- a command with two quoted texts -/
def two (cmd : String) (a b tail : Bytes) : Bytes := str cmd ++ 34 :: (a ++ 34 :: ([44] ++ 34 :: (b ++ 34 :: tail)))

/-- a command with three of them -/
def three (cmd : String) (a b c : Bytes) : Bytes := two cmd a b ([44] ++ 34 :: (c ++ [34]))

/-- the lines of every mode -/
def heads (cfg : InetDevCfg) : List Bytes :=
  [str "AT+CWMODE_CUR=" ++ str (if cfg.devMode = some .ap then "2" else "1"), str "AT+CIPDINFO=1",
    str "AT+CWDHCP_CUR=" ++ (str (if cfg.devMode = some .ap then "0" else "1") ++ 44 :: str (if cfg.dhcp then "1" else "0"))]

/-- the lines of `configure` -/
def texts (cfg : InetDevCfg) (ssid password : Bytes) : List Bytes :=
  heads cfg ++
  match cfg.devMode with
  | some .ap =>
    [three "AT+CIPAP_CUR=" (cut cfg.ip) (cut cfg.gw) (cut cfg.netmask),
      two "AT+CWSAP_CUR=" ssid password (str ",1," ++ (encText cfg.enc ++ str ",4,0"))]
  | some .client =>
    (if cfg.dhcp then [] else [three "AT+CIPSTA_CUR=" (cut cfg.ip) (cut cfg.netmask) (cstr (cfgFromGw cfg))]) ++
    [two "AT+CWJAP_CUR=" ssid password []]
  | none => []

theorem cut_ip (cfg : InetDevCfg) : (dotted (rd32 (cfgFromIp cfg))).take 14 = cut cfg.ip := by
  rw [cfgFromIp, rd32_le32, cut]

theorem cut_gw (cfg : InetDevCfg) : (dotted (rd32 (cfgFromGw cfg))).take 14 = cut cfg.gw := by
  rw [cfgFromGw, rd32_le32, cut]

theorem cut_netmask (cfg : InetDevCfg) : (dotted (rd32 (cfgFromNetmask cfg))).take 14 = cut cfg.netmask := by
  rw [cfgFromNetmask, rd32_le32, cut]

theorem puts_two (cmd : String) (hc : 37 ∉ str cmd) {tail t : Bytes} {args : List Arg} (m n : Bytes)
    (h : Puts (tail, args) t) :
    Puts (str cmd ++ 34 :: 37 :: 115 :: 34 :: 44 :: 34 :: 37 :: 115 :: 34 :: tail, .ptr m :: .ptr n :: args)
      (two cmd (cstr m) (cstr n) t) := by
  have h1 : Puts (str cmd ++ ([34] ++ 37 :: 115 :: ([34, 44, 34] ++ 37 :: 115 :: ([34] ++ tail))), .ptr m :: .ptr n :: args)
      (str cmd ++ ([34] ++ (cstr m ++ ([34, 44, 34] ++ (cstr n ++ ([34] ++ t)))))) := by
    apply puts_lit hc
    apply puts_lit (by decide)
    apply puts_s
    apply puts_lit (by decide)
    apply puts_s
    exact puts_lit (by decide) h
  exact h1

/-- a literal text for `%s` -/
theorem puts_word {fmt t : Bytes} {args : List Arg} {m : Bytes} (hm : cstr m = m) (h : Puts (fmt, args) t) :
    Puts (37 :: 115 :: fmt, .ptr m :: args) (m ++ t) := by
  have h1 := puts_s m h
  rwa [hm] at h1

theorem puts_mode (b : Bool) :
    Puts (str "AT+CWMODE_CUR=%s", [.ptr (str (if b then "2" else "1"))])
      (str "AT+CWMODE_CUR=" ++ str (if b then "2" else "1")) := by
  have h1 : Puts (str "AT+CWMODE_CUR=" ++ 37 :: 115 :: [], [.ptr (str (if b then "2" else "1"))])
      (str "AT+CWMODE_CUR=" ++ (str (if b then "2" else "1") ++ [])) := by
    apply puts_lit (by decide)
    apply puts_word (by cases b <;> decide)
    exact puts_nil []
  rwa [List.append_nil] at h1

theorem puts_dhcp (b c : Bool) :
    Puts (str "AT+CWDHCP_CUR=%s,%s", [.ptr (str (if b then "0" else "1")), .ptr (str (if c then "1" else "0"))])
      (str "AT+CWDHCP_CUR=" ++ (str (if b then "0" else "1") ++ 44 :: str (if c then "1" else "0"))) := by
  have h1 : Puts (str "AT+CWDHCP_CUR=" ++ 37 :: 115 :: ([44] ++ 37 :: 115 :: []),
      [.ptr (str (if b then "0" else "1")), .ptr (str (if c then "1" else "0"))])
      (str "AT+CWDHCP_CUR=" ++ (str (if b then "0" else "1") ++ ([44] ++ (str (if c then "1" else "0") ++ [])))) := by
    apply puts_lit (by decide)
    apply puts_word (by cases b <;> decide)
    apply puts_lit (by decide)
    apply puts_word (by cases c <;> decide)
    exact puts_nil []
  rwa [List.append_nil] at h1

theorem puts_cipap (cfg : InetDevCfg) :
    Puts (str "AT+CIPAP_CUR=\"%a\",\"%a\",\"%a\"",
        [.ptr (cfgFromIp cfg), .ptr (cfgFromGw cfg), .ptr (cfgFromNetmask cfg)])
      (three "AT+CIPAP_CUR=" (cut cfg.ip) (cut cfg.gw) (cut cfg.netmask)) := by
  have h1 : Puts (str "AT+CIPAP_CUR=\"" ++ 37 :: 97 :: ([34, 44, 34] ++ 37 :: 97 :: ([34, 44, 34] ++ 37 :: 97 :: [34])),
      [.ptr (cfgFromIp cfg), .ptr (cfgFromGw cfg), .ptr (cfgFromNetmask cfg)])
      (str "AT+CIPAP_CUR=\"" ++
        (cut cfg.ip ++ ([34, 44, 34] ++ (cut cfg.gw ++ ([34, 44, 34] ++ (cut cfg.netmask ++ [34])))))) := by
    rw [← cut_ip, ← cut_gw, ← cut_netmask]
    apply puts_lit (by decide)
    apply puts_a
    apply puts_lit (by decide)
    apply puts_a
    apply puts_lit (by decide)
    apply puts_a
    exact puts_last [34] (by decide) []
  exact h1

theorem puts_cipsta (cfg : InetDevCfg) :
    Puts (str "AT+CIPSTA_CUR=\"%a\",\"%a\",\"%s\"",
        [.ptr (cfgFromIp cfg), .ptr (cfgFromNetmask cfg), .ptr (cfgFromGw cfg)])
      (three "AT+CIPSTA_CUR=" (cut cfg.ip) (cut cfg.netmask) (cstr (cfgFromGw cfg))) := by
  have h1 : Puts (str "AT+CIPSTA_CUR=\"" ++ 37 :: 97 :: ([34, 44, 34] ++ 37 :: 97 :: ([34, 44, 34] ++ 37 :: 115 :: [34])),
      [.ptr (cfgFromIp cfg), .ptr (cfgFromNetmask cfg), .ptr (cfgFromGw cfg)])
      (str "AT+CIPSTA_CUR=\"" ++
        (cut cfg.ip ++ ([34, 44, 34] ++ (cut cfg.netmask ++ ([34, 44, 34] ++ (cstr (cfgFromGw cfg) ++ [34])))))) := by
    rw [← cut_ip, ← cut_netmask]
    apply puts_lit (by decide)
    apply puts_a
    apply puts_lit (by decide)
    apply puts_a
    apply puts_lit (by decide)
    apply puts_s
    exact puts_last [34] (by decide) []
  exact h1

theorem texts_put (strs : Addr → Bytes) {cfg : InetDevCfg} {s p : Addr} (hs : cfg.ssid = some s)
    (hp : cfg.password = some p) :
    List.Forall₂ Puts (configureCmds strs cfg) (texts cfg (cstr (strs s)) (cstr (strs p))) := by
  have hhead : List.Forall₂ Puts _ _ := List.Forall₂.cons (puts_mode (cfg.devMode = some .ap))
    (List.Forall₂.cons (puts_last (str "AT+CIPDINFO=1") (by decide) [])
      (List.Forall₂.cons (puts_dhcp (cfg.devMode = some .ap) cfg.dhcp) List.Forall₂.nil))
  have henc : cstr (encText cfg.enc) = encText cfg.enc := by cases cfg.enc <;> decide
  have hsap := puts_two "AT+CWSAP_CUR=" (by decide) (strs s) (strs p) (puts_lit (show 37 ∉ str ",1," by decide)
    (puts_word henc (puts_last (str ",4,0") (by decide) [])))
  have hjap := puts_two "AT+CWJAP_CUR=" (by decide) (strs s) (strs p) (puts_nil [])
  unfold configureCmds texts heads
  rw [hs, hp]
  refine List.rel_append ?_ ?_
  · simpa using hhead
  · match cfg.devMode with
    | some .ap => exact List.Forall₂.cons (puts_cipap cfg) (List.Forall₂.cons hsap List.Forall₂.nil)
    | some .client =>
      cases hd : cfg.dhcp with
      | true => exact List.Forall₂.cons hjap List.Forall₂.nil
      | false => exact List.Forall₂.cons (puts_cipsta cfg) (List.Forall₂.cons hjap List.Forall₂.nil)
    | none => exact List.Forall₂.nil

/-- **The lines of `configure`**, whatever the answers are -/
theorem configure_text (w : Host) (strs : Addr → Bytes) {cfg : InetDevCfg} {s p : Addr} (hs : cfg.ssid = some s)
    (hp : cfg.password = some p) : ∃ r w', espConfigure w strs cfg = .ok (r, w') ∧
      w'.itf.out.flatten = w.itf.out.flatten ++ (texts cfg (cstr (strs s)) (cstr (strs p))).flatMap (· ++ [10]) := by
  obtain ⟨r, s', hr, hout⟩ := sendCmds_puts (texts_put strs hs hp) w.itf 0
  exact ⟨_, { w with itf := s' }, by rw [espConfigure, hr]; rfl, hout⟩

/-! ## Addresses -/

theorem reads_iff {t : Bytes} {a : UInt32} : Reads t a ↔ t = dotted a := by
  constructor
  · intro h
    obtain ⟨⟨b, rfl⟩, hb⟩ := h
    rw [inetAddr_quad] at hb
    rw [hb]
  · intro h
    rw [h]
    exact ⟨⟨a, rfl⟩, inetAddr_quad a⟩

theorem reads_cut (a : UInt32) : Reads (cut a) a ↔ (dotted a).length ≤ 14 := by
  rw [reads_iff, cut, List.take_eq_self_iff]

theorem notMem_cut {c : UInt8} (h1 : isDigit c = false) (h2 : c ≠ 46) (a : UInt32) : c ∉ cut a := by
  intro h
  exact notMem_dotted h1 h2 a (List.mem_of_mem_take h)

/-- a character of a dotted quad is no smaller than the dot -/
theorem le_of_mem_dotted {a : UInt32} {c : UInt8} (h : c ∈ dotted a) : 46 ≤ c.toNat := by
  rcases mem_dotted h with hd | rfl
  · have hc := (isDigit_iff c).1 hd
    omega
  · decide

/-- an octet from 46 on has two digits -/
theorem two_digits {n : ℕ} (h : 46 ≤ n) : 2 ≤ (dec n).length := by
  have hn : ¬ n < 10 := by omega
  have hpos := List.length_pos_iff.2 (dec_ne_nil (n / 10))
  rw [dec_step hn, List.length_append, List.length_singleton]
  omega

theorem seven_le_dotted (a : UInt32) : 7 ≤ (dotted a).length := by
  have hpos := fun n => List.length_pos_iff.2 (dec_ne_nil n)
  have h24 := hpos (bits8 a 24).toNat
  have h16 := hpos (bits8 a 16).toNat
  have h8 := hpos (bits8 a 8).toNat
  have h0 := hpos (bits8 a 0).toNat
  simp only [dotted, List.length_append, List.length_cons]
  omega

/-- with three octets from 46 on, the text has at least ten characters -/
theorem ten_le_dotted {a : UInt32} (h16 : 46 ≤ (bits8 a 16).toNat) (h8 : 46 ≤ (bits8 a 8).toNat)
    (h0 : 46 ≤ (bits8 a 0).toNat) : 10 ≤ (dotted a).length := by
  have hpos := List.length_pos_iff.2 (dec_ne_nil (bits8 a 24).toNat)
  have h2 := two_digits h16
  have h3 := two_digits h8
  have h4 := two_digits h0
  simp only [dotted, List.length_append, List.length_cons]
  omega

/-- **The bytes from the gateway on never spell the netmask**: its own bytes among them would have to be characters of
its text, which is then longer than what lies there. -/
theorem quad_not_prefix (gw netmask : UInt32) (enc : InetEnc) :
    ¬ dotted netmask <+: cstr (le32 gw ++ (le32 netmask ++ le32 (encVal enc))) ++ [34] := by
  intro hpre
  have hquote : 34 ∉ dotted netmask := notMem_dotted (by decide) (by decide) netmask
  have hm : dotted netmask <+: le32 gw ++ (le32 netmask ++ le32 (encVal enc)) := by
    rcases List.prefix_concat_iff.1 hpre with he | hp
    · exact absurd (he ▸ List.mem_append_right _ List.mem_cons_self) hquote
    · exact hp.trans (List.takeWhile_prefix _)
  have hchar : ∀ i < (dotted netmask).length, ∀ c, (le32 gw ++ (le32 netmask ++ le32 (encVal enc)))[i]? = some c →
      46 ≤ c.toNat := by
    intro i hi c hc
    obtain ⟨t, ht⟩ := hm
    rw [← ht, List.getElem?_append_left hi] at hc
    exact le_of_mem_dotted (List.mem_of_getElem? hc)
  have h7 := seven_le_dotted netmask
  have h4 := hchar 4 (by omega) (UInt8.ofNat netmask.toNat) rfl
  have h5 := hchar 5 (by omega) (UInt8.ofNat (netmask.toNat / 2 ^ 8)) rfl
  have h6 := hchar 6 (by omega) (UInt8.ofNat (netmask.toNat / 2 ^ 16)) rfl
  rw [UInt8.toNat_ofNat'] at h4 h5 h6
  have hten : 10 ≤ (dotted netmask).length := by
    apply ten_le_dotted
    · rw [bits8_toNat netmask (by simp)]
      exact h6
    · rw [bits8_toNat netmask (by simp)]
      exact h5
    · rw [bits8_toNat netmask (by simp)]
      simpa using h4
  have h8 := hchar 8 (by omega) (UInt8.ofNat (encVal enc).toNat) rfl
  cases enc <;> exact absurd h8 (by decide)

/-! ## Lines -/

def lines (ts : List Bytes) : List Bytes := (ts.flatMap (· ++ [10])).splitOn 10

theorem mem_lines {ts : List Bytes} {l : Bytes} : l ∈ lines ts ↔ (∃ t ∈ ts, l ∈ t.splitOn 10) ∨ l = [] := by
  rw [lines, splitOn_terminated, List.mem_append, List.mem_flatMap, List.mem_singleton]

theorem line_intro {ts : List Bytes} {cmd : String} {P : Bytes → Prop} {t : Bytes} (ht : t ∈ ts) (hn : 10 ∉ t)
    (hc : str cmd <+: t) (hP : P t) : Line (lines ts) cmd P := by
  refine ⟨t, mem_lines.2 (Or.inl ⟨t, ht, ?_⟩), hc, hP⟩
  rw [List.splitOn_eq_singleton hn]
  exact List.mem_singleton_self t

theorem line_elim {ts : List Bytes} {cmd : String} {P : Bytes → Prop} {Q : Prop} (hc : str cmd ≠ [])
    (h : Line (lines ts) cmd P) (hts : ∀ t ∈ ts, ∀ l ∈ t.splitOn 10, str cmd <+: l → P l → Q) : Q := by
  obtain ⟨l, hl, hpre, hP⟩ := h
  rcases mem_lines.1 hl with ⟨t, ht, hlt⟩ | rfl
  · exact hts t ht l hlt hpre hP
  · exact absurd (List.prefix_nil.1 hpre) hc

/-- a line of another command -/
theorem other_line {cmd c : String} {x l : Bytes} (hn : 10 ∉ str c ++ x) (hcmd : 8 ≤ (str cmd).length)
    (hc : 8 ≤ (str c).length) (hne : (str cmd).take 8 ≠ (str c).take 8) (hl : l ∈ (str c ++ x).splitOn 10) :
    ¬ str cmd <+: l := by
  rw [List.splitOn_eq_singleton hn, List.mem_singleton] at hl
  rw [hl]
  intro hpre
  obtain ⟨t, ht⟩ := hpre
  have htake := congrArg (List.take 8) ht
  rw [List.take_append_of_le_length hcmd, List.take_append_of_le_length hc] at htake
  exact hne htake

section Two

variable {cmd : String} {a b c tail : Bytes}

theorem two_fields (hc : 34 ∉ str cmd) (ha : 34 ∉ a) (hb : 34 ∉ b) (tail : Bytes) :
    quoted 34 (two cmd a b tail) 0 = a ∧ quoted 34 (two cmd a b tail) 1 = b ∧
      quoted 34 (two cmd a b tail) 2 = quoted 34 tail 0 := by
  have hcomma : (34 : UInt8) ∉ [44] := by decide
  refine ⟨quoted_zero hc ha _, ?_, ?_⟩
  · rw [two, quoted_succ hc ha, quoted_zero hcomma hb]
  · rw [two, quoted_succ hc ha, quoted_succ hcomma hb]

theorem three_fields (hc : 34 ∉ str cmd) (ha : 34 ∉ a) (hb : 34 ∉ b) (hd : 34 ∉ c) :
    quoted 34 (three cmd a b c) 0 = a ∧ quoted 34 (three cmd a b c) 1 = b ∧ quoted 34 (three cmd a b c) 2 = c := by
  obtain ⟨h0, h1, h2⟩ := two_fields hc ha hb ([44] ++ 34 :: (c ++ [34]))
  exact ⟨h0, h1, h2.trans (quoted_zero (by decide) hd [])⟩

theorem newline_notMem_two (hc : 10 ∉ str cmd) (ha : 10 ∉ a) (hb : 10 ∉ b) (ht : 10 ∉ tail) : 10 ∉ two cmd a b tail := by
  simp [two, hc, ha, hb, ht]

end Two

/-- whatever the third text is, the line of three that comes of it has a prefix of it in the third field -/
theorem third_field {cmd : String} {a b raw l : Bytes} (hc : 34 ∉ str cmd) (hc' : 10 ∉ str cmd) (ha : 34 ∉ a)
    (ha' : 10 ∉ a) (hb : 34 ∉ b) (hb' : 10 ∉ b) (hraw : raw.length + 1 < (str cmd).length)
    (hl : l ∈ (three cmd a b raw).splitOn 10) (hpre : str cmd <+: l) : quoted 34 l 2 <+: raw ++ [34] := by
  have hsplit : three cmd a b raw = two cmd a b ([44] ++ [34]) ++ (raw ++ [34]) := by simp [three, two]
  have hn : 10 ∉ two cmd a b ([44] ++ [34]) := newline_notMem_two hc' ha' hb' (by decide)
  obtain ⟨h, ts, he, hp⟩ := splitOn_head 10 (raw ++ [34])
  rw [hsplit, splitOn_append_left hn, he, List.modifyHead_cons, List.mem_cons] at hl
  rcases hl with rfl | hl
  · have hfields := two_fields hc ha hb ([44] ++ 34 :: h)
    have hline : two cmd a b ([44] ++ [34]) ++ h = two cmd a b ([44] ++ 34 :: h) := by simp [two]
    rw [hline, hfields.2.2]
    exact (quoted_le (by decide) h).trans hp
  · -- a later piece is too short for the command
    have hlen : l.length ≤ (raw ++ [34]).length := piece_length_le (he ▸ List.mem_cons_of_mem h hl)
    have hle := hpre.length_le
    rw [List.length_append, List.length_singleton] at hlen
    omega

theorem head_lines (cfg : InetDevCfg) {cmd : String} (hc : cmd = "AT+CIPAP_CUR=" ∨ cmd = "AT+CIPSTA_CUR=") :
    ∀ t ∈ heads cfg, ∀ l ∈ t.splitOn 10, ¬ str cmd <+: l := by
  have hmode : 10 ∉ str "AT+CWMODE_CUR=" ++ str (if cfg.devMode = some .ap then "2" else "1") := by
    split_ifs <;> decide
  have hdinfo : 10 ∉ str "AT+CIPDINFO=1" ++ [] := by decide
  have hdhcp : 10 ∉ str "AT+CWDHCP_CUR=" ++
      (str (if cfg.devMode = some .ap then "0" else "1") ++ 44 :: str (if cfg.dhcp then "1" else "0")) := by
    split_ifs <;> decide
  intro t ht l hl
  simp only [heads, List.mem_cons, List.not_mem_nil, or_false] at ht
  rcases hc with rfl | rfl <;> rcases ht with rfl | rfl | rfl
  · exact other_line hmode (by decide) (by decide) (by decide) hl
  · exact other_line hdinfo (by decide) (by decide) (by decide) (by simpa using hl)
  · exact other_line hdhcp (by decide) (by decide) (by decide) hl
  · exact other_line hmode (by decide) (by decide) (by decide) hl
  · exact other_line hdinfo (by decide) (by decide) (by decide) (by simpa using hl)
  · exact other_line hdhcp (by decide) (by decide) (by decide) hl

/-! ## When it is faithful -/

section Faithful

variable {cfg : InetDevCfg} {s p : Bytes}

theorem faithful_iff (w : Host) (strs : Addr → Bytes) {a b : Addr} {m n : Bytes} (hs : cfg.ssid = some a)
    (hp : cfg.password = some b) (hm : strs a = m) (hn : strs b = n) : Faithful w strs cfg (cstr m) (cstr n) ↔
      (cfg.devMode = some .ap → Line (lines (texts cfg (cstr m) (cstr n))) "AT+CIPAP_CUR=" (Addresses cfg) ∧
        Line (lines (texts cfg (cstr m) (cstr n))) "AT+CWSAP_CUR=" (Names (cstr m) (cstr n))) ∧
      (cfg.devMode = some .client →
        (cfg.dhcp = false → Line (lines (texts cfg (cstr m) (cstr n))) "AT+CIPSTA_CUR=" (Addresses cfg)) ∧
        Line (lines (texts cfg (cstr m) (cstr n))) "AT+CWJAP_CUR=" (Names (cstr m) (cstr n))) := by
  obtain ⟨r, w', hr, hout⟩ := configure_text w strs hs hp
  rw [hm, hn] at hout
  constructor
  · intro h
    obtain ⟨r1, w1, out, hr1, hout1, h1⟩ := h
    rw [hr, ok_pair] at hr1
    obtain ⟨_, rfl⟩ := hr1
    rw [hout, List.append_cancel_left_eq] at hout1
    subst hout1
    exact h1
  · intro h
    exact ⟨r, w', _, hr, hout, h⟩

theorem names_two {cmd : String} {tail : Bytes} (hc : 34 ∉ str cmd) (hs : Plain s) (hp : Plain p) :
    Names s p (two cmd s p tail) := by
  obtain ⟨h0, h1, _⟩ := two_fields hc hs.quote hp.quote tail
  exact ⟨h0, h1⟩

theorem newline_notMem_three {cmd : String} (hc : 10 ∉ str cmd) (a b c : UInt32) :
    10 ∉ three cmd (cut a) (cut b) (cut c) := by
  have h := notMem_cut (c := 10) (by decide) (by decide)
  exact newline_notMem_two hc (h a) (h b) (by simp [h c])

theorem ap_names (hm : cfg.devMode = some .ap) (hs : Plain s) (hp : Plain p) :
    Line (lines (texts cfg s p)) "AT+CWSAP_CUR=" (Names s p) := by
  have htail : 10 ∉ str ",1," ++ (encText cfg.enc ++ str ",4,0") := by cases cfg.enc <;> decide
  have hn : 10 ∉ two "AT+CWSAP_CUR=" s p (str ",1," ++ (encText cfg.enc ++ str ",4,0")) :=
    newline_notMem_two (by decide) hs.newline hp.newline htail
  refine line_intro ?_ hn (List.prefix_append _ _) (names_two (by decide) hs hp)
  simp [texts, hm]

theorem client_names (hm : cfg.devMode = some .client) (hs : Plain s) (hp : Plain p) :
    Line (lines (texts cfg s p)) "AT+CWJAP_CUR=" (Names s p) := by
  have hn : 10 ∉ two "AT+CWJAP_CUR=" s p [] := newline_notMem_two (by decide) hs.newline hp.newline List.not_mem_nil
  refine line_intro ?_ hn (List.prefix_append _ _) (names_two (by decide) hs hp)
  simp [texts, hm]

theorem ap_addresses (hm : cfg.devMode = some .ap) (hs : Plain s) (hp : Plain p) :
    Line (lines (texts cfg s p)) "AT+CIPAP_CUR=" (Addresses cfg) ↔
      (dotted cfg.ip).length ≤ 14 ∧ (dotted cfg.gw).length ≤ 14 ∧ (dotted cfg.netmask).length ≤ 14 := by
  have hq := notMem_cut (c := 34) (by decide) (by decide)
  have hn : 10 ∉ three "AT+CIPAP_CUR=" (cut cfg.ip) (cut cfg.gw) (cut cfg.netmask) :=
    newline_notMem_three (by decide) cfg.ip cfg.gw cfg.netmask
  have haddr : Addresses cfg (three "AT+CIPAP_CUR=" (cut cfg.ip) (cut cfg.gw) (cut cfg.netmask)) ↔
      (dotted cfg.ip).length ≤ 14 ∧ (dotted cfg.gw).length ≤ 14 ∧ (dotted cfg.netmask).length ≤ 14 := by
    obtain ⟨h0, h1, h2⟩ := three_fields (show 34 ∉ str "AT+CIPAP_CUR=" by decide) (hq cfg.ip) (hq cfg.gw) (hq cfg.netmask)
    rw [Addresses, h0, h1, h2, reads_cut, reads_cut, reads_cut]
  rw [← haddr]
  constructor
  · intro h
    refine line_elim (by decide) h fun t ht l hl hpre hP => ?_
    simp only [texts, hm, List.mem_append, List.mem_cons, List.not_mem_nil, or_false] at ht
    rcases ht with ht | rfl | rfl
    · exact absurd hpre (head_lines cfg (Or.inl rfl) t ht l hl)
    · rw [List.splitOn_eq_singleton hn, List.mem_singleton] at hl
      exact hl ▸ hP
    · have htail : 10 ∉ str ",1," ++ (encText cfg.enc ++ str ",4,0") := by cases cfg.enc <;> decide
      have hsap := newline_notMem_two (show 10 ∉ str "AT+CWSAP_CUR=" by decide) hs.newline hp.newline htail
      exact absurd hpre (other_line hsap (by decide) (by decide) (by decide) hl)
  · intro h
    exact line_intro (by simp [texts, hm]) hn (List.prefix_append _ _) h

/-- **Static addresses of a client never arrive.** -/
theorem static_never (hm : cfg.devMode = some .client) (hd : cfg.dhcp = false) (hs : Plain s) (hp : Plain p) :
    ¬ Line (lines (texts cfg s p)) "AT+CIPSTA_CUR=" (Addresses cfg) := by
  have hq := notMem_cut (c := 34) (by decide) (by decide)
  have hn := notMem_cut (c := 10) (by decide) (by decide)
  intro h
  refine line_elim (by decide) h fun t ht l hl hpre hP => ?_
  simp only [texts, hm, hd, List.mem_append, List.mem_cons, List.not_mem_nil, or_false, Bool.false_eq_true, if_false] at ht
  rcases ht with ht | rfl | rfl
  · exact head_lines cfg (Or.inr rfl) t ht l hl hpre
  · have hlen : (cstr (cfgFromGw cfg)).length + 1 < (str "AT+CIPSTA_CUR=").length := by
      have hle : (cstr (cfgFromGw cfg)).length ≤ 12 := (List.takeWhile_prefix _).length_le
      exact Nat.lt_of_le_of_lt (Nat.succ_le_succ hle) (by decide)
    have hfield := third_field (by decide) (by decide) (hq cfg.ip) (hn cfg.ip) (hq cfg.netmask) (hn cfg.netmask) hlen hl hpre
    rw [reads_iff.1 hP.2.2] at hfield
    exact quad_not_prefix cfg.gw cfg.netmask cfg.enc hfield
  · have hjap := newline_notMem_two (show 10 ∉ str "AT+CWJAP_CUR=" by decide) hs.newline hp.newline List.not_mem_nil
    exact other_line hjap (by decide) (by decide) (by decide) hl hpre

/-- **The configuration arrives exactly** when an access point's addresses have 14 characters at most, or when a client
asks for its address. -/
theorem config_faithful (w : Host) (strs : Addr → Bytes) {a b : Addr} (hmode : cfg.devMode ≠ none)
    (hs : cfg.ssid = some a) (hp : cfg.password = some b) (hm : Plain (cstr (strs a))) (hn : Plain (cstr (strs b))) :
    Faithful w strs cfg (cstr (strs a)) (cstr (strs b)) ↔
      (cfg.devMode = some .ap ∧ (dotted cfg.ip).length ≤ 14 ∧ (dotted cfg.gw).length ≤ 14 ∧ (dotted cfg.netmask).length ≤ 14) ∨
      (cfg.devMode = some .client ∧ cfg.dhcp = true) := by
  rw [faithful_iff w strs hs hp rfl rfl]
  cases hmd : cfg.devMode with
  | none => exact absurd hmd hmode
  | some mode =>
    cases mode with
    | ap => simp [ap_addresses hmd hm hn, ap_names hmd hm hn]
    | client =>
      cases hd : cfg.dhcp with
      | true => simp [client_names hmd hm hn]
      | false => simp [static_never hmd hd hm hn]

end Faithful

/-- the driver at its start, with a module that answers OK to everything -/
def idleHost : Host := start (fun _ => true) (fun _ => blankJunk) fun _ => .ok

/-- the two names -/
def sampleStrs : Addr → Bytes
  | 0 => str "net"
  | _ => str "secret"

/-- an access point -/
def apCfg : InetDevCfg :=
  ⟨InetDevMode.ap.val, some 0, none, false, 0xc0a80001, 0xc0a80001, 0xffffff00, .wpa2Psk, some 1⟩

/-- a client at 192.168.0.2, with its gateway at 192.168.0.1 -/
def staticCfg : InetDevCfg :=
  ⟨InetDevMode.client.val, some 0, none, false, 0xc0a80002, 0xc0a80001, 0xffffff00, .wpa2Psk, some 1⟩

theorem config_faithful_sample : Faithful idleHost sampleStrs apCfg (cstr (str "net")) (cstr (str "secret")) := by
  apply (config_faithful idleHost sampleStrs (a := 0) (b := 1) (by decide) rfl rfl (by decide) (by decide)).2
  exact Or.inl ⟨by decide, by decide, by decide, by decide⟩

/-- the netmask is sent for the gateway, and the first byte of the gateway's number for the netmask -/
theorem config_faithful_fails :
    (espConfigure idleHost sampleStrs staticCfg).toOption.map
        (fun p => (p.1, (p.2.itf.out.flatten.splitOn 10)[3]?)) =
      some (0, some (str "AT+CIPSTA_CUR=\"192.168.0.2\",\"255.255.255.0\",\"" ++ [1, 34])) ∧
    ¬ Faithful idleHost sampleStrs staticCfg (cstr (str "net")) (cstr (str "secret")) := by
  refine ⟨by decide +kernel, fun h => ?_⟩
  have hssid : staticCfg.ssid = some 0 := rfl
  have hmode : staticCfg.devMode = some .client := by decide
  have hlines := ((faithful_iff idleHost sampleStrs hssid rfl rfl rfl).1 h).2 hmode
  exact static_never hmode rfl (by decide) (by decide) (hlines.1 rfl)

end EspHostdriver.ConfigText
