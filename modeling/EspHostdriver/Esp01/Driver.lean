/-
Lean model of the ESP01 driver (`esp01/esp01.c`): the operations the network layer calls (`configure`, `connect`,
`listen`, `close`, `send`) and the handlers the reader thread calls (`recv`, `accept`, `closed`).

`links` says which socket occupies each of the five links of the module. An operation asks the module first and updates
`links` or `tcp_server` only when the answer was OK. The handlers index `links` with the number the module sent and
use what they find there unchecked.

The `*_cases` lemmas are the whole effect of each operation and handler on a live socket: they complete, and this is what
they return and change.
-/
import EspHostdriver.Net.Socket

namespace EspHostdriver

/-! ## Model -/

/-- a link number of the module as an index of `links` -/
def linkIdx (l : ℤ) : Except Fault (Fin 5) :=
  if h : 0 ≤ l ∧ l < 5 then .ok ⟨l.toNat, by omega⟩ else .error .badLink

/-- the socket in the slot of a link, if the number is that of a link -/
def linkSock (w : Host) (l : ℤ) : Option Addr := (linkIdx l).toOption.bind w.esp.links

/-- the first link that holds `sock`; `none` is the C value -1 -/
def getLinkId (e : Esp) (sock : Option Addr) : Option (Fin 5) := (List.finRange 5).find? fun i => e.links i = sock

def Esp.setLink (e : Esp) (l : Fin 5) (sock : Option Addr) : Esp :=
  { e with links := fun i => if i = l then sock else e.links i }

/-- a number as an `ssize_t` -/
def toInt64 (v : ℤ) : ℤ := v.bmod (2 ^ 64)

/-- `|` on two `int`s -/
def intOr (a b : ℤ) : ℤ := (BitVec.ofInt 32 a ||| BitVec.ofInt 32 b).toInt

/-- the memory a `%a` argument of a socket's remote points to -/
def remoteAddr (a : SockAddrInet) : Bytes := le32 a.data.addr ++ le16 a.data.port ++ le16 a.data.pad

/-- `enc[cfg->enc]` -/
def encText : InetEnc → Bytes
  | .open => str "0"
  | .wpaPsk => str "2"
  | .wpa2Psk => str "3"
  | .wpaWpa2Psk => str "4"

def encVal : InetEnc → UInt32
  | .open => 0
  | .wpaPsk => 1
  | .wpa2Psk => 2
  | .wpaWpa2Psk => 3

/-- a string of a configuration; `strs` is the memory it lies in -/
def strArg (strs : Addr → Bytes) : Option Addr → Arg
  | none => .null
  | some a => .ptr (strs a)

/-- the memory of a configuration from `ip` on, and from the two fields after it -/
def cfgFromNetmask (cfg : InetDevCfg) : Bytes := le32 cfg.netmask ++ le32 (encVal cfg.enc)
def cfgFromGw (cfg : InetDevCfg) : Bytes := le32 cfg.gw ++ cfgFromNetmask cfg
def cfgFromIp (cfg : InetDevCfg) : Bytes := le32 cfg.ip ++ cfgFromGw cfg

/-- the commands of `configure`, in order -/
def configureCmds (strs : Addr → Bytes) (cfg : InetDevCfg) : List (Bytes × List Arg) :=
  [(str "AT+CWMODE_CUR=%s", [.ptr (str (if cfg.devMode = some .ap then "2" else "1"))]),
    (str "AT+CIPDINFO=1", []),
    (str "AT+CWDHCP_CUR=%s,%s",
      [.ptr (str (if cfg.devMode = some .ap then "0" else "1")), .ptr (str (if cfg.dhcp then "1" else "0"))])] ++
  match cfg.devMode with
  | some .ap =>
    [(str "AT+CIPAP_CUR=\"%a\",\"%a\",\"%a\"",
        [.ptr (cfgFromIp cfg), .ptr (cfgFromGw cfg), .ptr (cfgFromNetmask cfg)]),
      (str "AT+CWSAP_CUR=\"%s\",\"%s\",1,%s,4,0", [strArg strs cfg.ssid, strArg strs cfg.password, .ptr (encText cfg.enc)])]
  | some .client =>
    -- the gateway goes through %s: the bytes of the number are sent as a string
    (if cfg.dhcp then [] else [(str "AT+CIPSTA_CUR=\"%a\",\"%a\",\"%s\"",
      [.ptr (cfgFromIp cfg), .ptr (cfgFromNetmask cfg), .ptr (cfgFromGw cfg)])]) ++
    [(str "AT+CWJAP_CUR=\"%s\",\"%s\"", [strArg strs cfg.ssid, strArg strs cfg.password])]
  | none => []

/-- `r |= send_cmd(...)` for each command -/
def sendCmds (itf : Serial) (r : ℤ) : List (Bytes × List Arg) → Except Fault (ℤ × Serial)
  | [] => .ok (r, itf)
  | (fmt, args) :: cs =>
    match sendCmd itf none fmt args with
    | .error e => .error e
    | .ok (r', itf) => sendCmds itf (intOr r r') cs

def espConfigure (w : Host) (strs : Addr → Bytes) (cfg : InetDevCfg) : Except Fault (ℤ × Host) := do
  let (r, itf) ← sendCmds w.itf 0 (configureCmds strs cfg)
  .ok (if cfg.devMode = none then -1 else r, { w with itf := itf })

def espConnect (w : Host) (sock : Addr) : Except Fault (ℤ × Host) := do
  let (s, k) ← w.sock (some sock)
  let _ ← w.dev k.dev
  match getLinkId w.esp none with
  | none => .ok (-1, w)
  | some l => do
    let (r, itf) ← sendCmd w.itf none (str "AT+CIPSTART=%d,\"%s\",\"%a\",%d")
      [.word l, .ptr (str (if k.type = .dgram then "UDP" else "TCP")), .ptr (remoteAddr k.addr),
        .word k.addr.data.port.toNat]
    if r ≠ 0 then .ok (-1, { w with itf := itf })
    else .ok (0, { w with itf := itf, esp := w.esp.setLink l (some s) })

def espListen (w : Host) (sock : Addr) (backlog : ℤ) : Except Fault (ℤ × Host) := do
  let (s, k) ← w.sock (some sock)
  let _ ← w.dev k.dev
  if backlog ≠ 0 then .ok (-1, w)
  else if w.esp.tcpServer ≠ none then .ok (-1, w)
  else do
    let (r, itf) ← sendCmd w.itf none (str "AT+CIPSERVER=1,%d") [.word k.addr.data.port.toNat]
    if r ≠ 0 then .ok (-1, { w with itf := itf })
    else .ok (0, { w with itf := itf, esp := { w.esp with tcpServer := some s } })

def espClose (w : Host) (sock : Addr) : Except Fault (ℤ × Host) := do
  let (s, k) ← w.sock (some sock)
  let _ ← w.dev k.dev
  if w.esp.tcpServer = some s then do
    let (r, itf) ← sendCmd w.itf none (str "AT+CIPSERVER=0") []
    if r ≠ 0 then .ok (-1, { w with itf := itf })
    else .ok (0, { w with itf := itf, esp := { w.esp with tcpServer := none } })
  else match getLinkId w.esp (some s) with
    | none => .ok (-1, w)
    | some l => do
      let (r, itf) ← sendCmd w.itf none (str "AT+CIPCLOSE=%d") [.word l]
      if r ≠ 0 then .ok (-1, { w with itf := itf })
      else .ok (0, { w with itf := itf, esp := w.esp.setLink l none })

/-- the command that announces `dataLen` bytes -/
def cipsend (k : Socket) (l : Fin 5) (dataLen : ℕ) : Bytes × List Arg :=
  match k.type with
  | .dgram => (str "AT+CIPSEND=%d,%d,\"%a\",%d",
      [.word l, .word dataLen, .ptr (remoteAddr k.addr), .word k.addr.data.port.toNat])
  | .stream => (str "AT+CIPSEND=%d,%d", [.word l, .word dataLen])

/-- `mem` is the memory from `data` on; the payload is written as a string -/
def espSend (w : Host) (sock : Addr) (mem : Bytes) (dataLen : ℕ) : Except Fault (ℤ × Host) :=
  if dataLen = 0 then .ok (0, w)
  else do
    let (s, k) ← w.sock (some sock)
    let _ ← w.dev k.dev
    match getLinkId w.esp (some s) with
    | none => .ok (-1, w)
    | some l => do
      let (r, itf) ← sendCmd w.itf none (cipsend k l dataLen).1 (cipsend k l dataLen).2
      if r ≠ 0 then .ok (r, { w with itf := itf })
      else
        let itf := serialCmdStart itf (some (str "SEND OK"))
        let (r, itf) := serialCmdWait { itf with out := itf.out ++ serialCmdSend (some mem) }
        .ok (if r = 0 then toInt64 dataLen else -1, { w with itf := itf })

/-- the handler for the payload of a link -/
def espRecv (w : Host) (linkId : ℤ) (data : Bytes) (remote : SockAddrInet) : Except Fault Host := do
  let l ← linkIdx linkId
  let (s, k) ← w.sock (w.esp.links l)
  match k.type with
  | .dgram =>
    match w.fs.heap.malloc with
    | (none, _) => .error .nullDgram
    | (some a, h) =>
      -- the payload is copied to where `data` points
      if data ≠ [] ∧ (w.junk a).spare < payloadBehind then .error .overrun
      -- `idx` is not set
      else .ok ((w.withHeap h).setSock s
        { k with dgrams := k.dgrams ++ [⟨data.length, (w.junk a).idx, data, remote⟩] })
  | .stream =>
    let (n, ring) := ringbufWrite k.stream data
    if 0 < n ∧ k.stream.data = [] then .error .nullStore
    -- the count `n` is not looked at
    else .ok (w.setSock s { k with stream := ring })

/-- the handler for an incoming connection -/
def espAccept (w : Host) (linkId : ℤ) (remote : SockAddrInet) : Except Fault Host :=
  match w.esp.tcpServer with
  | none => .ok w
  | some t => do
    let (s, w) ← netdevSockAlloc w .stream
    let (_, k) ← w.sock (some s)
    let w := w.setSock s { k with addr := remote }
    let l ← linkIdx linkId
    let w := { w with esp := w.esp.setLink l (some s) }
    let (t, tk) ← w.sock (some t)
    .ok (w.setSock t { tk with clients := tk.clients ++ [s] })

/-- the handler for the end of a connection -/
def espClosed (w : Host) (linkId : ℤ) : Except Fault Host := do
  let l ← linkIdx linkId
  netdevSockDisconnect { w with esp := w.esp.setLink l none } (w.esp.links l)

theorem toInt64_of_lt {n : ℕ} (h : n < 2 ^ 63) : toInt64 n = n := Int.bmod_eq_of_le (by omega) (by omega)

theorem toInt32_toInt64 (n : ℕ) : toInt32 (toInt64 n) = toInt32 n := by
  unfold toInt32 toInt64
  exact Int.bmod_bmod_of_dvd ⟨2 ^ 32, by norm_num⟩

theorem toInt32_neg_iff (n : ℕ) : toInt32 n < 0 ↔ 2 ^ 31 ≤ n % 2 ^ 32 := by
  simp only [toInt32, Int.bmod_def]
  omega

/-! ## Looking up a link -/

theorem linkSock_some {w : Host} {l : ℤ} {s : Addr} :
    linkSock w l = some s ↔ ∃ i, linkIdx l = .ok i ∧ w.esp.links i = some s := by
  unfold linkSock
  cases linkIdx l <;> simp [Except.toOption]

theorem linkIdx_fin (l : Fin 5) : linkIdx (l : ℕ) = .ok l := by
  unfold linkIdx
  split_ifs with h
  · simp
  · omega

theorem linkIdx_val {l : ℤ} {i : Fin 5} (h : linkIdx l = .ok i) : l = ((i : ℕ) : ℤ) := by
  unfold linkIdx at h
  split_ifs at h with hr
  cases h
  exact (Int.toNat_of_nonneg hr.1).symm

theorem getLinkId_some {e : Esp} {sock : Option Addr} {l : Fin 5} (h : getLinkId e sock = some l) :
    e.links l = sock := by
  simpa using List.find?_some h

theorem getLinkId_none {e : Esp} {sock : Option Addr} : getLinkId e sock = none ↔ ∀ l, e.links l ≠ sock := by
  simp [getLinkId, List.find?_eq_none]

theorem Esp.setLink_apply (e : Esp) (l i : Fin 5) (sock : Option Addr) :
    (e.setLink l sock).links i = if i = l then sock else e.links i := rfl

/-! ## Rendering the driver's commands -/

/-- the texts of the driver's formats end no directive early, so their commands are always written -/
theorem render_connect (l : ℕ) (t rem : Bytes) (port : ℕ) :
    ∃ ws, render (str "AT+CIPSTART=%d,\"%s\",\"%a\",%d") [.word l, .ptr t, .ptr rem, .word port] = .ok ws :=
  ⟨_, rfl⟩

/-- the command of `connect` names the link first -/
theorem puts_connect (l : ℕ) (t rem : Bytes) (port : ℕ) :
    Puts (str "AT+CIPSTART=%d,\"%s\",\"%a\",%d", [.word l, .ptr t, .ptr rem, .word port])
      (str "AT+CIPSTART=" ++ (decInt (toInt32 l) ++ (str ",\"" ++ (cstr t ++ (str "\",\"" ++
        ((dotted (rd32 rem)).take 14 ++ (str "\"," ++ (decInt (toInt32 port) ++ [])))))))) := by
  show Puts (str "AT+CIPSTART=" ++ 37 :: 100 :: (str ",\"" ++ 37 :: 115 :: (str "\",\"" ++ 37 :: 97 ::
    (str "\"," ++ 37 :: 100 :: []))), [.word l, .ptr t, .ptr rem, .word port]) _
  apply puts_lit (by decide)
  apply puts_d
  apply puts_lit (by decide)
  apply puts_s
  apply puts_lit (by decide)
  apply puts_a
  apply puts_lit (by decide)
  apply puts_d
  exact puts_nil []

theorem render_listen (port : ℕ) : ∃ ws, render (str "AT+CIPSERVER=1,%d") [.word port] = .ok ws := ⟨_, rfl⟩

theorem render_unlisten : ∃ ws, render (str "AT+CIPSERVER=0") [] = .ok ws := ⟨_, rfl⟩

theorem render_close (l : ℕ) : ∃ ws, render (str "AT+CIPCLOSE=%d") [.word l] = .ok ws := ⟨_, rfl⟩

theorem render_cipsend (k : Socket) (l : Fin 5) (n : ℕ) :
    ∃ ws, render (cipsend k l n).1 (cipsend k l n).2 = .ok ws := by
  unfold cipsend
  cases k.type <;> exact ⟨_, rfl⟩

/-! ## What the operations do -/

/-- the line after one more command without an expected response -/
def Serial.sent (s : Serial) (ws : List Bytes) : Serial :=
  { s with out := s.out ++ ws ++ [[10]], response := none, waits := s.waits + 1 }

@[simp] theorem Serial.sent_ans (s : Serial) (ws : List Bytes) : (s.sent ws).ans = s.ans := rfl

@[simp] theorem Serial.sent_waits (s : Serial) (ws : List Bytes) : (s.sent ws).waits = s.waits + 1 := rfl

theorem sendCmd_sent {s : Serial} {fmt : Bytes} {args : List Arg} {ws : List Bytes} (h : render fmt args = .ok ws) :
    sendCmd s none fmt args = .ok ((s.ans s.waits).ret, s.sent ws) := sendCmd_of_render h

section Cases

variable {w : Host} {s : Addr} {k : Socket} {v : Netdev}

theorem sock_of_live (hs : w.socks s = some k) : w.sock (some s) = .ok (s, k) := Host.sock_ok.2 ⟨rfl, hs⟩

theorem espConnect_cases (hs : w.socks s = some k) (hd : w.dev k.dev = .ok v) :
    (getLinkId w.esp none = none ∧ espConnect w s = .ok (-1, w)) ∨
    ∃ l ws, getLinkId w.esp none = some l ∧ espConnect w s = .ok
      (if w.itf.ans w.itf.waits = .ok then
        (0, { w with itf := w.itf.sent ws, esp := w.esp.setLink l (some s) })
      else (-1, { w with itf := w.itf.sent ws })) := by
  cases hl : getLinkId w.esp none with
  | none => left; simp [espConnect, sock_of_live hs, hd, hl, bind, Except.bind]
  | some l =>
    right
    obtain ⟨ws, hws⟩ := render_connect l (str (if k.type = .dgram then "UDP" else "TCP")) (remoteAddr k.addr)
      k.addr.data.port.toNat
    refine ⟨l, ws, rfl, ?_⟩
    simp only [espConnect, sock_of_live hs, hd, hl, bind, Except.bind, sendCmd_sent hws, ne_eq, Res.ret_eq_zero]
    split_ifs <;> rfl

theorem espListen_cases (hs : w.socks s = some k) (hd : w.dev k.dev = .ok v) (backlog : ℤ) :
    ((backlog ≠ 0 ∨ w.esp.tcpServer ≠ none) ∧ espListen w s backlog = .ok (-1, w)) ∨
    ∃ ws, backlog = 0 ∧ w.esp.tcpServer = none ∧ espListen w s backlog = .ok
      (if w.itf.ans w.itf.waits = .ok then
        (0, { w with itf := w.itf.sent ws, esp := { w.esp with tcpServer := some s } })
      else (-1, { w with itf := w.itf.sent ws })) := by
  by_cases hb : backlog ≠ 0
  · left; simp [espListen, sock_of_live hs, hd, hb, bind, Except.bind]
  by_cases ht : w.esp.tcpServer ≠ none
  · left; simp [espListen, sock_of_live hs, hd, ht, bind, Except.bind]
  right
  obtain ⟨ws, hws⟩ := render_listen k.addr.data.port.toNat
  refine ⟨ws, not_not.1 hb, not_not.1 ht, ?_⟩
  simp only [espListen, sock_of_live hs, hd, hb, ht, if_false, bind, Except.bind, sendCmd_sent hws, ne_eq,
    Res.ret_eq_zero]
  split_ifs <;> rfl

theorem espClose_cases (hs : w.socks s = some k) (hd : w.dev k.dev = .ok v) :
    (∃ ws, w.esp.tcpServer = some s ∧ espClose w s = .ok
      (if w.itf.ans w.itf.waits = .ok then (0, { w with itf := w.itf.sent ws, esp := { w.esp with tcpServer := none } })
      else (-1, { w with itf := w.itf.sent ws }))) ∨
    (w.esp.tcpServer ≠ some s ∧ getLinkId w.esp (some s) = none ∧ espClose w s = .ok (-1, w)) ∨
    ∃ l ws, w.esp.tcpServer ≠ some s ∧ getLinkId w.esp (some s) = some l ∧ espClose w s = .ok
      (if w.itf.ans w.itf.waits = .ok then (0, { w with itf := w.itf.sent ws, esp := w.esp.setLink l none })
      else (-1, { w with itf := w.itf.sent ws })) := by
  by_cases ht : w.esp.tcpServer = some s
  · left
    obtain ⟨ws, hws⟩ := render_unlisten
    refine ⟨ws, ht, ?_⟩
    simp only [espClose, sock_of_live hs, hd, ht, if_true, bind, Except.bind, sendCmd_sent hws, ne_eq, Res.ret_eq_zero]
    split_ifs <;> rfl
  right
  cases hl : getLinkId w.esp (some s) with
  | none => left; simp [espClose, sock_of_live hs, hd, ht, hl, bind, Except.bind]
  | some l =>
    right
    obtain ⟨ws, hws⟩ := render_close l
    refine ⟨l, ws, ht, rfl, ?_⟩
    simp only [espClose, sock_of_live hs, hd, ht, if_false, hl, bind, Except.bind, sendCmd_sent hws, ne_eq,
      Res.ret_eq_zero]
    split_ifs <;> rfl

/-- the line after the payload of an accepted announcement -/
def Serial.sentPayload (s : Serial) (mem : Bytes) : Serial :=
  { s with
    out := s.out ++ serialCmdSend (some mem) ++ [[10]], response := some (str "SEND OK"), waits := s.waits + 1 }

theorem sentPayload_eq (s : Serial) (mem : Bytes) :
    serialCmdWait { serialCmdStart s (some (str "SEND OK")) with
        out := (serialCmdStart s (some (str "SEND OK"))).out ++ serialCmdSend (some mem) } =
      ((s.ans s.waits).ret, s.sentPayload mem) := rfl

theorem espSend_cases (hs : w.socks s = some k) (hd : w.dev k.dev = .ok v) (mem : Bytes) {dataLen : ℕ}
    (h0 : dataLen ≠ 0) :
    (getLinkId w.esp (some s) = none ∧ espSend w s mem dataLen = .ok (-1, w)) ∨
    ∃ l ws, getLinkId w.esp (some s) = some l ∧ render (cipsend k l dataLen).1 (cipsend k l dataLen).2 = .ok ws ∧
      espSend w s mem dataLen = .ok
        (if w.itf.ans w.itf.waits = .ok then
          (if w.itf.ans (w.itf.waits + 1) = .ok then toInt64 dataLen else -1,
            { w with itf := (w.itf.sent ws).sentPayload mem })
        else ((w.itf.ans w.itf.waits).ret, { w with itf := w.itf.sent ws })) := by
  cases hl : getLinkId w.esp (some s) with
  | none => left; simp [espSend, h0, sock_of_live hs, hd, hl, bind, Except.bind]
  | some l =>
    right
    obtain ⟨ws, hws⟩ := render_cipsend k l dataLen
    refine ⟨l, ws, rfl, hws, ?_⟩
    simp only [espSend, h0, if_false, sock_of_live hs, hd, hl, bind, Except.bind, sendCmd_sent hws, ne_eq,
      Res.ret_eq_zero, sentPayload_eq, Serial.sent_ans, Serial.sent_waits]
    split_ifs <;> rfl

/-- a send that returns has written nothing, its line, or its line and the payload -/
theorem espSend_ok {w' : Host} {mem : Bytes} {dataLen : ℕ} {r : ℤ} (h : espSend w s mem dataLen = .ok (r, w')) :
    w' = w ∨ ∃ k l ws, w.socks s = some k ∧ getLinkId w.esp (some s) = some l ∧
      render (cipsend k l dataLen).1 (cipsend k l dataLen).2 = .ok ws ∧
      (w' = { w with itf := w.itf.sent ws } ∨ w' = { w with itf := (w.itf.sent ws).sentPayload mem }) := by
  by_cases h0 : dataLen = 0
  · rw [espSend, if_pos h0] at h
    exact Or.inl (ok_pair.1 h).2.symm
  · have hgo := h
    rw [espSend, if_neg h0] at hgo
    obtain ⟨⟨s', k⟩, hs, hgo⟩ := bind_ok.1 hgo
    obtain ⟨hx, hk⟩ := Host.sock_ok.1 hs
    cases hx
    obtain ⟨v, hv, _⟩ := bind_ok.1 hgo
    rcases espSend_cases hk hv mem h0 with ⟨_, he⟩ | ⟨l, ws, hl, hws, he⟩
    · rw [he] at h
      exact Or.inl (ok_pair.1 h).2.symm
    · refine Or.inr ⟨k, l, ws, hk, hl, hws, ?_⟩
      rw [he] at h
      split_ifs at h
      · exact Or.inr (ok_pair.1 h).2.symm
      · exact Or.inr (ok_pair.1 h).2.symm
      · exact Or.inl (ok_pair.1 h).2.symm

end Cases

/-! ## What the handlers do -/

/-- a payload that is taken goes to the socket of its link: a fresh datagram, or the ring -/
theorem espRecv_ok {w w' : Host} {l : ℤ} {data : Bytes} {remote : SockAddrInet} (h : espRecv w l data remote = .ok w') :
    ∃ i s k, linkIdx l = .ok i ∧ w.esp.links i = some s ∧ w.socks s = some k ∧
      ((k.type = .dgram ∧ w' = (w.withHeap { w.fs.heap with next := w.fs.heap.next + 1 }).setSock s
          { k with dgrams := k.dgrams ++ [⟨data.length, (w.junk w.fs.heap.next).idx, data, remote⟩] }) ∨
        (k.type = .stream ∧ ¬ (0 < (ringbufWrite k.stream data).1 ∧ k.stream.data = []) ∧
          w' = w.setSock s { k with stream := (ringbufWrite k.stream data).2 })) := by
  obtain ⟨i, hi, h⟩ := bind_ok.1 h
  obtain ⟨⟨s, k⟩, hs, h⟩ := bind_ok.1 h
  obtain ⟨hl, hk⟩ := Host.sock_ok.1 hs
  refine ⟨i, s, k, hi, hl, hk, ?_⟩
  cases ht : k.type with
  | dgram =>
    left
    simp only [ht] at h
    split at h
    · cases h
    · rename_i a h' hm
      obtain ⟨rfl, _, rfl⟩ := malloc_some hm
      split_ifs at h
      cases h; exact ⟨rfl, rfl⟩
  | stream =>
    right
    simp only [ht] at h
    split_ifs at h with hn
    cases h; exact ⟨rfl, hn, rfl⟩

/-- a connection that is accepted becomes a fresh stream socket on its link and the last client of the server -/
theorem espAccept_ok {w w' : Host} {l : ℤ} {remote : SockAddrInet} (h : espAccept w l remote = .ok w') :
    (w.esp.tcpServer = none ∧ w' = w) ∨
    ∃ t s w1 k i tk, w.esp.tcpServer = some t ∧ netdevSockAlloc w .stream = .ok (s, w1) ∧ w1.socks s = some k ∧
      linkIdx l = .ok i ∧ (w1.setSock s { k with addr := remote }).socks t = some tk ∧
      w' = ({ w1.setSock s { k with addr := remote } with esp := w1.esp.setLink i (some s) }).setSock t
        { tk with clients := tk.clients ++ [s] } := by
  unfold espAccept at h
  cases ht : w.esp.tcpServer with
  | none => simp only [ht, Except.ok.injEq] at h; exact Or.inl ⟨rfl, h.symm⟩
  | some t =>
    right
    simp only [ht] at h
    obtain ⟨⟨s, w1⟩, ha, h⟩ := bind_ok.1 h
    obtain ⟨⟨s', k⟩, hs, h⟩ := bind_ok.1 h
    obtain ⟨h1, hk⟩ := Host.sock_ok.1 hs
    cases h1
    obtain ⟨i, hi, h⟩ := bind_ok.1 h
    obtain ⟨⟨t', tk⟩, hs', h⟩ := bind_ok.1 h
    obtain ⟨h1, htk⟩ := Host.sock_ok.1 hs'
    cases h1
    cases h
    exact ⟨t, s, w1, k, i, tk, rfl, ha, hk, hi, htk, rfl⟩

theorem espClosed_ok {w w' : Host} {l : ℤ} (h : espClosed w l = .ok w') :
    ∃ i, linkIdx l = .ok i ∧
      netdevSockDisconnect { w with esp := w.esp.setLink i none } (w.esp.links i) = .ok w' := bind_ok.1 h

end EspHostdriver
