/-
Lean model of the command line (`main/opt.c`).

`getopt_long` cuts the words of the command line into options; here its results are given, with the number of words that
it left over. `help` with a message leaves the program. `-c` takes `<ip>:<port>` or `<port>`; the address is what stands
before the last colon.

- `parseOpt_iff`: the options are accepted exactly when each of them is valid, no word is left over and there is a port;
  then each field is the last one given.
- `destination`: texts of addresses and ports are read back, and a port alone leaves the address of an earlier option.
-/
import Mathlib.Data.List.GetD
import EspHostdriver.Net.Socket

namespace EspHostdriver

/-! ## Model -/

/-- `opt_t`; a string is the memory it points to -/
structure Opts where
  devMode : InetDevMode
  type : SockType
  ssid : Bytes
  password : Bytes
  ip : UInt32
  port : ℤ
  espDebug : Bool

/-- what `getopt_long` returns, with its `optarg` -/
inductive Given where
  | devMode (m : Bytes)
  | type (m : Bytes)
  | ssid (m : Bytes)
  | password (m : Bytes)
  | connection (m : Bytes)
  | espDebug
  | help
  | invalid

/-- the value of `opts` before the options are read -/
def defaultOpts : Opts := ⟨.ap, .stream, str "mainart", str "deadbeef", 0, 0, false⟩

/-- from `i` on down to 1, the first place with a colon -/
def colonFrom (m : Bytes) : ℕ → Option ℕ
  | 0 => none
  | i + 1 => if m.getD (i + 1) 0 = 58 then some (i + 1) else colonFrom m i

def lastColon (m : Bytes) : Option ℕ := colonFrom m (cstr m).length

def modeWord (m : Bytes) : Option InetDevMode :=
  if cstr m = str "ap" then some .ap
  else if cstr m = str "client" then some .client
  else none

def typeWord (m : Bytes) : Option SockType :=
  if cstr m = str "dgram" then some .dgram
  else if cstr m = str "stream" then some .stream
  else none

/-- one turn of the loop; `none` when `help` leaves the program -/
def parseOne (o : Opts) : Given → Option Opts
  | .devMode m => (modeWord m).map fun v => { o with devMode := v }
  | .type m => (typeWord m).map fun v => { o with type := v }
  | .ssid m => some { o with ssid := m }
  | .password m => some { o with password := m }
  | .connection m =>
    match lastColon m with
    | some i => some { o with ip := inetAddr (m.set i 0), port := atoi (m.drop (i + 1)) }
    | none => some { o with port := atoi m }
  | .espDebug => some { o with espDebug := true }
  | .help => none
  | .invalid => none

/-- `rest` words are left over -/
def parseOpt (given : List Given) (rest : ℕ) : Option Opts :=
  (given.foldlM parseOne defaultOpts).bind fun o =>
    if 0 < rest then none
    else if o.port = 0 then none
    else some o

/-! ## What is given -/

def Given.devModeOf : Given → Option InetDevMode
  | .devMode m => modeWord m
  | _ => none

def Given.typeOf : Given → Option SockType
  | .type m => typeWord m
  | _ => none

def Given.ssidOf : Given → Option Bytes
  | .ssid m => some m
  | _ => none

def Given.passwordOf : Given → Option Bytes
  | .password m => some m
  | _ => none

/-- the address of a connection that has one -/
def Given.ipOf : Given → Option UInt32
  | .connection m => (lastColon m).map fun i => inetAddr (m.set i 0)
  | _ => none

def Given.portOf : Given → Option ℤ
  | .connection m => some (atoi (((lastColon m).map fun i => m.drop (i + 1)).getD m))
  | _ => none

def Given.isEspDebug : Given → Bool
  | .espDebug => true
  | _ => false

def Given.isValid : Given → Bool
  | .devMode m => (modeWord m).isSome
  | .type m => (typeWord m).isSome
  | .ssid _ | .password _ | .connection _ | .espDebug => true
  | .help | .invalid => false

/-- the last one that is given -/
def lastOf {β : Type} (f : Given → Option β) (x : β) (given : List Given) : β := (given.filterMap f).getLastD x

/-- the last of everything, on top of `o` -/
def Opts.gather (o : Opts) (given : List Given) : Opts where
  devMode := lastOf Given.devModeOf o.devMode given
  type := lastOf Given.typeOf o.type given
  ssid := lastOf Given.ssidOf o.ssid given
  password := lastOf Given.passwordOf o.password given
  ip := lastOf Given.ipOf o.ip given
  port := lastOf Given.portOf o.port given
  espDebug := o.espDebug || given.any Given.isEspDebug

/-! ## The loop -/

theorem lastOf_cons {β : Type} (f : Given → Option β) (x : β) (g : Given) (gs : List Given) :
    lastOf f x (g :: gs) = lastOf f ((f g).getD x) gs := by
  simp only [lastOf]
  cases hg : f g with
  | none => rw [List.filterMap_cons_none hg, Option.getD_none]
  | some y => rw [List.filterMap_cons_some hg, Option.getD_some, List.getLastD_cons]

theorem gather_cons (o : Opts) (g : Given) (gs : List Given) : o.gather (g :: gs) = (o.gather [g]).gather gs := by
  simp only [Opts.gather, lastOf_cons, List.any_cons, List.any_nil, Bool.or_false, Bool.or_assoc]
  rfl

/-- one option: it is valid and sets what it is about, or the program is left -/
theorem parseOne_eq (o : Opts) (g : Given) : parseOne o g = if g.isValid then some (o.gather [g]) else none := by
  have hdebug : ∀ b : Bool, (b || false) = b := fun b => by cases b <;> rfl
  simp only [Opts.gather, lastOf_cons, List.any_cons, List.any_nil, Bool.or_false]
  cases g with
  | devMode m =>
    simp only [parseOne, Given.isValid, Given.devModeOf, Given.isEspDebug, Bool.or_false]
    cases modeWord m <;> rfl
  | type m =>
    simp only [parseOne, Given.isValid, Given.typeOf, Given.isEspDebug, Bool.or_false]
    cases typeWord m <;> rfl
  | connection m =>
    simp only [parseOne, Given.isValid, Given.ipOf, Given.portOf, Given.isEspDebug, Bool.or_false]
    cases lastColon m <;> rfl
  | ssid m | password m => simp only [parseOne, Given.isValid, Given.isEspDebug, Bool.or_false]; rfl
  | espDebug => simp only [parseOne, Given.isValid, Given.isEspDebug, Bool.or_true]; rfl
  | help | invalid => rfl

theorem parseAll_eq (o : Opts) (given : List Given) :
    given.foldlM parseOne o = if given.all Given.isValid then some (o.gather given) else none := by
  induction given generalizing o with
  | nil =>
    have hsame : o.gather [] = o := by simp [Opts.gather, lastOf]
    rw [hsame]
    rfl
  | cons g gs ih =>
    rw [List.foldlM_cons, parseOne_eq, List.all_cons]
    by_cases hg : g.isValid
    · rw [if_pos hg, hg, Bool.true_and, gather_cons o g gs]
      exact ih _
    · rw [if_neg hg, eq_false_of_ne_true hg, Bool.false_and]
      rfl

/-- the program goes on exactly when every option is valid, no word is left over and the last connection has a port -/
theorem parseOpt_iff (given : List Given) (rest : ℕ) (o : Opts) : parseOpt given rest = some o ↔
    (∀ g ∈ given, g.isValid = true) ∧ rest = 0 ∧ o.port ≠ 0 ∧ o = defaultOpts.gather given := by
  have hall : given.all Given.isValid = true ↔ ∀ g ∈ given, g.isValid = true := List.all_eq_true
  rw [parseOpt, parseAll_eq, ← hall]
  by_cases hv : given.all Given.isValid = true
  · rw [if_pos hv, Option.bind_some]
    constructor
    · intro h
      split_ifs at h with hrest hport
      obtain rfl := Option.some.inj h
      exact ⟨hv, by omega, hport, rfl⟩
    · rintro ⟨_, rfl, hport, rfl⟩
      rw [if_neg (lt_irrefl 0), if_neg hport]
  · rw [if_neg hv, Option.bind_none]
    exact iff_of_false (fun h => nomatch h) fun h => hv h.1

/-! ## Connections -/

theorem colonFrom_append {t v : Bytes} (ht : t ≠ []) (hv : 58 ∉ v) (m : Bytes) {n : ℕ} (hn : n ≤ v.length) :
    colonFrom (t ++ 58 :: (v ++ m)) (t.length + n) = some t.length := by
  induction n with
  | zero =>
    obtain ⟨k, hk⟩ := Nat.exists_eq_succ_of_ne_zero (List.length_pos_iff.2 ht).ne'
    have hget : (t ++ 58 :: (v ++ m)).getD t.length 0 = 58 := by
      rw [List.getD_append_right _ _ _ _ le_rfl, Nat.sub_self, List.getD_cons_zero]
    rw [Nat.add_zero, hk, colonFrom, if_pos (by rw [← Nat.succ_eq_add_one, ← hk, hget])]
  | succ n ih =>
    have hget : (t ++ 58 :: (v ++ m)).getD (t.length + n + 1) 0 = v[n] := by
      have hsub : t.length + n + 1 - t.length = n + 1 := by omega
      rw [List.getD_append_right _ _ _ _ (by omega), hsub, List.getD_cons_succ, List.getD_append _ _ _ _ hn,
        List.getD_eq_getElem _ _ hn]
    rw [← Nat.add_assoc, colonFrom, if_neg, ih (by omega)]
    rw [hget]
    exact fun he => hv (he ▸ List.getElem_mem hn)

/-- the colon in the text of an address and a port -/
theorem lastColon_text {t u : Bytes} (ht : t ≠ []) (h0 : 0 ∉ t ++ 58 :: u) (hu : 58 ∉ u) (m : Bytes) :
    lastColon (t ++ 58 :: u ++ 0 :: m) = some t.length := by
  have hv : 58 ∉ u ++ [0] := by simpa using hu
  have hfrom := colonFrom_append ht hv m (show u.length + 1 ≤ (u ++ [0]).length by simp)
  have hmem : t ++ 58 :: (u ++ [0] ++ m) = t ++ 58 :: u ++ 0 :: m := by simp
  have hlen : (t ++ 58 :: u).length = t.length + (u.length + 1) := by simp
  rw [lastColon, cstr_term h0, hlen, ← hmem, hfrom]

theorem text_plain (a : UInt32) (n : ℕ) : 0 ∉ dotted a ++ 58 :: dec n := by
  have h0 : (0 : UInt8) ∉ dotted a := notMem_dotted (by decide) (by decide) a
  have h1 : (0 : UInt8) ∉ dec n := notMem_dec (by decide) n
  simp [h0, h1]

/-- the text of an address and a port gives both back -/
theorem connection_addr (a : UInt32) {n : ℕ} (hn : n < 2 ^ 31) (m : Bytes) :
    (Given.connection (dotted a ++ 58 :: dec n ++ 0 :: m)).ipOf = some a ∧
      (Given.connection (dotted a ++ 58 :: dec n ++ 0 :: m)).portOf = some (n : ℤ) := by
  have hne : dotted a ≠ [] := by
    unfold dotted
    simp
  have hcolon := lastColon_text hne (text_plain a n) (notMem_dec (by decide) n) m
  have hset : (dotted a ++ 58 :: dec n ++ 0 :: m).set (dotted a).length 0 = dotted a ++ 0 :: (dec n ++ 0 :: m) := by
    rw [List.append_assoc, List.set_append_right _ _ le_rfl, Nat.sub_self]
    rfl
  have hdrop : (dotted a ++ 58 :: dec n ++ 0 :: m).drop ((dotted a).length + 1) = dec n ++ 0 :: m := by
    rw [List.append_assoc, List.drop_append]
    simp
  refine ⟨?_, ?_⟩
  · rw [Given.ipOf, hcolon, Option.map_some, hset, inetAddr_dotted]
  · rw [Given.portOf, hcolon, Option.map_some, Option.getD_some, hdrop, atoi_dec hn (stops_cons _ (by decide))]

theorem lastColon_none {t : Bytes} (h0 : 0 ∉ t) (ht : 58 ∉ t) (m : Bytes) : lastColon (t ++ 0 :: m) = none := by
  have hdown : ∀ n, n ≤ t.length → colonFrom (t ++ 0 :: m) n = none := by
    intro n hn
    induction n with
    | zero => rfl
    | succ n ih =>
      have hget : (t ++ 0 :: m).getD (n + 1) 0 ≠ 58 := by
        rcases Nat.lt_or_eq_of_le hn with hlt | heq
        · rw [List.getD_append _ _ _ _ hlt, List.getD_eq_getElem _ _ hlt]
          exact fun he => ht (he ▸ List.getElem_mem hlt)
        · rw [heq, List.getD_append_right _ _ _ _ le_rfl, Nat.sub_self, List.getD_cons_zero]
          decide
      rw [colonFrom, if_neg hget, ih (by omega)]
  rw [lastColon, cstr_term h0, hdown _ le_rfl]

/-- the text of a port alone gives it back, and no address -/
theorem connection_port {n : ℕ} (hn : n < 2 ^ 31) (m : Bytes) :
    (Given.connection (dec n ++ 0 :: m)).ipOf = none ∧ (Given.connection (dec n ++ 0 :: m)).portOf = some (n : ℤ) := by
  have hcolon := lastColon_none (notMem_dec (by decide) n) (notMem_dec (c := 58) (by decide) n) m
  refine ⟨by rw [Given.ipOf, hcolon]; rfl, ?_⟩
  rw [Given.portOf, hcolon, Option.map_none, Option.getD_none, atoi_dec hn (stops_cons _ (by decide))]

/-- what the memory of an argument of `-c` holds -/
structure Dest where
  addr : Option UInt32
  port : ℕ
  behind : Bytes

def Dest.given (d : Dest) : Given :=
  .connection ((d.addr.map fun a => dotted a ++ [58]).getD [] ++ dec d.port ++ 0 :: d.behind)

def Given.isConnection : Given → Bool
  | .connection _ => true
  | _ => false

theorem dest_addr {d : Dest} (h : d.port < 2 ^ 31) : d.given.ipOf = d.addr ∧ d.given.portOf = some (d.port : ℤ) := by
  obtain ⟨addr, n, m⟩ := d
  cases addr with
  | some a =>
    have htext := connection_addr a h m
    simp only [Dest.given, Option.map_some, Option.getD_some, List.append_assoc, List.singleton_append] at htext ⊢
    exact htext
  | none => exact connection_port h m

/-- only connections matter for a field that other options do not set -/
theorem lastOf_connections {β : Type} {f : Given → Option β} (hf : ∀ g, g.isConnection = false → f g = none) (x : β)
    (given : List Given) : lastOf f x given = lastOf f x (given.filter Given.isConnection) := by
  induction given generalizing x with
  | nil => rfl
  | cons g gs ih =>
    cases hg : g.isConnection with
    | true => rw [List.filter_cons_of_pos hg, lastOf_cons, lastOf_cons, ih]
    | false => rw [List.filter_cons_of_neg (by simp [hg]), lastOf_cons, hf g hg, Option.getD_none, ih]

/-- **Where to connect.** With valid options, whose connections are texts of ports below 2^31 with or without an
address, the program goes on with the last port and the last address given, or with 0 (a server) when there is none. -/
theorem destination {given : List Given} (hv : ∀ g ∈ given, g.isValid = true) (ds : List Dest)
    (hd : given.filter Given.isConnection = ds.map Dest.given) (hp : ∀ d ∈ ds, d.port < 2 ^ 31)
    (hlast : ∀ d ∈ ds.getLast?, d.port ≠ 0) (hne : ds ≠ []) : ∃ o, parseOpt given 0 = some o ∧
      o.port = (ds.map fun d => (d.port : ℤ)).getLastD 0 ∧ o.ip = (ds.filterMap Dest.addr).getLastD 0 := by
  have hports : (ds.map Dest.given).filterMap Given.portOf = ds.map fun d => (d.port : ℤ) := by
    rw [List.filterMap_map, ← List.filterMap_eq_map]
    exact List.filterMap_congr fun d hm => (dest_addr (hp d hm)).2
  have haddrs : (ds.map Dest.given).filterMap Given.ipOf = ds.filterMap Dest.addr := by
    rw [List.filterMap_map]
    exact List.filterMap_congr fun d hm => (dest_addr (hp d hm)).1
  have hport : (defaultOpts.gather given).port = (ds.map fun d => (d.port : ℤ)).getLastD 0 := by
    show lastOf Given.portOf 0 given = _
    rw [lastOf_connections (fun g hg => by cases g <;> first | rfl | cases hg), hd, lastOf, hports]
  have haddr : (defaultOpts.gather given).ip = (ds.filterMap Dest.addr).getLastD 0 := by
    show lastOf Given.ipOf 0 given = _
    rw [lastOf_connections (fun g hg => by cases g <;> first | rfl | cases hg), hd, lastOf, haddrs]
  refine ⟨defaultOpts.gather given, (parseOpt_iff given 0 _).2 ⟨hv, rfl, ?_, rfl⟩, hport, haddr⟩
  obtain ⟨init, d, rfl⟩ := (List.eq_nil_or_concat ds).resolve_left hne
  rw [hport, List.concat_eq_append, List.map_append, List.map_singleton, List.getLastD_concat]
  exact_mod_cast hlast d (by simp)

/-- a client, which stays one when another port is given -/
def sampleGiven : List Given :=
  [.devMode (str "client"), (⟨some 0xc0a80007, 80, []⟩ : Dest).given, .type (str "dgram"), (⟨none, 90, []⟩ : Dest).given]

theorem destination_sample : ∃ o, parseOpt sampleGiven 0 = some o ∧ o.port = 90 ∧ o.ip = 0xc0a80007 :=
  destination (by decide +kernel) [⟨some 0xc0a80007, 80, []⟩, ⟨none, 90, []⟩] rfl (by decide) (by decide) (by decide)

end EspHostdriver
