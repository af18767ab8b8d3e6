/-
The names of the nodes below `net_root`.

`bos_socket` counts the static `fd_id` up and names the node after it. `bos_accept` has a parameter of that name, the
descriptor of the server: it counts that one up instead, so every client of a server gets a node with the same name, and
the name of a node that `bos_socket` makes, or made, for the number after the server's.

- `cstr_nodeName`: a number that fits is the name, in decimal.
- `childNames_change`: what a step does to the list of names.
- `node_names`: the names are distinct as long as every server accepts once and only while the counter is not above its
  descriptor, and no socket is made when the counter is a server that accepted; the first step against this repeats a name.
- `node_names_fails`: two clients of one server.
-/
import EspHostdriver.Net.Ownership

namespace EspHostdriver.NodeNames

open Machine

/-! ## Model -/

structure Counted where
  host : Host
  /-- the server of every client that was accepted -/
  accepted : List ℤ

/-- the server whose client a step takes -/
def served (w : Host) : Op → List ℤ
  | .accept fdId _ => if (w.taken fdId).isSome then [fdId] else []
  | _ => []

/-- fewer than 10^7 descriptors are ever created -/
def countStep (t : Counted) (op : Op) : Option Counted :=
  (step t.host op).bind fun w => if w.fs.fdCnt < 10 ^ 7 then some ⟨w, t.accepted ++ served t.host op⟩ else none

/-- the names of the children of `net_root` -/
def childNames (w : Host) : List (Option Bytes) := w.netChilds.map fun c => (w.fs.nodes c).map FsNode.name

def Distinct (t : Counted) : Prop := (childNames t.host).Nodup

/-- a socket is made while the counter is no server that accepted; a server accepts once, and while the counter is not
above its descriptor -/
def Ordered (t : Counted) : Op → Prop
  | .socket _ _ => (t.host.fdId : ℤ) ∉ t.accepted
  | .accept fdId _ => (t.host.taken fdId).isSome → fdId ∉ t.accepted ∧ (t.host.fdId : ℤ) ≤ fdId
  | _ => True

instance decidableOrdered (t : Counted) : ∀ op, Decidable (Ordered t op)
  | .socket _ _ => inferInstanceAs (Decidable (_ ∉ _))
  | .accept _ _ => inferInstanceAs (Decidable (_ → _ ∧ _))
  | .configure _ _ _ | .connect _ _ _ | .bind _ _ _ | .listen _ _ | .sendto _ _ _ _ _ | .recvfrom _ _ _ | .close _
  | .evRecv _ _ _ | .evAccept _ _ | .evClosed _ => isTrue trivial

/-! ## Numbers as names -/

theorem dec_injective {a b : ℕ} (h : dec a = dec b) : a = b := by
  rw [← foldl_dec a, h, foldl_dec]

/-- the name that a node gets -/
theorem cstr_nodeName (w : Host) {v : ℕ} (h : v < 10 ^ 8) : cstr (nodeName w v) = dec v := by
  have hz : 0 ∉ dec v := notMem_dec (by decide) v
  rw [nodeName, itoa_eq_dec h, Option.getD_some]
  simpa [cstr] using cstr_append hz []

/-! ## The list of names over a step -/

variable {w w' : Host}

theorem opened_childNames {name : Bytes} {s : Addr} {id : ℤ} (hi : w.Inv) (ho : Opened w w' name s id) :
    childNames w' = childNames w ++ [some (cstr name)] := by
  have hold : ∀ c ∈ w.netChilds, (w'.fs.nodes c).map FsNode.name = (w.fs.nodes c).map FsNode.name := by
    intro c hc
    obtain ⟨r, rn, hr, hn, hn'⟩ := ho.root
    by_cases he : w.netRoot = some c
    · obtain rfl := Option.some.inj (hr.symm.trans he)
      rw [hn, hn']
      rfl
    · rw [ho.others c (fun hx => hi.next_notMem (hx ▸ hc)) he]
  obtain ⟨nd, hn, _, hname⟩ := ho.node
  simp only [childNames, ho.netChilds, List.map_append, List.map_cons, List.map_nil, hn, Option.map_some, hname]
  rw [List.map_congr_left hold]

theorem disconnect_childNames {sock : Option Addr} (hd : netdevSockDisconnect w sock = .ok w') :
    childNames w' = childNames w ∧ w'.fdId = w.fdId ∧ w'.fs.fdCnt = w.fs.fdCnt := by
  obtain ⟨_, hch, _⟩ := disconnect_data hd
  rcases netdevSockDisconnect_ok hd with rfl | ⟨c, nd, hn, _, rfl⟩
  · exact ⟨rfl, rfl, rfl⟩
  · refine ⟨?_, rfl, rfl⟩
    rw [childNames, hch]
    refine List.map_congr_left fun x _ => ?_
    by_cases he : x = c
    · simp [he, hn]
    · simp only [Table.set_ne _ _ he]

/-- a step leaves the names, or adds the decimal text of one number -/
theorem childNames_change (hi : w.Inv) {op : Op} (hs : step w op = some w') :
    (op.makes w = false ∧ childNames w' = childNames w ∧ w'.fdId = w.fdId ∧ w'.fs.fdCnt = w.fs.fdCnt ∧
      w'.fs.fdLst = w.fs.fdLst) ∨
    ∃ v s fd, Source w w' op v s ∧ (v < 10 ^ 8 → childNames w' = childNames w ++ [some (dec v)]) ∧
      w'.fs.fdCnt = w.fs.fdCnt + 1 ∧ w'.fs.fdLst = w.fs.fdLst ++ [fd] ∧ fd.id = w.fs.fdCnt + 1 := by
  cases step_nodeChange hi hs with
  | same hop hn hf hc hr hd => exact Or.inl ⟨hop, by simp only [childNames, Host.netChilds, hn, hr], hd, hc, hf⟩
  | closed hop hl hd hf hr hdi =>
    obtain ⟨h1, h2, h3⟩ := disconnect_childNames hd
    subst hop
    refine Or.inl ⟨rfl, h1.trans ?_, h2.trans hdi, h3.trans (by rw [hf]), (disconnect_data hd).1.trans (by rw [hf])⟩
    simp only [childNames, Host.netChilds, hf, hr]
  | @opened w2 v s id hi2 ho hn hf hc hr hsrc =>
    obtain ⟨fd, hlst, hid, _⟩ := ho.fd
    refine Or.inr ⟨v, s, fd, hsrc, fun hv => ?_, by rw [ho.cnt, hc], by rw [hlst, hf], by rw [hid, ho.id_eq, hc]⟩
    rw [opened_childNames hi2 ho, cstr_nodeName _ hv]
    simp only [childNames, Host.netChilds, hn, hr]

/-! ## The invariant -/

/-- the numbers in use: those up to the counter, and the one after each server that accepted -/
def Used (t : Counted) (v : ℕ) : Prop := (0 < v ∧ v ≤ t.host.fdId) ∨ (v : ℤ) - 1 ∈ t.accepted

structure Numbered (t : Counted) : Prop where
  inv : t.host.Inv
  pos : ∀ fd ∈ t.host.fs.fdLst, 0 < fd.id
  counter : (t.host.fdId : ℤ) ≤ t.host.fs.fdCnt
  cnt : t.host.fs.fdCnt < 10 ^ 7
  servers : ∀ l ∈ t.accepted, 0 < l ∧ l ≤ t.host.fs.fdCnt
  names : ∃ vs : List ℕ, childNames t.host = some (str ".") :: vs.map (fun v => some (dec v)) ∧ vs.Nodup ∧
    ∀ v, v ∈ vs ↔ Used t v

theorem Numbered.distinct {t : Counted} (h : Numbered t) : Distinct t := by
  obtain ⟨vs, hn, hnd, _⟩ := h.names
  rw [Distinct, hn, List.nodup_cons]
  constructor
  · intro hm
    obtain ⟨v, _, hv⟩ := List.mem_map.1 hm
    have hdot : (46 : UInt8) ∈ dec v := by
      rw [Option.some.inj hv]
      decide
    exact notMem_dec (by decide) v hdot
  · exact hnd.map fun a b hab => dec_injective (Option.some.inj hab)

/-- a server that is found has a descriptor among those created -/
theorem Numbered.server {t : Counted} (h : Numbered t) {fdId : ℤ} {s : Addr} (hs : t.host.taken fdId = some s) :
    0 < fdId ∧ fdId ≤ t.host.fs.fdCnt := by
  obtain ⟨⟨x, k⟩, hfs, _⟩ := Option.bind_eq_some_iff.1 hs
  obtain ⟨fd, _, hf, _⟩ := Host.fdSock_some.1 hfs
  have hid : fd.id = fdId := by simpa using List.find?_some hf
  have hm := List.mem_of_find?_eq_some hf
  exact hid ▸ ⟨h.pos fd hm, h.inv.fs.fdId fd hm⟩

/-- the number of a new node is in use afterwards, and was not before exactly when the step is in order -/
theorem Numbered.made {t : Counted} (h : Numbered t) {op : Op} {v : ℕ} {s : Addr} (hsrc : Source t.host w' op v s) :
    v < 10 ^ 8 ∧ (Ordered t op ↔ ¬ Used t v) ∧
      ∀ x, Used ⟨w', t.accepted ++ served t.host op⟩ x ↔ Used t x ∨ x = v := by
  have hcnt := h.cnt
  have hcounter := h.counter
  cases hsrc with
  | socket _ hc =>
    have hused : Used t (t.host.fdId + 1) ↔ (t.host.fdId : ℤ) ∈ t.accepted := by simp [Used]
    refine ⟨by omega, not_congr hused.symm, fun x => ?_⟩
    simp only [Used, served, List.append_nil, hc]
    rw [or_right_comm]
    refine or_congr_left ?_
    omega
  | @accept fdId want _ ht hc =>
    obtain ⟨hpos, hle⟩ := h.server ht
    have hcast : (((fdId + 1).toNat : ℕ) : ℤ) = fdId + 1 := by omega
    have hused : Used t (fdId + 1).toNat ↔ fdId < t.host.fdId ∨ fdId ∈ t.accepted := by
      rw [Used, hcast, add_sub_cancel_right]
      refine or_congr_left ?_
      omega
    refine ⟨by omega, ?_, fun x => ?_⟩
    · rw [hused, Ordered, ht]
      simp only [Option.isSome_some, true_imp_iff, not_or, not_lt]
      exact and_comm
    · simp only [Used, served, ht, Option.isSome_some, if_true, List.mem_append, List.mem_singleton, hc]
      rw [or_assoc]
      refine or_congr_right (or_congr_right ?_)
      omega

theorem step_numbered (t : Counted) (op : Op) (t' : Counted) (h : Numbered t) (hg : Ordered t op)
    (hs : countStep t op = some t') : Numbered t' := by
  obtain ⟨w', hstep, hs⟩ := Option.bind_eq_some_iff.1 hs
  split_ifs at hs with hlt
  cases hs
  have hinv : w'.Inv := step_inv _ _ _ h.inv hstep
  obtain ⟨vs, hn, hnd, hvs⟩ := h.names
  rcases childNames_change h.inv hstep with ⟨hop, hnames, hid, hcnt, hlst⟩ | ⟨v, s, fd, hsrc, hnames, hcnt, hlst, hid⟩
  · have hserved : served t.host op = [] := by
      cases op <;> first | rfl | exact if_neg (by simpa [Op.makes] using hop)
    refine ⟨hinv, hlst ▸ h.pos, ?_, hlt, ?_, vs, hnames.trans hn, hnd, fun v => ?_⟩
    · rw [hid, hcnt]
      exact h.counter
    · rw [hserved, List.append_nil, hcnt]
      exact h.servers
    · rw [hvs, Used, Used, hserved, List.append_nil, hid]
  · obtain ⟨hv, hord, hused⟩ := h.made hsrc
    have hnew : v ∉ vs := fun hm => hord.1 hg ((hvs v).1 hm)
    refine ⟨hinv, fun f hf => ?_, ?_, hlt, fun l hl => ?_, vs ++ [v], ?_, ?_, fun x => ?_⟩
    · rw [hlst, List.mem_append, List.mem_singleton] at hf
      have := h.counter
      rcases hf with hf | rfl
      · exact h.pos f hf
      · rw [hid]
        omega
    · have := h.counter
      cases hsrc with
      | socket _ hc => rw [hc, hcnt]; omega
      | accept _ hc => rw [hc, hcnt]; omega
    · rw [hcnt]
      rcases List.mem_append.1 hl with hl | hl
      · exact ⟨(h.servers l hl).1, (h.servers l hl).2.trans (by omega)⟩
      · cases hsrc with
        | socket => cases hl
        | accept ht =>
          simp only [served, ht, Option.isSome_some, if_true, List.mem_singleton] at hl
          exact hl ▸ ⟨(h.server ht).1, (h.server ht).2.trans (by omega)⟩
    · rw [hnames hv, hn, List.map_append]
      rfl
    · exact List.nodup_append.2 ⟨hnd, List.nodup_singleton v, fun a ha b hb hab =>
        hnew (List.mem_singleton.1 hb ▸ hab ▸ ha)⟩
    · rw [List.mem_append, List.mem_singleton, hvs, hused]

/-- a step out of order repeats a name -/
theorem step_repeats (t : Counted) (op : Op) (t' : Counted) (h : Numbered t) (hs : countStep t op = some t')
    (hn : ¬ Ordered t op) : ∃ bs u, run countStep t' bs = some u ∧ ¬ Distinct u := by
  obtain ⟨w', hstep, hs⟩ := Option.bind_eq_some_iff.1 hs
  split_ifs at hs with hlt
  cases hs
  refine ⟨[], _, rfl, fun hd => ?_⟩
  obtain ⟨vs, hnames, _, hvs⟩ := h.names
  rcases childNames_change h.inv hstep with ⟨hop, _⟩ | ⟨v, s, fd, hsrc, hnew, _⟩
  · -- without a new node every step is in order
    cases op with
    | socket => cases hop
    | accept fdId want => exact hn fun hx => by simp [Op.makes, hx] at hop
    | _ => exact hn trivial
  · obtain ⟨hv, hord, _⟩ := h.made hsrc
    have hm : v ∈ vs := (hvs v).2 (not_not.1 fun hx => hn (hord.2 hx))
    rw [Distinct, hnew hv, List.nodup_append] at hd
    refine hd.2.2 (some (dec v)) ?_ (some (dec v)) (List.mem_singleton_self _) rfl
    rw [hnames]
    exact List.mem_cons_of_mem _ (List.mem_map_of_mem hm)

theorem numbered_booted (h : Booted w) (hi : w.Inv) : Numbered ⟨w, []⟩ where
  inv := hi
  pos fd hf := by simp [h.fdLst] at hf
  counter := by simp [h.fdId, h.fdCnt]
  cnt := by simp [h.fdCnt]
  servers l hl := by cases hl
  names := by
    refine ⟨[], ?_, List.nodup_nil, fun v => ?_⟩
    · simp [childNames, Host.netChilds, h.netRoot, h.nodes, bootFs]
    · simp only [List.not_mem_nil, Used, h.fdId, or_false, false_iff]
      omega

/-- **The names are distinct after every run in order**, and a step out of order repeats one. -/
theorem node_names {ok : ℕ → Bool} {junk : Addr → Junk} {ans : ℕ → Res} {tty : Bool} {w0 : Host} {ops : List Op}
    {t : Counted} (hb : boot ok junk ans tty = some w0) (hg : Guarded countStep Ordered ⟨w0, []⟩ ops)
    (hr : run countStep ⟨w0, []⟩ ops = some t) : Exact countStep Ordered Distinct t :=
  exact_run step_numbered (fun _ hi => hi.distinct) step_repeats (numbered_booted (boot_booted hb) (boot_inv hb)) hg hr

/-- a server with two clients that wait -/
def twoClients : List Op :=
  [.socket .afInet .stream, .bind 1 samplePeer 12, .listen 1 0, .evAccept 0 samplePeer, .evAccept 1 samplePeer]

def noneAccepted (w : Host) : Counted := ⟨w, []⟩

theorem node_names_sample : ∃ w t, sampleFrom noneAccepted countStep (twoClients ++ [.accept 1 none]) = some (w, t) ∧
    childNames t.host = [some (str "."), some (str "1"), some (str "2")] ∧ Exact countStep Ordered Distinct t := by
  have hr : (sampleFrom noneAccepted countStep (twoClients ++ [.accept 1 none])).map (fun p => (childNames p.2.host,
      decide (Guarded countStep Ordered ⟨p.1, []⟩ (twoClients ++ [.accept 1 none])))) =
        some ([some (str "."), some (str "1"), some (str "2")], true) := by decide +kernel
  obtain ⟨⟨w, t⟩, ht, he⟩ := Option.map_eq_some_iff.1 hr
  obtain ⟨hn, hg⟩ := Prod.mk.inj he
  obtain ⟨hb, hrun⟩ := sampleFrom_some ht
  exact ⟨w, t, ht, hn, node_names hb (of_decide_eq_true hg) hrun⟩

/-- the second client of the server gets the name of the first -/
theorem node_names_fails : ∃ w t,
    sampleFrom noneAccepted countStep (twoClients ++ [.accept 1 none, .accept 1 none]) = some (w, t) ∧
    childNames t.host = [some (str "."), some (str "1"), some (str "2"), some (str "2")] ∧ ¬ Distinct t := by
  have hr : (sampleFrom noneAccepted countStep (twoClients ++ [.accept 1 none, .accept 1 none])).map
      (fun p => childNames p.2.host) =
      some [some (str "."), some (str "1"), some (str "2"), some (str "2")] := by decide +kernel
  obtain ⟨⟨w, t⟩, ht, hn⟩ := Option.map_eq_some_iff.1 hr
  refine ⟨w, t, ht, hn, fun hd => ?_⟩
  rw [Distinct, show childNames t.host = _ from hn] at hd
  exact absurd hd (by decide)

end EspHostdriver.NodeNames
