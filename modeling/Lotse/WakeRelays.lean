import Lotse.WakePackets

set_option autoImplicit false

/-!
# Waking a system

`wake` asks the agents in the networks of a system, one after the other, to send the packets
there, until one confirms; if none does, the hub sends them itself. Everything that is sent
on the way is recorded, by whom it is sent.
-/
namespace Lotse.Wol
open Netip

structure NetInterface where
  mac : Text
  addrs : List Text
  deriving DecidableEq

structure AgentConn where
  id : ℤ
  name : Text
  wake : Bool
  interfaces : List NetInterface

def AgentConn.inNetwork (ac : AgentConn) (n : Network) : Bool :=
  ac.interfaces.any fun iface => iface.addrs.any fun addr =>
    (parseCIDR addr).any fun a => n.contains a.1

/-- How a request to a relay goes: whether it arrives, the addresses of the relay's machine
and its system by then, and whether the reply arrives in time. -/
structure Answer where
  delivered : Bool
  ifaces : Option (List Text)
  udp : Udp
  replied : Bool

structure Sent where
  sender : Option ℤ
  datagram : Datagram
  deriving DecidableEq

structure WakeResult where
  via : Text
  broadcast : Text
  macs : List Text
  deriving DecidableEq

def noMAC : String := "no MAC address is known for this system; it is recorded once an agent of " ++
  "version 0.2 or newer has connected"

def notSent : String := "could not send the magic packet"

def macsOf (info : List NetInterface) : List Text :=
  info.foldl (fun macs iface =>
    if (parseMAC iface.mac).isSome ∧ !macs.contains iface.mac then macs ++ [iface.mac] else macs) []

def subnetsOf (info : List NetInterface) : List (Text × Network) :=
  info.flatMap fun iface => iface.addrs.filterMap broadcast

/-- The agents that can send packets, in the order of their ids. -/
def relaysFor (agents : List AgentConn) (target : ℤ) : List AgentConn :=
  (agents.filter fun ac => ac.id ≠ target ∧ ac.wake = true).mergeSort fun a b => a.id ≤ b.id

def attempts (agents : List AgentConn) (target : ℤ) (info : List NetInterface) :
    List ((Text × Network) × AgentConn) :=
  (subnetsOf info).flatMap fun sn =>
    ((relaysFor agents target).filter fun ac => ac.inNetwork sn.2).map fun ac => (sn, ac)

def ask (macs : List Text) (addr : Text) (a : Answer) : Bool × List Datagram :=
  if a.delivered then
    let (ok, sent) := handleWake a.ifaces a.udp (some (macs, addr))
    (ok && a.replied, sent)
  else (false, [])

def tryRelays (macs : List Text) : List (((Text × Network) × AgentConn) × Answer) →
    Option (Text × AgentConn) × List Sent
  | [] => (none, [])
  | ((sn, ac), a) :: rest =>
    let (ok, sent) := ask macs sn.1 a
    let sent := sent.map (Sent.mk (some ac.id))
    if ok then (some (sn.1, ac), sent)
    else
      let (found, more) := tryRelays macs rest
      (found, sent ++ more)

def textLE : Text → Text → Bool
  | [], _ => true
  | _ :: _, [] => false
  | a :: as, b :: bs => a.toNat < b.toNat || (a.toNat = b.toNat && textLE as bs)

def compact : List Text → List Text
  | a :: b :: rest => if a = b then compact (b :: rest) else a :: compact (b :: rest)
  | rest => rest

/-- The hub's own addresses to send to. -/
def ownTargets (info : List NetInterface) : List Text :=
  compact (((subnetsOf info).map Prod.fst ++ ["255.255.255.255".toList]).mergeSort textLE)

def sendAll (macs : List Text) : List (Text × Udp) → List Text × List Sent
  | [] => ([], [])
  | (addr, udp) :: rest =>
    let (ok, sent) := send macs addr udp
    let (done, more) := sendAll macs rest
    (if ok then addr :: done else done, sent.map (Sent.mk none) ++ more)

/-- `answers` and `udps` say how the requests and the hub's own sending go, in their order. -/
def wake (agents : List AgentConn) (target : ℤ) (info : List NetInterface) (answers : ℕ → Answer)
    (udps : ℕ → Udp) : Except String WakeResult × List Sent :=
  let macs := macsOf info
  if macs = [] then (.error noMAC, [])
  else
    let tried := (attempts agents target info).zipIdx.map fun x => (x.1, answers x.2)
    match tryRelays macs tried with
    | (some (addr, ac), sent) => (.ok ⟨ac.name, addr, macs⟩, sent)
    | (none, sent) =>
      let own := (ownTargets info).zipIdx.map fun x => (x.1, udps x.2)
      let (done, more) := sendAll macs own
      if done = [] then (.error notSent, sent ++ more)
      else (.ok ⟨"hub".toList, [',', ' '].intercalate done, macs⟩, sent ++ more)

section lists
variable {agents : List AgentConn} {target : ℤ} {info : List NetInterface} {macs : List Text}

theorem mem_macsOf {mac : Text} (h : mac ∈ macsOf info) :
    (∃ iface ∈ info, iface.mac = mac) ∧ (parseMAC mac).isSome := by
  have hfold : ∀ (l : List NetInterface) (start : List Text),
      (∀ m ∈ start, (∃ iface ∈ info, iface.mac = m) ∧ (parseMAC m).isSome) → (∀ x ∈ l, x ∈ info) →
      ∀ m ∈ l.foldl (fun macs iface =>
        if (parseMAC iface.mac).isSome ∧ !macs.contains iface.mac then macs ++ [iface.mac] else macs) start,
      (∃ iface ∈ info, iface.mac = m) ∧ (parseMAC m).isSome := by
    intro l
    induction l with
    | nil => exact fun start hstart _ => hstart
    | cons x l ih =>
      intro start hstart hl
      rw [List.foldl_cons]
      refine ih _ (fun m hm => ?_) fun y hy => hl y (List.mem_cons_of_mem _ hy)
      split_ifs at hm with hx
      · rcases List.mem_append.1 hm with hm | hm
        · exact hstart m hm
        · rw [List.mem_singleton.1 hm]
          exact ⟨⟨x, hl x List.mem_cons_self, rfl⟩, hx.1⟩
      · exact hstart m hm
  exact hfold info [] (by simp) (fun _ h => h) mac h

theorem mem_subnetsOf {sn : Text × Network} :
    sn ∈ subnetsOf info ↔ ∃ iface ∈ info, ∃ addr ∈ iface.addrs, networkOf addr = some sn.2 ∧
      sn.1 = dotted sn.2.highest := by
  simp only [subnetsOf, List.mem_flatMap, List.mem_filterMap]
  constructor
  · rintro ⟨iface, hiface, addr, haddr, h⟩
    exact ⟨iface, hiface, addr, haddr, broadcast_eq_some h⟩
  · rintro ⟨iface, hiface, addr, haddr, hn, htext⟩
    refine ⟨iface, hiface, addr, haddr, ?_⟩
    rw [broadcast, hn, Option.map_some, ← htext]

theorem mem_relaysFor {ac : AgentConn} :
    ac ∈ relaysFor agents target ↔ ac ∈ agents ∧ ac.id ≠ target ∧ ac.wake = true := by
  rw [relaysFor, (List.mergeSort_perm _ _).mem_iff, List.mem_filter]
  simp

theorem mem_attempts {sn : Text × Network} {ac : AgentConn} :
    (sn, ac) ∈ attempts agents target info ↔ sn ∈ subnetsOf info ∧
      (ac ∈ agents ∧ ac.id ≠ target ∧ ac.wake = true) ∧ ac.inNetwork sn.2 = true := by
  simp only [attempts, List.mem_flatMap, List.mem_map, List.mem_filter, Prod.mk.injEq]
  constructor
  · rintro ⟨sn', hsn, ac', ⟨hrelay, hin⟩, rfl, rfl⟩
    exact ⟨hsn, mem_relaysFor.1 hrelay, hin⟩
  · rintro ⟨hsn, hrelay, hin⟩
    exact ⟨sn, hsn, ac, ⟨mem_relaysFor.2 hrelay, hin⟩, rfl, rfl⟩

theorem compact_sublist (l : List Text) : (compact l).Sublist l := by
  fun_induction compact l with
  | case1 a rest ih => exact ih.trans (List.sublist_cons_self _ _)
  | case2 a b rest hne ih => exact ih.cons_cons a
  | case3 l hl => exact List.Sublist.refl l

theorem mem_ownTargets {addr : Text} (h : addr ∈ ownTargets info) :
    addr = dotted limited ∨ ∃ sn ∈ subnetsOf info, addr = sn.1 := by
  have h := (compact_sublist _).subset h
  rw [(List.mergeSort_perm _ _).mem_iff, List.mem_append] at h
  rcases h with h | h
  · obtain ⟨sn, hsn, rfl⟩ := List.mem_map.1 h
    exact .inr ⟨sn, hsn, rfl⟩
  · rw [List.mem_singleton.1 h, dotted_limited]
    exact .inl rfl

end lists

section sending
variable {macs : List Text} {addr : Text}

theorem ask_sends (a : Answer) : Sends macs addr (ask macs addr a).1 (ask macs addr a).2 := by
  unfold ask
  split_ifs
  · dsimp only [handleWake]
    split_ifs
    · have h := send_sends macs addr a.udp
      exact ⟨h.ip, h.payload, h.count, fun hok => h.all (Bool.and_eq_true _ _ ▸ hok).1⟩
    · exact sends_nothing
  · exact sends_nothing

theorem tryRelays_spec (macs : List Text) (tried : List (((Text × Network) × AgentConn) × Answer)) :
    (∀ s ∈ (tryRelays macs tried).2, ∃ x ∈ tried, s.sender = some x.1.2.id ∧
      s.datagram ∈ (ask macs x.1.1.1 x.2).2) ∧
    ((tryRelays macs tried).1 = none → ∀ x ∈ tried, (ask macs x.1.1.1 x.2).1 = false) ∧
    ∀ addr ac, (tryRelays macs tried).1 = some (addr, ac) → ∃ a, (ask macs addr a).1 = true ∧
      ((ask macs addr a).2.map (Sent.mk (some ac.id))).Sublist (tryRelays macs tried).2 := by
  induction tried with
  | nil => simp [tryRelays]
  | cons x rest ih =>
    obtain ⟨⟨sn, ac⟩, a⟩ := x
    obtain ⟨hsent, hnone, hsome⟩ := ih
    have hown : ∀ s ∈ (ask macs sn.1 a).2.map (Sent.mk (some ac.id)), s.sender = some ac.id ∧
        s.datagram ∈ (ask macs sn.1 a).2 := by
      intro s hs
      obtain ⟨d, hd, rfl⟩ := List.mem_map.1 hs
      exact ⟨rfl, hd⟩
    simp only [tryRelays]
    split_ifs with hok
    · refine ⟨fun s hs => ⟨_, List.mem_cons_self, hown s hs⟩, by simp, fun addr ac' he => ?_⟩
      cases he
      exact ⟨a, hok, List.Sublist.refl _⟩
    · refine ⟨fun s hs => ?_, fun hn y hy => ?_, fun addr ac' he => ?_⟩
      · rcases List.mem_append.1 hs with hs | hs
        · exact ⟨_, List.mem_cons_self, hown s hs⟩
        · obtain ⟨y, hy, h⟩ := hsent s hs
          exact ⟨y, List.mem_cons_of_mem _ hy, h⟩
      · rcases List.mem_cons.1 hy with rfl | hy
        · simpa using hok
        · exact hnone hn y hy
      · obtain ⟨b, hb, hsub⟩ := hsome addr ac' he
        exact ⟨b, hb, hsub.trans (List.sublist_append_right _ _)⟩

theorem sendAll_spec (macs : List Text) (own : List (Text × Udp)) :
    (∀ s ∈ (sendAll macs own).2, s.sender = none ∧ ∃ x ∈ own, s.datagram ∈ (send macs x.1 x.2).2) ∧
    ∀ addr ∈ (sendAll macs own).1, ∃ udp, (send macs addr udp).1 = true ∧
      ((send macs addr udp).2.map (Sent.mk none)).Sublist (sendAll macs own).2 := by
  induction own with
  | nil => simp [sendAll]
  | cons x rest ih =>
    obtain ⟨target, udp⟩ := x
    obtain ⟨hsent, hdone⟩ := ih
    simp only [sendAll]
    refine ⟨fun s hs => ?_, fun addr haddr => ?_⟩
    · rcases List.mem_append.1 hs with hs | hs
      · obtain ⟨d, hd, rfl⟩ := List.mem_map.1 hs
        exact ⟨rfl, _, List.mem_cons_self, hd⟩
      · obtain ⟨hnone, y, hy, h⟩ := hsent s hs
        exact ⟨hnone, y, List.mem_cons_of_mem _ hy, h⟩
    · by_cases hold : addr ∈ (sendAll macs rest).1
      · obtain ⟨u, hu, hsub⟩ := hdone addr hold
        exact ⟨u, hu, hsub.trans (List.sublist_append_right _ _)⟩
      · split_ifs at haddr with hok
        · rw [(List.mem_cons.1 haddr).resolve_right hold]
          exact ⟨udp, hok, List.sublist_append_left _ _⟩
        · exact absurd haddr hold

end sending

def HasNetwork (info : List NetInterface) (n : Network) : Prop :=
  ∃ iface ∈ info, ∃ addr ∈ iface.addrs, networkOf addr = some n

/-- A packet that wakes the system, sent where the sender may. -/
structure Proper (agents : List AgentConn) (target : ℤ) (info : List NetInterface) (s : Sent) :
    Prop where
  port : s.datagram.port = 9
  payload : ∃ iface ∈ info, ∃ hw, parseMAC iface.mac = some hw ∧ s.datagram.payload = packetFor hw
  own : s.sender = none → s.datagram.ip = limited ∨
    ∃ n, HasNetwork info n ∧ n.Broadcasts s.datagram.ip
  relay : ∀ id, s.sender = some id → id ≠ target ∧ ∃ ac ∈ agents, ac.id = id ∧ ac.wake = true ∧
    ∃ n, HasNetwork info n ∧ ac.inNetwork n = true ∧ n.Broadcasts s.datagram.ip

section call
variable {agents : List AgentConn} {target : ℤ} {info : List NetInterface}

theorem Sends.mac {addr : Text} {ok : Bool} {sent : List Datagram} {d : Datagram}
    (h : Sends (macsOf info) addr ok sent) (hd : d ∈ sent) :
    ∃ iface ∈ info, ∃ hw, parseMAC iface.mac = some hw ∧ d.payload = packetFor hw := by
  obtain ⟨mac, hmac, hw, hparse, hpayload⟩ := h.payload d hd
  obtain ⟨⟨iface, hiface, rfl⟩, -⟩ := mem_macsOf hmac
  exact ⟨iface, hiface, hw, hparse, hpayload⟩

theorem Sends.to_dotted {macs : List Text} {ip : BitVec 32} {ok : Bool} {sent : List Datagram}
    {d : Datagram} (h : Sends macs (dotted ip) ok sent) (hd : d ∈ sent) : d.ip = ip := by
  have hip := (h.ip d hd).1
  rw [to4_parseIP_dotted] at hip
  exact (Option.some.inj hip).symm

theorem proper_relay {sn : Text × Network} {ac : AgentConn} {a : Answer} {d : Datagram}
    (hx : (sn, ac) ∈ attempts agents target info) (hd : d ∈ (ask (macsOf info) sn.1 a).2) :
    Proper agents target info ⟨some ac.id, d⟩ := by
  obtain ⟨hsn, ⟨hac, hid, hwake⟩, hin⟩ := mem_attempts.1 hx
  obtain ⟨iface, hiface, addr, haddr, hn, htext⟩ := mem_subnetsOf.1 hsn
  have h : Sends (macsOf info) sn.1 _ _ := ask_sends a
  refine ⟨(h.ip d hd).2, h.mac hd, by simp, fun id he => ?_⟩
  cases he
  rw [htext] at h hd
  refine ⟨hid, ac, hac, rfl, hwake, sn.2, ⟨iface, hiface, addr, haddr, hn⟩, hin, ?_⟩
  rw [Sends.to_dotted (ask_sends a) hd]
  exact sn.2.broadcasts_highest

theorem proper_own {addr : Text} {udp : Udp} {d : Datagram} (hx : addr ∈ ownTargets info)
    (hd : d ∈ (send (macsOf info) addr udp).2) : Proper agents target info ⟨none, d⟩ := by
  have h := send_sends (macsOf info) addr udp
  refine ⟨(h.ip d hd).2, h.mac hd, fun _ => ?_, by simp⟩
  rcases mem_ownTargets hx with rfl | ⟨sn, hsn, rfl⟩
  · exact .inl (h.to_dotted hd)
  · obtain ⟨iface, hiface, cidr, hcidr, hn, htext⟩ := mem_subnetsOf.1 hsn
    rw [htext] at h hd
    refine .inr ⟨sn.2, ⟨iface, hiface, cidr, hcidr, hn⟩, ?_⟩
    rw [(send_sends _ _ udp).to_dotted hd]
    exact sn.2.broadcasts_highest

variable {answers : ℕ → Answer}

def tries (agents : List AgentConn) (target : ℤ) (info : List NetInterface) (answers : ℕ → Answer) :
    List (((Text × Network) × AgentConn) × Answer) :=
  (attempts agents target info).zipIdx.map fun x => (x.1, answers x.2)

theorem mem_tries {x : ((Text × Network) × AgentConn) × Answer} :
    x ∈ tries agents target info answers ↔
      ∃ k, (attempts agents target info)[k]? = some x.1 ∧ x.2 = answers k := by
  constructor
  · intro hx
    obtain ⟨y, hy, rfl⟩ := List.mem_map.1 hx
    exact ⟨y.2, List.mem_zipIdx_iff_getElem?.1 hy, rfl⟩
  · rintro ⟨k, hk, ha⟩
    exact List.mem_map.2 ⟨(x.1, k), List.mem_zipIdx_iff_getElem?.2 hk, by rw [← ha]⟩

theorem wake_cases (agents : List AgentConn) (target : ℤ) (info : List NetInterface)
    (answers : ℕ → Answer) (udps : ℕ → Udp) :
    (macsOf info = [] ∧ wake agents target info answers udps = (.error noMAC, [])) ∨
    (∃ addr ac, (tryRelays (macsOf info) (tries agents target info answers)).1 = some (addr, ac) ∧
      wake agents target info answers udps = (.ok ⟨ac.name, addr, macsOf info⟩,
        (tryRelays (macsOf info) (tries agents target info answers)).2)) ∨
    ∃ own : List (Text × Udp), (∀ x ∈ own, x.1 ∈ ownTargets info) ∧
      (tryRelays (macsOf info) (tries agents target info answers)).1 = none ∧
      (wake agents target info answers udps).2 =
        (tryRelays (macsOf info) (tries agents target info answers)).2 ++
          (sendAll (macsOf info) own).2 ∧
      ∀ r, (wake agents target info answers udps).1 = .ok r → r.macs = macsOf info ∧
        (sendAll (macsOf info) own).1 ≠ [] := by
  by_cases hmacs : macsOf info = []
  · exact .inl ⟨hmacs, if_pos hmacs⟩
  · refine .inr ?_
    simp only [wake, if_neg hmacs]
    have htries : (attempts agents target info).zipIdx.map (fun x => (x.1, answers x.2)) =
        tries agents target info answers := rfl
    rw [htries]
    rcases htry : tryRelays (macsOf info) (tries agents target info answers) with ⟨_ | ⟨addr, ac⟩, sent⟩
    · refine .inr ⟨(ownTargets info).zipIdx.map fun x => (x.1, udps x.2), fun x hx => ?_, rfl, ?_, ?_⟩
      · obtain ⟨y, hy, rfl⟩ := List.mem_map.1 hx
        exact List.mem_of_getElem? (List.mem_zipIdx_iff_getElem?.1 hy)
      · dsimp only
        split_ifs <;> rfl
      · intro r hr
        dsimp only at hr
        split_ifs at hr with hdone
        cases hr
        exact ⟨rfl, hdone⟩
    · exact .inl ⟨addr, ac, rfl, rfl⟩

theorem Sends.three {sender : Option ℤ} {addr : Text} {ok : Bool} {sent : List Datagram}
    {all : List Sent} (h : Sends (macsOf info) addr ok sent) (hok : ok = true)
    (hsub : (sent.map (Sent.mk sender)).Sublist all) : macsOf info ≠ [] ∧
      ∃ sender, ∀ mac ∈ macsOf info, ∃ hw, parseMAC mac = some hw ∧
        3 ≤ all.countP fun s => s.sender = sender ∧ s.datagram.payload = packetFor hw := by
  refine ⟨(h.all hok).1, sender, fun mac hmac => ?_⟩
  obtain ⟨hw, hparse, hthree⟩ := (h.all hok).2 mac hmac
  refine ⟨hw, hparse, hthree.trans (le_trans (le_of_eq ?_) hsub.countP_le)⟩
  rw [List.countP_map]
  exact List.countP_congr fun d _ => by simp

theorem proper_tried {s : Sent}
    (h : s ∈ (tryRelays (macsOf info) (tries agents target info answers)).2) :
    Proper agents target info s ∧ s.sender ≠ none := by
  obtain ⟨⟨⟨sn, ac⟩, a⟩, hx, hsender, hd⟩ := (tryRelays_spec _ _).1 s h
  obtain ⟨k, hk, -⟩ := mem_tries.1 hx
  have hproper := proper_relay (List.mem_of_getElem? hk) hd
  obtain ⟨sender, d⟩ := s
  cases hsender
  exact ⟨hproper, by simp⟩

end call

/-- For every system, every set of agents and everything that may go wrong: all that is sent
are magic packets for MAC addresses of the system, by agents that have an address in one of
its networks, to the highest address there, or by the hub; if a success is reported, one
sender sent the packet of every address three times; without an address the hub fails at once;
and with one it takes over, or fails, only after it asked each agent in each of the networks
and none confirmed. -/
theorem wake_reaches (agents : List AgentConn) (target : ℤ) (info : List NetInterface)
    (answers : ℕ → Answer) (udps : ℕ → Udp) :
    (∀ s ∈ (wake agents target info answers udps).2, Proper agents target info s) ∧
    (∀ r, (wake agents target info answers udps).1 = .ok r → r.macs = macsOf info ∧ r.macs ≠ [] ∧
      ∃ sender, ∀ mac ∈ r.macs, ∃ hw, parseMAC mac = some hw ∧
        3 ≤ (wake agents target info answers udps).2.countP fun s =>
          s.sender = sender ∧ s.datagram.payload = packetFor hw) ∧
    (macsOf info = [] → wake agents target info answers udps = (.error noMAC, [])) ∧
    ((macsOf info ≠ [] ∧ ∃ e, (wake agents target info answers udps).1 = .error e) ∨
      (∃ s ∈ (wake agents target info answers udps).2, s.sender = none) →
      ∀ ac ∈ agents, ac.id ≠ target → ac.wake = true → ∀ n, HasNetwork info n →
        ac.inNetwork n = true → ∃ k, (ask (macsOf info) (dotted n.highest) (answers k)).1 = false ∧
          (attempts agents target info)[k]? = some ((dotted n.highest, n), ac)) := by
  have hspec := tryRelays_spec (macsOf info) (tries agents target info answers)
  rcases wake_cases agents target info answers udps with
    ⟨hmacs, hwake⟩ | ⟨addr, ac, hfound, hwake⟩ | ⟨own, hown, hnone, hsent, hok⟩
  · rw [hwake]
    refine ⟨by simp, by simp, fun _ => rfl, fun h => ?_⟩
    rcases h with ⟨hne, -⟩ | ⟨s, hs, -⟩
    · exact absurd hmacs hne
    · cases hs
  · refine ⟨fun s hs => ?_, fun r hr => ?_, fun h => if_pos h, fun h => ?_⟩
    · rw [hwake] at hs
      exact (proper_tried hs).1
    · rw [hwake] at hr ⊢
      cases hr
      obtain ⟨a, hok, hsub⟩ := hspec.2.2 addr ac hfound
      exact ⟨rfl, (ask_sends a).three hok hsub⟩
    · rw [hwake] at h
      rcases h with ⟨-, e, h⟩ | ⟨s, hs, hsender⟩
      · cases h
      · exact absurd hsender (proper_tried hs).2
  · have hall := sendAll_spec (macsOf info) own
    refine ⟨fun s hs => ?_, fun r hr => ?_, fun h => if_pos h, fun _ ac hac hid hcan n hn hin => ?_⟩
    · rw [hsent] at hs
      rcases List.mem_append.1 hs with hs | hs
      · exact (proper_tried hs).1
      · obtain ⟨hsender, x, hx, hd⟩ := hall.1 s hs
        have hproper : Proper agents target info ⟨none, s.datagram⟩ := proper_own (hown x hx) hd
        obtain ⟨sender, d⟩ := s
        cases hsender
        exact hproper
    · obtain ⟨hmacs, hdone⟩ := hok r hr
      obtain ⟨addr, haddr⟩ := List.exists_mem_of_ne_nil _ hdone
      obtain ⟨udp, hsend, hsub⟩ := hall.2 addr haddr
      rw [hmacs, hsent]
      exact ⟨rfl, (send_sends _ _ udp).three hsend (hsub.trans (List.sublist_append_right _ _))⟩
    · obtain ⟨iface, hiface, cidr, hcidr, hcidrn⟩ := hn
      have hmem : ((dotted n.highest, n), ac) ∈ attempts agents target info :=
        mem_attempts.2 ⟨mem_subnetsOf.2 ⟨iface, hiface, cidr, hcidr, hcidrn, rfl⟩, ⟨hac, hid, hcan⟩, hin⟩
      obtain ⟨k, hk⟩ := List.mem_iff_getElem?.1 hmem
      exact ⟨k, hspec.2.1 hnone (_, answers k) (mem_tries.2 ⟨k, hk, rfl⟩), hk⟩

end Lotse.Wol
