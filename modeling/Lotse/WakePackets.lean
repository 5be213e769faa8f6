import Lotse.NetAddr

set_option autoImplicit false

/-!
# Magic packets

The package `wol` and the agent's answer to a wake request: MAC addresses as `net.ParseMAC`
reads them, the broadcast address of a network, and what is sent. An agent compares the
address it is asked to send to as a text, so that it matters that the text of an address
reads back as that address.
-/
namespace Lotse.Wol
open Netip
open Versions (cut parseDigits digitsValue)

abbrev Text := List Char

def hexByte (a b : Char) : Option UInt8 := do
  let high ← hexDigit a
  let low ← hexDigit b
  return (16 * high + low).toUInt8

def macBytes (sep : Char) : Text → Option (List UInt8)
  | [a, b] => (hexByte a b).map fun x => [x]
  | a :: b :: c :: rest =>
    if c = sep then do
      let x ← hexByte a b
      let more ← macBytes sep rest
      return x :: more
    else none
  | _ => none

def macWords : Text → Option (List UInt8)
  | [a, b, c, d] => do
    let x ← hexByte a b
    let y ← hexByte c d
    return [x, y]
  | a :: b :: c :: d :: e :: rest =>
    if e = '.' then do
      let x ← hexByte a b
      let y ← hexByte c d
      let more ← macWords rest
      return x :: y :: more
    else none
  | _ => none

def macDigits : Text → Option (List UInt8)
  | [] => some []
  | [_] => none
  | a :: b :: rest => do
    let x ← hexByte a b
    let more ← macDigits rest
    return x :: more

/-- `net.ParseMAC`, which since Go 1.27 also reads an address without separators. -/
def netParseMAC (s : Text) : Option (List UInt8) :=
  if s.length < 12 then none
  else
    let hw := match s[2]? with
      | some ':' => macBytes ':' s
      | some '-' => macBytes '-' s
      | _ => if s[4]? = some '.' then macWords s else macDigits s
    hw.filter fun hw => hw.length = 6 || hw.length = 8 || hw.length = 20

example : ["00:11:22:33:44:55", "0011.2233.4455", "001122334455"].map (netParseMAC ·.toList) =
    List.replicate 3 (some [0, 0x11, 0x22, 0x33, 0x44, 0x55]) := by
  decide +kernel

def Unicast (hw : List UInt8) : Prop :=
  hw.length = 6 ∧ hw.headD 0 &&& 1 ≠ 1 ∧ hw ≠ List.replicate 6 0

instance (hw : List UInt8) : Decidable (Unicast hw) := inferInstanceAs (Decidable (_ ∧ _))

def parseMAC (mac : Text) : Option (List UInt8) := (netParseMAC mac).filter fun hw => Unicast hw

def packetFor (hw : List UInt8) : List UInt8 := List.replicate 6 0xff ++ (List.replicate 16 hw).flatten

def magicPacket (mac : Text) : Option (List UInt8) := (parseMAC mac).map packetFor

def to4 (a : Addr) : Option (BitVec 32) :=
  match a.unmap with
  | .v4 bits => some bits
  | .v6 _ _ => none

def parseIP (s : Text) : Option Addr := (parseAddr s).filter fun a => a.zone = []

def cidrMask (ones : ℕ) : BitVec 32 := BitVec.allOnes 32 <<< (32 - ones)

structure Network where
  ip : BitVec 32
  ones : ℕ
  deriving DecidableEq

namespace Network

def contains (n : Network) (a : Addr) : Bool :=
  match to4 a with
  | some x => n.ip &&& cidrMask n.ones == x &&& cidrMask n.ones
  | none => false

def highest (n : Network) : BitVec 32 := n.ip ||| ~~~ cidrMask n.ones

end Network

/-- `net.ParseCIDR`: the address, and how many bits name its network. -/
def parseCIDR (s : Text) : Option (Addr × ℕ) :=
  match cut '/' s with
  | (addr, mask, true) => do
    let a ← parseIP addr
    let n ← parseDigits mask
    if n ≤ a.bitLen then some (a, n) else none
  | _ => none

/-- The network of an interface's address, if it has a broadcast address. -/
def networkOf (cidr : Text) : Option Network :=
  match parseCIDR cidr with
  | some (.v4 ip, ones) => if ones ≤ 30 then some ⟨ip &&& cidrMask ones, ones⟩ else none
  | _ => none

def broadcast (cidr : Text) : Option (Text × Network) :=
  (networkOf cidr).map fun n => (dotted n.highest, n)

def limited : BitVec 32 := 0xffffffff

/-- `ifaces` are the addresses of this machine, if the system tells them. -/
def isLocalBroadcast (ifaces : Option (List Text)) (addr : Text) : Bool :=
  if addr = "255.255.255.255".toList then true
  else (ifaces.getD []).any fun a => (broadcast a).any fun b => b.1 == addr

structure Datagram where
  ip : BitVec 32
  port : ℕ
  payload : List UInt8
  deriving DecidableEq

/-- How the system answers: whether there is a socket, and how many writes succeed. -/
structure Udp where
  dial : Bool
  writes : ℕ

def send (macs : List Text) (addr : Text) (udp : Udp) : Bool × List Datagram :=
  match (parseIP addr).bind to4 with
  | none => (false, [])
  | some ip =>
    if macs = [] then (false, [])
    else
      match macs.mapM magicPacket with
      | none => (false, [])
      | some packets =>
        if udp.dial = false then (false, [])
        else
          let all := (List.replicate 3 packets).flatten.map fun payload => Datagram.mk ip 9 payload
          (all.length ≤ udp.writes, all.take udp.writes)

/-- An agent's answer to a wake request, `none` standing for a payload that cannot be read. -/
def handleWake (ifaces : Option (List Text)) (udp : Udp) : Option (List Text × Text) →
    Bool × List Datagram
  | none => (false, [])
  | some (macs, addr) => if isLocalBroadcast ifaces addr then send macs addr udp else (false, [])

theorem octet_toDigits : ∀ n < 256, octet (Nat.toDigits 10 n) = some n := by
  decide +kernel

theorem dot_notMem (n : ℕ) : '.' ∉ Nat.toDigits 10 n := by
  intro h
  obtain ⟨d, hd, hc⟩ := mem_toDigits (by decide) h
  have hne : ∀ d < 10, '.' ≠ Nat.digitChar d := by decide
  exact hne d hd hc

theorem octets_eq (ip : BitVec 32) : ((ip.toNat / 2 ^ 24 % 256 * 256 + ip.toNat / 2 ^ 16 % 256) * 256 +
    ip.toNat / 2 ^ 8 % 256) * 256 + ip.toNat / 2 ^ 0 % 256 = ip.toNat := by
  have := ip.isLt
  omega

theorem parseIPv4_dotted (ip : BitVec 32) : parseIPv4 (dotted ip) = some ip := by
  have hsplit : (dotted ip).splitOn '.' =
      [24, 16, 8, 0].map fun i => Nat.toDigits 10 (ip.toNat / 2 ^ i % 256) := by
    refine List.splitOn_intercalate '.' (fun s hs => ?_) (by simp)
    obtain ⟨i, -, rfl⟩ := List.mem_map.1 hs
    exact dot_notMem _
  have hoctet : ∀ i, octet (Nat.toDigits 10 (ip.toNat / 2 ^ i % 256)) =
      some (ip.toNat / 2 ^ i % 256) := fun i => octet_toDigits _ (Nat.mod_lt _ (by decide))
  simp only [parseIPv4, hsplit, List.map_cons, List.map_nil, hoctet, octets_eq]
  rw [BitVec.ofNat_toNat, BitVec.setWidth_eq]

theorem parseIP_dotted (ip : BitVec 32) : parseIP (dotted ip) = some (.v4 ip) := by
  have hdot : '.' ∈ dotted ip := by simp [dotted, List.intercalate, List.intersperse]
  have hfind : (dotted ip).find? (fun c => c == '.' || c == ':' || c == '%') = some '.' := by
    cases hfind : (dotted ip).find? (fun c => c == '.' || c == ':' || c == '%') with
    | none => simpa using List.find?_eq_none.1 hfind '.' hdot
    | some c =>
      have hsep := List.find?_some hfind
      rcases mem_dotted (List.mem_of_find?_eq_some hfind) with rfl | ⟨d, hd, rfl⟩
      · rfl
      · have hdigit : ∀ d < 10, (Nat.digitChar d == '.' || Nat.digitChar d == ':' ||
            Nat.digitChar d == '%') = false := by decide
        rw [hdigit d hd] at hsep
        cases hsep
  rw [parseIP, parseAddr, hfind]
  simp [parseIPv4_dotted, Addr.zone]

theorem dotted_limited : dotted limited = "255.255.255.255".toList := by decide

namespace Network
variable (n : Network)

theorem contains_highest : n.contains (.v4 n.highest) = true := by
  simp only [contains, to4, Addr.unmap, highest, beq_iff_eq]
  ext i
  simp
  grind

theorem le_highest {x : BitVec 32} (h : n.contains (.v4 x) = true) : x ≤ n.highest := by
  simp only [contains, to4, Addr.unmap, beq_iff_eq] at h
  have hor : x ||| n.highest = n.highest := by
    ext i hi
    have hbit := congrArg (·[i]) h
    simp only [BitVec.getElem_and] at hbit
    simp only [highest, BitVec.getElem_or, BitVec.getElem_not]
    cases hm : (cidrMask n.ones)[i] <;> simp_all
  rw [BitVec.le_def, ← hor, BitVec.toNat_or]
  exact Nat.left_le_or

end Network

def Network.Broadcasts (n : Network) (ip : BitVec 32) : Prop :=
  n.contains (.v4 ip) = true ∧ ∀ x, n.contains (.v4 x) = true → x ≤ ip

theorem Network.broadcasts_highest (n : Network) : n.Broadcasts n.highest :=
  ⟨n.contains_highest, fun _ => n.le_highest⟩

theorem to4_parseIP_dotted (ip : BitVec 32) : (parseIP (dotted ip)).bind to4 = some ip := by
  rw [parseIP_dotted]
  rfl

theorem broadcast_eq_some {cidr addr : Text} {n : Network} (h : broadcast cidr = some (addr, n)) :
    networkOf cidr = some n ∧ addr = dotted n.highest := by
  obtain ⟨m, hm, he⟩ := Option.map_eq_some_iff.1 h
  cases he
  exact ⟨hm, rfl⟩

theorem networkOf_ones {cidr : Text} {n : Network} (h : networkOf cidr = some n) : n.ones ≤ 30 := by
  unfold networkOf at h
  split at h
  · split_ifs at h with hones
    cases h
    exact hones
  · cases h

theorem isLocalBroadcast_iff {ifaces : Option (List Text)} {addr : Text} :
    isLocalBroadcast ifaces addr = true ↔ addr = dotted limited ∨
      ∃ cidr ∈ ifaces.getD [], ∃ n, networkOf cidr = some n ∧ addr = dotted n.highest := by
  unfold isLocalBroadcast
  rw [← dotted_limited]
  split_ifs with hlimited
  · exact ⟨fun _ => .inl hlimited, fun _ => rfl⟩
  · simp only [List.any_eq_true, Option.any_eq_true, beq_iff_eq, hlimited, false_or]
    constructor
    · rintro ⟨cidr, hmem, b, hb, rfl⟩
      obtain ⟨hn, haddr⟩ := broadcast_eq_some hb
      exact ⟨cidr, hmem, b.2, hn, haddr⟩
    · rintro ⟨cidr, hmem, n, hn, rfl⟩
      exact ⟨cidr, hmem, _, by rw [broadcast, hn, Option.map_some], rfl⟩

structure Sends (macs : List Text) (addr : Text) (ok : Bool) (sent : List Datagram) : Prop where
  ip : ∀ d ∈ sent, (parseIP addr).bind to4 = some d.ip ∧ d.port = 9
  payload : ∀ d ∈ sent, ∃ mac ∈ macs, ∃ hw, parseMAC mac = some hw ∧ d.payload = packetFor hw
  count : ∀ hw, sent.countP (fun d => d.payload = packetFor hw) ≤
    3 * macs.countP fun mac => parseMAC mac = some hw
  all : ok = true → macs ≠ [] ∧ ∀ mac ∈ macs, ∃ hw, parseMAC mac = some hw ∧
    3 ≤ sent.countP fun d => d.payload = packetFor hw

theorem sends_nothing {macs : List Text} {addr : Text} : Sends macs addr false [] :=
  ⟨by simp, by simp, by simp, by simp⟩

theorem packetFor_inj {hw hw' : List UInt8} (h : packetFor hw = packetFor hw') : hw = hw' := by
  have hflat : (List.replicate 16 hw).flatten = (List.replicate 16 hw').flatten :=
    List.append_cancel_left h
  have hlen : hw.length = hw'.length := by
    have := congrArg List.length hflat
    simp only [List.length_flatten, List.map_replicate, List.sum_replicate, smul_eq_mul] at this
    omega
  rw [List.replicate_succ, List.replicate_succ, List.flatten_cons, List.flatten_cons] at hflat
  exact (List.append_inj hflat hlen).1

theorem mapM_magicPacket {macs : List Text} {packets : List (List UInt8)}
    (h : macs.mapM magicPacket = some packets) :
    (∀ hw, packets.countP (· = packetFor hw) = macs.countP fun mac => parseMAC mac = some hw) ∧
    (∀ p ∈ packets, ∃ mac ∈ macs, ∃ hw, parseMAC mac = some hw ∧ p = packetFor hw) ∧
    ∀ mac ∈ macs, ∃ hw, parseMAC mac = some hw ∧ packetFor hw ∈ packets := by
  induction macs generalizing packets with
  | nil =>
    cases h
    simp
  | cons mac macs ih =>
    rw [List.mapM_cons] at h
    obtain ⟨p, hp, h⟩ := Option.bind_eq_some_iff.1 h
    obtain ⟨ps, hps, h⟩ := Option.bind_eq_some_iff.1 h
    cases h
    obtain ⟨hw, hmac, rfl⟩ := Option.map_eq_some_iff.1 hp
    obtain ⟨hcount, hfrom, hto⟩ := ih hps
    refine ⟨fun hw' => ?_, fun q hq => ?_, fun m hm => ?_⟩
    · have hsame : packetFor hw = packetFor hw' ↔ parseMAC mac = some hw' := by
        rw [hmac, Option.some.injEq]
        exact ⟨packetFor_inj, congrArg packetFor⟩
      simp only [List.countP_cons, hcount, decide_eq_true_eq, hsame]
    · rcases List.mem_cons.1 hq with rfl | hq
      · exact ⟨mac, List.mem_cons_self, hw, hmac, rfl⟩
      · obtain ⟨m, hm, hrest⟩ := hfrom q hq
        exact ⟨m, List.mem_cons_of_mem _ hm, hrest⟩
    · rcases List.mem_cons.1 hm with rfl | hm
      · exact ⟨hw, hmac, List.mem_cons_self⟩
      · obtain ⟨hw', hmac', hmem⟩ := hto m hm
        exact ⟨hw', hmac', List.mem_cons_of_mem _ hmem⟩

theorem send_sends (macs : List Text) (addr : Text) (udp : Udp) :
    Sends macs addr (send macs addr udp).1 (send macs addr udp).2 := by
  unfold send
  split
  · exact sends_nothing
  · rename_i ip hip
    by_cases hmacs : macs = []
    · rw [if_pos hmacs]
      exact sends_nothing
    · rw [if_neg hmacs]
      split
      · exact sends_nothing
      · rename_i packets hpackets
        split_ifs
        · exact sends_nothing
        · obtain ⟨hcount, hfrom, hto⟩ := mapM_magicPacket hpackets
          have hmem : ∀ d ∈ (List.replicate 3 packets).flatten.map (Datagram.mk ip 9 ·),
              d.ip = ip ∧ d.port = 9 ∧ d.payload ∈ packets := by
            intro d hd
            obtain ⟨payload, hp, rfl⟩ := List.mem_map.1 hd
            obtain ⟨ps, hps, hp⟩ := List.mem_flatten.1 hp
            rw [List.eq_of_mem_replicate hps] at hp
            exact ⟨rfl, rfl, hp⟩
          have hthrice : ∀ hw, ((List.replicate 3 packets).flatten.map (Datagram.mk ip 9 ·)).countP
              (fun d => d.payload = packetFor hw) = 3 * packets.countP (· = packetFor hw) := by
            intro hw
            simp only [List.countP_map, List.replicate, List.flatten_cons, List.flatten_nil,
              List.countP_append, List.append_nil, Function.comp_def]
            omega
          dsimp only
          refine ⟨fun d hd => ?_, fun d hd => ?_, fun hw => ?_,
            fun hok => ⟨hmacs, fun mac hmac => ?_⟩⟩
          · obtain ⟨rfl, hport, -⟩ := hmem d (List.mem_of_mem_take hd)
            exact ⟨hip, hport⟩
          · exact hfrom _ (hmem d (List.mem_of_mem_take hd)).2.2
          · rw [← hcount hw, ← hthrice hw]
            exact (List.take_sublist _ _).countP_le
          · obtain ⟨hw, hparse, hpacket⟩ := hto mac hmac
            refine ⟨hw, hparse, ?_⟩
            rw [List.take_of_length_le (of_decide_eq_true hok)]
            have hone : 1 ≤ packets.countP (· = packetFor hw) :=
              List.countP_pos_iff.2 ⟨_, hpacket, by simp⟩
            rw [hthrice hw]
            omega

theorem unicast_of_parseMAC {mac : Text} {hw : List UInt8} (h : parseMAC mac = some hw) :
    Unicast hw := by
  obtain ⟨-, hunicast⟩ := Option.filter_eq_some_iff.1 h
  exact of_decide_eq_true hunicast

/-- Whatever a hub asks for: an agent only sends magic packets for single machines, to the
limited broadcast address or to the highest address of a network it is attached to, at most
three for each MAC address it was given, and it confirms only if it has sent all three. -/
theorem relay_sends_locally (ifaces : Option (List Text)) (udp : Udp)
    (msg : Option (List Text × Text)) :
    (∀ d ∈ (handleWake ifaces udp msg).2, d.port = 9 ∧
      (d.ip = limited ∨ ∃ cidr ∈ ifaces.getD [], ∃ n, networkOf cidr = some n ∧ n.ones ≤ 30 ∧
        n.Broadcasts d.ip) ∧
      ∃ hw, Unicast hw ∧ d.payload = packetFor hw) ∧
    (∀ hw, (handleWake ifaces udp msg).2.countP (fun d => d.payload = packetFor hw) ≤
      3 * ((msg.elim [] Prod.fst).countP fun mac => parseMAC mac = some hw)) ∧
    ((handleWake ifaces udp msg).1 = true → ∃ macs addr, msg = some (macs, addr) ∧ macs ≠ [] ∧
      ∀ mac ∈ macs, ∃ hw, parseMAC mac = some hw ∧
        3 ≤ (handleWake ifaces udp msg).2.countP fun d => d.payload = packetFor hw) := by
  cases msg with
  | none => simp [handleWake]
  | some m =>
    obtain ⟨macs, addr⟩ := m
    unfold handleWake
    dsimp only
    split_ifs with hlocal
    · have h := send_sends macs addr udp
      refine ⟨fun d hd => ⟨(h.ip d hd).2, ?_, ?_⟩, h.count, fun hok => ⟨macs, addr, rfl, h.all hok⟩⟩
      · -- the text that passed the check reads as the address it was made from
        have hip := (h.ip d hd).1
        rcases isLocalBroadcast_iff.1 hlocal with rfl | ⟨cidr, hcidr, n, hn, rfl⟩
        · rw [to4_parseIP_dotted] at hip
          exact .inl (Option.some.inj hip).symm
        · rw [to4_parseIP_dotted] at hip
          refine .inr ⟨cidr, hcidr, n, hn, networkOf_ones hn, ?_⟩
          rw [← Option.some.inj hip]
          exact n.broadcasts_highest
      · obtain ⟨mac, -, hw, hparse, hpayload⟩ := h.payload d hd
        exact ⟨hw, unicast_of_parseMAC hparse, hpayload⟩
    · exact ⟨by simp, by simp, by simp⟩

example : handleWake (some ["192.168.1.20/24".toList]) ⟨true, 2⟩
    (some (["02:00:00:00:00:99".toList], "192.168.1.255".toList)) =
    (false, List.replicate 2 ⟨0xc0a801ff, 9, packetFor [2, 0, 0, 0, 0, 0x99]⟩) := by
  decide +kernel

end Lotse.Wol
