import Lotse.NetAddr
import Lotse.AdminMachine

set_option autoImplicit false

namespace Lotse.Proxies
open Netip
open Admins (trimSpace)

def split (s : String) : List String := (s.toList.splitOn ',').map String.ofList

def parseProxy (quote : String → String) (f : String) : Except String Prefix :=
  match parsePrefix f.toList with
  | some p => .ok p.masked
  | none =>
    match parseAddr f.toList with
    | none => .error (quote f ++ " is not an IP address or CIDR range")
    | some a => .ok ⟨a.unmap, a.unmap.bitLen⟩

/-- `HUB_TRUSTED_PROXIES`: IP addresses and CIDR ranges separated by commas. -/
def parseProxies (quote : String → String) (s : String) : Except String (List Prefix) :=
  (((split s).map trimSpace).filter (· ≠ "")).mapM (parseProxy quote)

/-- The lines of X-Forwarded-For are in the order of the header. -/
structure Request where
  remoteAddr : String
  forwardedFor : List String
  deriving DecidableEq

section
variable (proxies : List Prefix)

def trustedProxy (a : Addr) : Bool := proxies.any (·.contains a.unmap)

def parseHop (hop : String) : Option Addr := parseAddr (trimSpace hop).toList

/-- The loop of `forwardedFor`, over the hops from the right. -/
def firstUntrusted : List String → Option Addr
  | [] => none
  | hop :: hops =>
    match parseHop hop with
    | none => none
    | some a => if trustedProxy proxies a then firstUntrusted hops else some a.unmap

def Request.hops (r : Request) : List String := r.forwardedFor.flatMap split

def trustedPeer (r : Request) : Bool :=
  (parseAddrPort r.remoteAddr.toList).any (trustedProxy proxies)

def forwardedFor (r : Request) : Option Addr :=
  if trustedPeer proxies r then firstUntrusted proxies r.hops.reverse else none

def realIP (r : Request) : Request :=
  if proxies = [] then r
  else
    match forwardedFor proxies r with
    | some ip => { r with remoteAddr := String.ofList (addrPortText ip 0) }
    | none => r

end

def clientIP (r : Request) : String :=
  match splitHostPort r.remoteAddr.toList with
  | none => r.remoteAddr
  | some host => String.ofList host

def TrustedHop (proxies : List Prefix) (hop : String) : Prop :=
  ∃ a, parseHop hop = some a ∧ trustedProxy proxies a = true

/-- Among the entries of X-Forwarded-For, `client` parses to an untrusted address and
everything to its right to a trusted one. -/
structure Appended (proxies : List Prefix) (entries forged : List String) (client : String)
    (hops : List String) (a : Addr) : Prop where
  entries_eq : entries = forged ++ client :: hops
  parses : parseHop client = some a
  untrusted : trustedProxy proxies a = false
  trusted : ∀ hop ∈ hops, TrustedHop proxies hop

/-- `RemoteAddr` is the address, and `clientIP` reads it from there. A zone with a bracket
is not readable to `net.SplitHostPort`: then `clientIP` is `RemoteAddr` as it is. -/
def ComesFrom (r : Request) (a : Addr) : Prop :=
  r.remoteAddr = String.ofList (addrPortText a 0) ∧
    clientIP r = String.ofList (if a.zone.any bracket then addrPortText a 0 else a.text)

section scan
variable {proxies : List Prefix} {hop : String} {hops rest : List String} {a ip : Addr}

theorem firstUntrusted_append (h : ∀ hop ∈ hops, TrustedHop proxies hop) (rest : List String) :
    firstUntrusted proxies (hops ++ rest) = firstUntrusted proxies rest := by
  induction hops with
  | nil => rfl
  | cons hop hops ih =>
    obtain ⟨a, hparse, htrusted⟩ := h hop List.mem_cons_self
    rw [List.cons_append, firstUntrusted, hparse]
    simp only [htrusted, if_true]
    exact ih fun hop hmem => h hop (List.mem_cons_of_mem _ hmem)

theorem firstUntrusted_cons (hparse : parseHop hop = some a)
    (huntrusted : trustedProxy proxies a = false) :
    firstUntrusted proxies (hop :: rest) = some a.unmap := by
  simp [firstUntrusted, hparse, huntrusted]

theorem exists_of_firstUntrusted {scanned : List String}
    (h : firstUntrusted proxies scanned = some ip) :
    ∃ hops client rest a, scanned = hops ++ client :: rest ∧ parseHop client = some a ∧
      trustedProxy proxies a = false ∧ (∀ hop ∈ hops, TrustedHop proxies hop) ∧ ip = a.unmap := by
  induction scanned with
  | nil => cases h
  | cons hop scanned ih =>
    unfold firstUntrusted at h
    cases hparse : parseHop hop with
    | none =>
      rw [hparse] at h
      cases h
    | some a =>
      rw [hparse] at h
      simp only at h
      cases htrusted : trustedProxy proxies a with
      | false =>
        rw [htrusted] at h
        exact ⟨[], hop, scanned, a, rfl, hparse, htrusted, by simp, (Option.some.inj h).symm⟩
      | true =>
        rw [htrusted] at h
        obtain ⟨hops, client, rest, b, rfl, hb, hub, hall, hip⟩ := ih h
        refine ⟨hop :: hops, client, rest, b, rfl, hb, hub, ?_, hip⟩
        intro x hx
        rcases List.mem_cons.1 hx with rfl | hx
        · exact ⟨a, hparse, htrusted⟩
        · exact hall x hx

end scan

section realIP
variable {proxies : List Prefix} {r : Request} {a ip : Addr}

theorem comesFrom_set (r : Request) (a : Addr) :
    ComesFrom { r with remoteAddr := String.ofList (addrPortText a 0) } a := by
  refine ⟨rfl, ?_⟩
  rw [clientIP, String.toList_ofList, splitHostPort_addrPortText]
  split_ifs <;> rfl

theorem ne_nil_of_trustedPeer (h : trustedPeer proxies r = true) : proxies ≠ [] := by
  rintro rfl
  cases hpeer : parseAddrPort r.remoteAddr.toList <;>
    simp [trustedPeer, hpeer, trustedProxy] at h

theorem realIP_of_forwardedFor (h : forwardedFor proxies r = some ip) :
    realIP proxies r = { r with remoteAddr := String.ofList (addrPortText ip 0) } := by
  have hne : proxies ≠ [] := by
    unfold forwardedFor at h
    split_ifs at h with hpeer
    exact ne_nil_of_trustedPeer hpeer
  rw [realIP, if_neg hne, h]

theorem realIP_of_forwardedFor_none (h : forwardedFor proxies r = none) : realIP proxies r = r := by
  unfold realIP
  split_ifs
  · rfl
  · rw [h]

theorem forwardedFor_of_appended {forged hops : List String} {client : String}
    (hpeer : trustedPeer proxies r = true) (h : Appended proxies r.hops forged client hops a) :
    forwardedFor proxies r = some a.unmap := by
  have htrusted : ∀ hop ∈ hops.reverse, TrustedHop proxies hop := fun hop hmem =>
    h.trusted hop (List.mem_reverse.1 hmem)
  rw [forwardedFor, if_pos hpeer, h.entries_eq, List.reverse_append, List.reverse_cons,
    List.append_assoc, firstUntrusted_append htrusted]
  exact firstUntrusted_cons h.parses h.untrusted

theorem appended_of_forwardedFor (h : forwardedFor proxies r = some ip) :
    trustedPeer proxies r = true ∧ ∃ forged client hops a,
      Appended proxies r.hops forged client hops a ∧ ip = a.unmap := by
  unfold forwardedFor at h
  split_ifs at h with hpeer
  obtain ⟨hops, client, rest, a, heq, hparse, huntrusted, htrusted, hip⟩ :=
    exists_of_firstUntrusted h
  refine ⟨hpeer, rest.reverse, client, hops.reverse, a, ⟨?_, hparse, huntrusted, ?_⟩, hip⟩
  · rw [← List.reverse_reverse r.hops, heq]
    simp
  · intro hop hmem
    exact htrusted hop (List.mem_reverse.1 hmem)

/-- A client cannot forge its address: only what trusted proxies appended counts. -/
theorem realIP_client (proxies : List Prefix) (r : Request) :
    (trustedPeer proxies r = false → ∀ lines,
      (realIP proxies { r with forwardedFor := lines }).remoteAddr = r.remoteAddr ∧
        clientIP (realIP proxies { r with forwardedFor := lines }) = clientIP r) ∧
    (trustedPeer proxies r = true → ∀ forged client hops a,
      Appended proxies r.hops forged client hops a → ComesFrom (realIP proxies r) a.unmap) ∧
    ((realIP proxies r).remoteAddr ≠ r.remoteAddr → trustedPeer proxies r = true ∧
      ∃ forged client hops a, Appended proxies r.hops forged client hops a ∧
        ComesFrom (realIP proxies r) a.unmap) := by
  refine ⟨?_, ?_, ?_⟩
  · intro hpeer lines
    have hnone : forwardedFor proxies { r with forwardedFor := lines } = none := by
      rw [forwardedFor, if_neg]
      rw [Bool.not_eq_true]
      exact hpeer
    rw [realIP_of_forwardedFor_none hnone]
    exact ⟨rfl, rfl⟩
  · intro hpeer forged client hops a h
    rw [realIP_of_forwardedFor (forwardedFor_of_appended hpeer h)]
    exact comesFrom_set r a.unmap
  · intro hne
    cases h : forwardedFor proxies r with
    | none =>
      rw [realIP_of_forwardedFor_none h] at hne
      exact absurd rfl hne
    | some ip =>
      obtain ⟨hpeer, forged, client, hops, a, happ, rfl⟩ := appended_of_forwardedFor h
      refine ⟨hpeer, forged, client, hops, a, happ, ?_⟩
      rw [realIP_of_forwardedFor h]
      exact comesFrom_set r a.unmap

def caddy : Prefix := ⟨.v4 0x0a000002, 32⟩

theorem realIP_client_forged :
    ComesFrom (realIP [caddy] ⟨"10.0.0.2:5000", ["1.2.3.4, garbage", " 203.0.113.9"]⟩)
      (.v4 0xcb007109) :=
  (realIP_client [caddy] ⟨"10.0.0.2:5000", ["1.2.3.4, garbage", " 203.0.113.9"]⟩).2.1
    (by decide +kernel) ["1.2.3.4", " garbage"] " 203.0.113.9" [] (.v4 0xcb007109)
    ⟨by decide +kernel, by decide +kernel, by decide +kernel, by simp⟩

/-- The cases of the source's own test, with `proxies` from "10.0.0.2, 172.18.0.0/16". -/
example : (parseProxies id "10.0.0.2, 172.18.0.0/16").toOption.map (fun proxies =>
    [("192.168.1.50:5000", ["1.2.3.4"]), ("10.0.0.2:5000", ["1.2.3.4, 203.0.113.9"]),
      ("10.0.0.2:5000", ["203.0.113.9, 172.18.0.7"]), ("10.0.0.2:5000", ["1.2.3.4", "2001:db8::1"]),
      ("10.0.0.2:5000", ["203.0.113.9, unknown"]), ("10.0.0.2:5000", ["172.18.0.7"]),
      ("[::ffff:10.0.0.2]:5000", ["203.0.113.9"])].map fun (peer, lines) =>
        clientIP (realIP proxies ⟨peer, lines⟩)) =
    some ["192.168.1.50", "203.0.113.9", "203.0.113.9", "2001:db8::1", "10.0.0.2", "10.0.0.2",
      "203.0.113.9"] := by
  decide +kernel

end realIP

end Lotse.Proxies
