import Lotse.VersionOrder
import Mathlib.Data.Bool.AllAny

set_option autoImplicit false

namespace Lotse.Netip
open Versions (cut parseDigits atoi)

/-- `zone` is empty for an address without one. -/
inductive Addr where
  | v4 (bits : BitVec 32)
  | v6 (bits : BitVec 128) (zone : List Char)
  deriving DecidableEq

namespace Addr

def zone : Addr → List Char
  | v4 _ => []
  | v6 _ zone => zone

def bitLen : Addr → ℕ
  | v4 _ => 32
  | v6 _ _ => 128

def is4In6 : Addr → Bool
  | v4 _ => false
  | v6 bits _ => bits >>> 32 == 0xffff

/-- A mapped address loses its zone with the mapping. -/
def unmap : Addr → Addr
  | v4 bits => v4 bits
  | v6 bits zone => if bits >>> 32 == 0xffff then v4 (bits.setWidth 32) else v6 bits zone

end Addr

structure Prefix where
  ip : Addr
  bits : ℕ
  deriving DecidableEq

def sameNet {w : ℕ} (n : ℕ) (net ip : BitVec w) : Bool := n ≤ w && (net ^^^ ip) >>> (w - n) == 0

namespace Prefix

/-- An address with a zone is in no prefix. -/
def contains (p : Prefix) : Addr → Bool
  | .v4 ip =>
    match p.ip with
    | .v4 net => sameNet p.bits net ip
    | .v6 _ _ => false
  | .v6 ip zone =>
    match p.ip with
    | .v4 _ => false
    | .v6 net _ => zone == [] && sameNet p.bits net ip

def masked (p : Prefix) : Prefix :=
  match p.ip with
  | .v4 net => ⟨.v4 (net >>> (32 - p.bits) <<< (32 - p.bits)), p.bits⟩
  | .v6 net _ => ⟨.v6 (net >>> (128 - p.bits) <<< (128 - p.bits)) [], p.bits⟩

end Prefix

def octet (s : List Char) : Option ℕ :=
  (parseDigits s).bind fun n =>
    if 255 < n ∨ 1 < s.length ∧ s.head? = some '0' then none else some n

def parseIPv4 (s : List Char) : Option (BitVec 32) :=
  match (s.splitOn '.').map octet with
  | [some a, some b, some c, some d] => some (BitVec.ofNat 32 (((a * 256 + b) * 256 + c) * 256 + d))
  | _ => none

def hexDigit (c : Char) : Option ℕ :=
  if '0' ≤ c ∧ c ≤ '9' then some (c.toNat - '0'.toNat)
  else if 'a' ≤ c ∧ c ≤ 'f' then some (c.toNat - 'a'.toNat + 10)
  else if 'A' ≤ c ∧ c ≤ 'F' then some (c.toNat - 'A'.toNat + 10)
  else none

def isHex (c : Char) : Bool := (hexDigit c).isSome

def hexValue (s : List Char) : ℕ := s.foldl (fun n c => 16 * n + (hexDigit c).getD 0) 0

/-- The groups of an IPv6 address and the position of its ellipsis, for the groups read so
far and the room left for more. -/
def parseGroups : ℕ → List Char → List ℕ → Option ℕ → Option (List ℕ × Option ℕ)
  | 0, s, groups, ellipsis => if s = [] then some (groups, ellipsis) else none
  | room + 1, s, groups, ellipsis =>
    let digits := s.takeWhile isHex
    if digits = [] ∨ 4 < digits.length then none
    else
      let more := groups ++ [hexValue digits]
      match s.dropWhile isHex with
      | [] => some (more, ellipsis)
      | '.' :: _ =>
        -- a trailing IPv4 address takes the place of two groups
        if (ellipsis = none ∧ groups.length ≠ 6) ∨ 6 < groups.length then none
        else (parseIPv4 s).map fun ip => (groups ++ [ip.toNat / 65536, ip.toNat % 65536], ellipsis)
      | [':', ':'] => if ellipsis.isSome then none else some (more, some more.length)
      | ':' :: ':' :: s =>
        if ellipsis.isSome then none else parseGroups room s more (some more.length)
      | [':'] => none
      | ':' :: s => parseGroups room s more ellipsis
      | _ => none

/-- The ellipsis stands for at least one group. -/
def expand : List ℕ × Option ℕ → Option (List ℕ)
  | (groups, none) => if groups.length = 8 then some groups else none
  | (groups, some i) =>
    if groups.length < 8 then
      some (groups.take i ++ List.replicate (8 - groups.length) 0 ++ groups.drop i)
    else none

def fromGroups (groups : List ℕ) : BitVec 128 :=
  BitVec.ofNat 128 (groups.foldl (fun n g => 65536 * n + g) 0)

def parseIPv6 (s : List Char) : Option Addr :=
  let (s, zone, hasZone) := cut '%' s
  if hasZone ∧ zone = [] then none
  else
    let groups := match s with
      | [':', ':'] => some ([], some 0)
      | ':' :: ':' :: s => parseGroups 8 s [] (some 0)
      | s => parseGroups 8 s [] none
    (groups.bind expand).map fun groups => .v6 (fromGroups groups) zone

def parseAddr (s : List Char) : Option Addr :=
  match s.find? fun c => c == '.' || c == ':' || c == '%' with
  | some '.' => (parseIPv4 s).map .v4
  | some ':' => parseIPv6 s
  | _ => none

def cutLast (sep : Char) (s : List Char) : Option (List Char × List Char) :=
  match s.reverse.span (· != sep) with
  | (after, _ :: before) => some (before.reverse, after.reverse)
  | (_, []) => none

/-- The address in `netip.ParseAddrPort`: brackets are for IPv6 and only for it. -/
def parseAddrPort (s : List Char) : Option Addr := do
  let (ip, port) ← cutLast ':' s
  let n ← parseDigits port
  if 65535 < n then none
  else
    match ip with
    | '[' :: ip =>
      if ip.getLast? = some ']' then (parseAddr ip.dropLast).filter fun a => a.bitLen = 128 else none
    | ip => (parseAddr ip).filter fun a => a.bitLen = 32

/-- `netip.ParsePrefix`, which allows neither a zone nor a leading zero. -/
def parsePrefix (s : List Char) : Option Prefix := do
  let (ip, bits) ← cutLast '/' s
  let a ← parseAddr ip
  let n ← if bits.length = 1 ∨ bits.head?.all fun c => '1' ≤ c ∧ c ≤ '9' then parseDigits bits else none
  if a.zone ≠ [] ∨ a.bitLen < n then none else some ⟨a, n⟩

def dotted (ip : BitVec 32) : List Char :=
  ['.'].intercalate ([24, 16, 8, 0].map fun i => Nat.toDigits 10 (ip.toNat / 2 ^ i % 256))

def groupsOf (ip : BitVec 128) : List ℕ :=
  [112, 96, 80, 64, 48, 32, 16, 0].map fun i => ip.toNat / 2 ^ i % 65536

/-- The first of the longest runs of two or more zeros: where it starts and its length. -/
def zeroRun (groups : List ℕ) : ℕ × ℕ :=
  (List.range 8).foldl (fun best i =>
    let l := ((groups.drop i).takeWhile (· = 0)).length
    if 2 ≤ l ∧ best.2 < l then (i, l) else best) (8, 0)

def joinGroups (groups : List ℕ) : List Char := [':'].intercalate (groups.map (Nat.toDigits 16))

def hexGroups (groups : List ℕ) : List Char :=
  let (start, len) := zeroRun groups
  if len = 0 then joinGroups groups
  else joinGroups (groups.take start) ++ [':', ':'] ++ joinGroups (groups.drop (start + len))

def zoneText (zone : List Char) : List Char := if zone = [] then [] else '%' :: zone

def Addr.text : Addr → List Char
  | .v4 ip => dotted ip
  | .v6 ip zone =>
    (if (Addr.v6 ip zone).is4In6 then "::ffff:".toList ++ dotted (ip.setWidth 32)
      else hexGroups (groupsOf ip)) ++ zoneText zone

def Addr.host (a : Addr) : List Char := if a.bitLen = 32 then a.text else '[' :: a.text ++ [']']

def addrPortText (a : Addr) (port : ℕ) : List Char := a.host ++ ':' :: Nat.toDigits 10 port

def bracket (c : Char) : Bool := c == '[' || c == ']'

def hostOf : List Char → Option (List Char)
  | '[' :: rest => if rest.getLast? = some ']' then some rest.dropLast else none
  | front => if ':' ∈ front then none else some front

def splitHostPort (s : List Char) : Option (List Char) := do
  let (front, port) ← cutLast ':' s
  let host ← hostOf front
  if (host ++ port).any bracket then none else some host

theorem mem_toDigits {b n : ℕ} {c : Char} (hb : 1 < b) (hc : c ∈ Nat.toDigits b n) :
    ∃ d < b, c = d.digitChar := by
  induction n using Nat.strong_induction_on with
  | _ n ih =>
    rw [Nat.toDigits_eq_if hb] at hc
    split_ifs at hc with hn
    · exact ⟨n, hn, List.mem_singleton.1 hc⟩
    · rcases List.mem_append.1 hc with hc | hc
      · exact ih (n / b) (Nat.div_lt_self (by omega) hb) hc
      · exact ⟨n % b, Nat.mod_lt _ (by omega), List.mem_singleton.1 hc⟩

theorem mem_intercalate {sep c : Char} {parts : List (List Char)}
    (hc : c ∈ [sep].intercalate parts) : c = sep ∨ ∃ part ∈ parts, c ∈ part := by
  induction parts with
  | nil => cases hc
  | cons part parts ih =>
    cases parts with
    | nil => exact .inr ⟨part, List.mem_singleton_self _, by simpa using hc⟩
    | cons next parts =>
      rw [List.intercalate_cons_cons, List.append_assoc, List.mem_append, List.mem_append,
        List.mem_singleton] at hc
      rcases hc with hc | hc | hc
      · exact .inr ⟨part, List.mem_cons_self, hc⟩
      · exact .inl hc
      · rcases ih hc with h | ⟨q, hq, hcq⟩
        · exact .inl h
        · exact .inr ⟨q, List.mem_cons_of_mem _ hq, hcq⟩

theorem bracket_digitChar : ∀ d < 16, bracket (Nat.digitChar d) = false := by decide

theorem digitChar_ne_colon : ∀ d < 10, Nat.digitChar d ≠ ':' := by decide

theorem mem_dotted {ip : BitVec 32} {c : Char} (hc : c ∈ dotted ip) :
    c = '.' ∨ ∃ d < 10, c = Nat.digitChar d := by
  rcases mem_intercalate hc with h | ⟨part, hpart, hc⟩
  · exact .inl h
  · obtain ⟨i, -, rfl⟩ := List.mem_map.1 hpart
    exact .inr (mem_toDigits (by omega) hc)

theorem bracket_dotted {ip : BitVec 32} {c : Char} (hc : c ∈ dotted ip) : bracket c = false := by
  rcases mem_dotted hc with rfl | ⟨d, hd, rfl⟩
  · rfl
  · exact bracket_digitChar d (by omega)

theorem colon_notMem_dotted (ip : BitVec 32) : ':' ∉ dotted ip := by
  intro hc
  rcases mem_dotted hc with h | ⟨d, hd, h⟩
  · exact absurd h (by decide)
  · exact digitChar_ne_colon d hd h.symm

theorem bracket_joinGroups {groups : List ℕ} {c : Char} (hc : c ∈ joinGroups groups) :
    bracket c = false := by
  rcases mem_intercalate hc with rfl | ⟨part, hpart, hc⟩
  · rfl
  · obtain ⟨g, -, rfl⟩ := List.mem_map.1 hpart
    obtain ⟨d, hd, rfl⟩ := mem_toDigits (by omega) hc
    exact bracket_digitChar d hd

theorem bracket_hexGroups {groups : List ℕ} {c : Char} (hc : c ∈ hexGroups groups) :
    bracket c = false := by
  unfold hexGroups at hc
  simp only at hc
  split_ifs at hc
  · exact bracket_joinGroups hc
  · rw [List.mem_append, List.mem_append] at hc
    rcases hc with (hc | hc) | hc
    · exact bracket_joinGroups hc
    · rcases List.mem_pair.1 hc with rfl | rfl <;> rfl
    · exact bracket_joinGroups hc

theorem any_bracket_text (a : Addr) : a.text.any bracket = a.zone.any bracket := by
  cases a with
  | v4 ip =>
    rw [Addr.text, Addr.zone, List.any_nil, List.any_eq_false]
    intro c hc
    rw [bracket_dotted hc]
    exact Bool.false_ne_true
  | v6 ip zone =>
    have hzone : (zoneText zone).any bracket = zone.any bracket := by
      unfold zoneText
      split_ifs with h
      · rw [h]
      · rfl
    have hbits : (if (Addr.v6 ip zone).is4In6 then "::ffff:".toList ++ dotted (ip.setWidth 32)
        else hexGroups (groupsOf ip)).any bracket = false := by
      rw [List.any_eq_false]
      intro c hc
      rw [Bool.not_eq_true]
      split_ifs at hc
      · rcases List.mem_append.1 hc with hc | hc
        · have hmapped : ∀ c ∈ "::ffff:".toList, bracket c = false :=
            List.all_iff_forall_prop.1 (by decide)
          exact hmapped c hc
        · exact bracket_dotted hc
      · exact bracket_hexGroups hc
    rw [Addr.text, List.any_append, hbits, hzone]
    rfl

theorem cutLast_append {sep : Char} {before after : List Char} (h : sep ∉ after) :
    cutLast sep (before ++ sep :: after) = some (before, after) := by
  have hspan : (before ++ sep :: after).reverse.span (· != sep) =
      (after.reverse, sep :: before.reverse) := by
    rw [List.reverse_append, List.reverse_cons, List.append_assoc, List.span_eq_takeWhile_dropWhile]
    have hall : ∀ c ∈ after.reverse, (c != sep) = true := by
      intro c hc
      rw [bne_iff_ne]
      rintro rfl
      exact h (List.mem_reverse.1 hc)
    rw [List.takeWhile_append_of_pos hall, List.dropWhile_append_of_pos hall]
    simp
  rw [cutLast, hspan]
  simp

theorem hostOf_bracketed (host : List Char) : hostOf ('[' :: host ++ [']']) = some host := by
  simp [hostOf]

theorem hostOf_plain {host : List Char} (hb : ∀ c ∈ host, bracket c = false) (hc : ':' ∉ host) :
    hostOf host = some host := by
  unfold hostOf
  split
  · exact absurd (hb '[' List.mem_cons_self) (by decide)
  · rw [if_neg hc]

/-- The host of an address with a port is the address, unless its zone has a bracket. -/
theorem splitHostPort_addrPortText (a : Addr) (port : ℕ) :
    splitHostPort (addrPortText a port) = if a.zone.any bracket then none else some a.text := by
  have hcolon : ':' ∉ Nat.toDigits 10 port := by
    intro hc
    obtain ⟨d, hd, h⟩ := mem_toDigits (by omega) hc
    exact digitChar_ne_colon d hd h.symm
  have hport : (Nat.toDigits 10 port).any bracket = false := by
    rw [List.any_eq_false]
    intro c hc
    obtain ⟨d, hd, rfl⟩ := mem_toDigits (by omega) hc
    rw [bracket_digitChar d (by omega)]
    exact Bool.false_ne_true
  have hhost : hostOf a.host = some a.text := by
    cases a with
    | v4 ip => exact hostOf_plain (fun c hc => bracket_dotted hc) (colon_notMem_dotted ip)
    | v6 ip zone => exact hostOf_bracketed _
  rw [splitHostPort, addrPortText, cutLast_append hcolon]
  simp only [Option.bind_eq_bind, Option.bind_some, hhost, List.any_append, hport, Bool.or_false,
    any_bracket_text]

end Lotse.Netip
