import Lotse.Utf8
import Lotse.Rows

set_option autoImplicit false

/-!
# Passkey challenges and responses

The map of pending challenges and the checks of a passkey response that depend on the
response alone. What the hub takes from its libraries (base64url, JSON, hashes, signatures)
is given by an `Env`.
-/
namespace Lotse.Passkeys
open Utf8

inductive Purpose where
  | login
  | elevate
  | register
  deriving DecidableEq

/-- `session` is the token hash of the session that asked, none for a login. -/
structure Challenge where
  purpose : Purpose
  session : Option ℕ
  expires : ℕ
  deriving DecidableEq

abbrev Challenges := List (String × Challenge)

def passkeyTimeout : ℕ := 5 * 60 * 10 ^ 9

def maxChallenges : ℕ := 1000

/-- The second loop of `add`: entries go in the order they are met until there is room. -/
def dropUntilRoom (order : List String) (m : Challenges) : Challenges :=
  order.foldl (fun m k => if m.length < maxChallenges then m else Rows.erase Prod.fst k m) m

def unexpired (now : ℕ) (m : Challenges) : Challenges := m.filter fun e => ¬ e.2.expires < now

def makeRoom (now : ℕ) (order : List String) (m : Challenges) : Challenges :=
  if maxChallenges ≤ m.length then dropUntilRoom order (unexpired now m) else m

def add (now : ℕ) (order : List String) (m : Challenges) (key : String) (c : Challenge) :
    Challenges := Rows.erase Prod.fst key (makeRoom now order m) ++ [(key, c)]

def take (now : ℕ) (m : Challenges) (key : String) (purpose : Purpose) (session : Option ℕ) :
    Challenges × Bool :=
  match Rows.lookup Prod.fst key m with
  | none => (m, false)
  | some (_, c) =>
    (Rows.erase Prod.fst key m, c.purpose = purpose && c.session = session && now < c.expires)

structure ClientData where
  type : String
  challenge : String
  origin : String
  crossOrigin : Bool
  deriving DecidableEq

structure AuthData where
  flags : UInt8
  signCount : ℕ
  credentialID : Bytes
  deriving DecidableEq

structure Env where
  decode : String → Option Bytes
  clientData : Bytes → Option ClientData
  sha256 : String → Bytes
  verifySignature : (spki : Bytes) → (alg : ℤ) → (authData clientData sig : Bytes) → Bool
  parsePublicKey : (spki : Bytes) → (alg : ℤ) → Option String

def invalidResponse : String := "invalid passkey response"

def decodeFields (E : Env) (fields : List String) : Except String (List Bytes) :=
  match fields.mapM E.decode with
  | some raw => .ok raw
  | none => .error invalidResponse

def bigEndian (b : Bytes) : ℕ := b.foldl (fun n x => n * 256 + x.toNat) 0

def flagUserPresent : UInt8 := 0x01
def flagUserVerified : UInt8 := 0x04
def flagAttested : UInt8 := 0x40

def invalidAuthData : String := "invalid authenticator data"

def parseAuthData (E : Env) (b : Bytes) (rpID : String) : Except String AuthData :=
  if b.length < 37 then .error invalidAuthData
  else if b.take 32 ≠ E.sha256 rpID then .error "the passkey belongs to another site"
  else
    let ad : AuthData := ⟨b.getD 32 0, bigEndian ((b.drop 33).take 4), []⟩
    if ad.flags &&& flagUserPresent = 0 ∨ ad.flags &&& flagUserVerified = 0 then
      .error "the authenticator did not verify you (PIN or biometrics)"
    else if ad.flags &&& flagAttested ≠ 0 then
      if b.length < 55 then .error invalidAuthData
      else
        let n := bigEndian ((b.drop 53).take 2)
        if n = 0 ∨ b.length < 55 + n then .error invalidAuthData
        else .ok { ad with credentialID := (b.drop 55).take n }
    else .ok ad

/-- What `relyingParty` derives from the request. -/
structure RelyingParty where
  origin : String
  rpID : String
  deriving DecidableEq

def notOwnPage : String := "passkeys only work from the hub's own page"

/-- A response as the browser sends it, with the request's relying party if it has one. -/
structure Assertion where
  rp : Option RelyingParty
  id : String
  clientData : String
  authenticatorData : String
  signature : String
  userHandle : String
  deriving DecidableEq

structure Attestation where
  rp : Option RelyingParty
  id : String
  clientData : String
  authenticatorData : String
  publicKey : String
  algorithm : ℤ
  deriving DecidableEq

/-- A response whose fields could be decoded. -/
structure Decoded where
  rp : RelyingParty
  credID : Bytes
  cdJSON : Bytes
  adBytes : Bytes
  /-- The signature of an assertion or the public key of an attestation. -/
  sig : Bytes
  userHandle : Bytes
  algorithm : ℤ
  deriving DecidableEq

def Assertion.decode (E : Env) (a : Assertion) : Except String Decoded :=
  match a.rp with
  | none => .error notOwnPage
  | some rp =>
    match decodeFields E [a.id, a.clientData, a.authenticatorData, a.signature, a.userHandle] with
    | .ok [credID, cdJSON, adBytes, sig, userHandle] => .ok ⟨rp, credID, cdJSON, adBytes, sig, userHandle, 0⟩
    | .ok _ => .error invalidResponse
    | .error e => .error e

def Attestation.decode (E : Env) (a : Attestation) : Except String Decoded :=
  match a.rp with
  | none => .error notOwnPage
  | some rp =>
    match decodeFields E [a.id, a.clientData, a.authenticatorData, a.publicKey] with
    | .ok [credID, cdJSON, adBytes, spki] => .ok ⟨rp, credID, cdJSON, adBytes, spki, [], a.algorithm⟩
    | .ok _ => .error invalidResponse
    | .error e => .error e

def checkOrigin (cd : ClientData) (typ origin : String) : Except String Unit :=
  if cd.type ≠ typ ∨ cd.crossOrigin = true then .error invalidResponse
  else if cd.origin ≠ origin then .error "the passkey response is for another site"
  else .ok ()

structure Passkey where
  id : ℕ
  userID : ℕ
  rpID : String
  credentialID : Bytes
  publicKey : Bytes
  algorithm : ℤ
  signCount : ℕ
  deriving DecidableEq

def counterWentBack : String :=
  "this passkey's signature counter went backwards; it may have been copied"

/-- Authenticators that count signatures must count up. -/
def countsUp (ad : AuthData) (key : Passkey) : Bool :=
  !((ad.signCount != 0 || key.signCount != 0) && ad.signCount ≤ key.signCount)

def checkAttestation (E : Env) (d : Decoded) : Except String AuthData :=
  match parseAuthData E d.adBytes d.rp.rpID with
  | .error e => .error e
  | .ok ad =>
    if d.credID = [] ∨ 1023 < d.credID.length ∨ ad.credentialID ≠ d.credID then
      .error invalidResponse
    else if d.sig = [] then
      .error "this browser did not share the passkey's public key; try a current browser"
    else
      match E.parsePublicKey d.sig d.algorithm with
      | some e => .error e
      | none => .ok ad

section challenges
variable {now : ℕ} {order : List String} {m : Challenges} {key : String}

theorem dropUntilRoom_sublist (order : List String) (m : Challenges) :
    (dropUntilRoom order m).Sublist m := by
  induction order generalizing m with
  | nil => exact List.Sublist.refl m
  | cons k order ih =>
    rw [dropUntilRoom, List.foldl_cons]
    split_ifs
    · exact ih m
    · exact (ih _).trans List.filter_sublist

theorem dropUntilRoom_length (h : ∀ e ∈ m, e.1 ∈ order) :
    (dropUntilRoom order m).length < maxChallenges := by
  induction order generalizing m with
  | nil =>
    have hnil : m = [] := List.eq_nil_iff_forall_not_mem.2 fun e he => List.not_mem_nil (h e he)
    rw [hnil]
    exact (by decide : 0 < maxChallenges)
  | cons k order ih =>
    rw [dropUntilRoom, List.foldl_cons]
    split_ifs with hroom
    · exact (dropUntilRoom_sublist order m).length_le.trans_lt hroom
    · refine ih fun e he => ?_
      obtain ⟨he, hne⟩ := List.mem_filter.1 he
      simp only [ne_eq, decide_eq_true_eq] at hne
      exact (List.mem_cons.1 (h e he)).resolve_left hne

theorem makeRoom_sublist (now : ℕ) (order : List String) (m : Challenges) :
    (makeRoom now order m).Sublist m := by
  rw [makeRoom]
  split_ifs
  · exact (dropUntilRoom_sublist _ _).trans List.filter_sublist
  · exact List.Sublist.refl m

theorem add_length (h : maxChallenges ≤ m.length → ∀ e ∈ unexpired now m, e.1 ∈ order)
    (c : Challenge) : (add now order m key c).length ≤ maxChallenges := by
  have hroom : (makeRoom now order m).length < maxChallenges := by
    rw [makeRoom]
    split_ifs with hfull
    · exact dropUntilRoom_length (h hfull)
    · omega
  have herase : (Rows.erase Prod.fst key (makeRoom now order m)).length ≤
      (makeRoom now order m).length := List.length_filter_le _ _
  rw [add, List.length_append, List.length_singleton]
  omega

theorem mem_add {c : Challenge} {e : String × Challenge} (h : e ∈ add now order m key c) :
    e ∈ m ∧ e.1 ≠ key ∨ e = (key, c) := by
  rcases List.mem_append.1 h with h | h
  · obtain ⟨hm, hne⟩ := List.mem_filter.1 h
    exact .inl ⟨(makeRoom_sublist now order m).subset hm, by simpa using hne⟩
  · exact .inr (List.mem_singleton.1 h)

theorem take_cases (now : ℕ) (m : Challenges) (key : String) (purpose : Purpose)
    (session : Option ℕ) :
    (∀ e ∈ m, e.1 ≠ key) ∧ take now m key purpose session = (m, false) ∨
    ∃ c, (key, c) ∈ m ∧ take now m key purpose session =
      (Rows.erase Prod.fst key m,
        c.purpose = purpose && c.session = session && now < c.expires) := by
  cases hl : Rows.lookup Prod.fst key m with
  | none =>
    left
    exact ⟨Rows.lookup_eq_none.1 hl, by simp [take, hl]⟩
  | some e =>
    right
    obtain ⟨k, c⟩ := e
    obtain rfl : k = key := Rows.lookup_key hl
    exact ⟨c, Rows.lookup_mem hl, by simp [take, hl]⟩

end challenges

end Lotse.Passkeys
