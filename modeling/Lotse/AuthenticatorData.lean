import Lotse.PasskeyMachine

set_option autoImplicit false

namespace Lotse.Passkeys
open Utf8 Tasks

/-- `binary.BigEndian.AppendUint16` and `AppendUint32`, for `k` bytes. -/
def bigEndianBytes : ℕ → ℕ → Bytes
  | 0, _ => []
  | k + 1, n => (n / 256 ^ k).toUInt8 :: bigEndianBytes k (n % 256 ^ k)

theorem length_bigEndianBytes (k n : ℕ) : (bigEndianBytes k n).length = k := by
  induction k generalizing n with
  | zero => rfl
  | succ k ih => simp [bigEndianBytes, ih]

theorem foldl_bigEndian (b : Bytes) (n : ℕ) :
    b.foldl (fun n x => n * 256 + x.toNat) n = n * 256 ^ b.length + bigEndian b := by
  unfold bigEndian
  induction b generalizing n with
  | nil => simp
  | cons x b ih =>
    rw [List.foldl_cons, List.foldl_cons, ih, ih (0 * 256 + x.toNat), List.length_cons, pow_succ]
    ring

theorem bigEndian_cons (x : UInt8) (b : Bytes) :
    bigEndian (x :: b) = x.toNat * 256 ^ b.length + bigEndian b := by
  rw [bigEndian, List.foldl_cons, foldl_bigEndian]
  simp

theorem bigEndian_bytes {k n : ℕ} (h : n < 256 ^ k) : bigEndian (bigEndianBytes k n) = n := by
  induction k generalizing n with
  | zero =>
    rw [pow_zero, Nat.lt_one_iff] at h
    rw [h]
    rfl
  | succ k ih =>
    have hpos : 0 < 256 ^ k := by positivity
    have hdigit : n / 256 ^ k < 256 := by
      rw [Nat.div_lt_iff_lt_mul hpos]
      rwa [pow_succ, mul_comm] at h
    have hbyte : (n / 256 ^ k).toUInt8.toNat = n / 256 ^ k := by
      simp [Nat.mod_eq_of_lt hdigit]
    rw [bigEndianBytes, bigEndian_cons, length_bigEndianBytes, ih (Nat.mod_lt n hpos), hbyte]
    exact Nat.div_add_mod' n (256 ^ k)

/-- `b[i:j]`, none where it would reach outside. -/
def slice (b : Bytes) (i j : ℕ) : Option Bytes :=
  if i ≤ j ∧ j ≤ b.length then some ((b.drop i).take (j - i)) else none

/-- `binary.BigEndian.Uint16` or `Uint32` of `b[i:j]`, which is as long as they read. -/
def uint (b : Bytes) (i j : ℕ) : Option ℕ := (slice b i j).map bigEndian

/-- `parseAuthData` with every access checked. -/
def readAuthData (E : Env) (b : Bytes) (rpID : String) : Option (Except String AuthData) :=
  if b.length < 37 then some (.error invalidAuthData)
  else do
    let hash ← slice b 0 32
    if hash ≠ E.sha256 rpID then some (.error "the passkey belongs to another site")
    else do
      let flags ← b[32]?
      let signCount ← uint b 33 37
      if flags &&& flagUserPresent = 0 ∨ flags &&& flagUserVerified = 0 then
        some (.error "the authenticator did not verify you (PIN or biometrics)")
      else if flags &&& flagAttested ≠ 0 then
        if b.length < 55 then some (.error invalidAuthData)
        else do
          let n ← uint b 53 55
          if n = 0 ∨ b.length < 55 + n then some (.error invalidAuthData)
          else do
            let credentialID ← slice b 55 (55 + n)
            some (.ok ⟨flags, signCount, credentialID⟩)
      else some (.ok ⟨flags, signCount, []⟩)

theorem slice_eq {b : Bytes} {i j : ℕ} (hij : i ≤ j) (hj : j ≤ b.length) :
    slice b i j = some ((b.drop i).take (j - i)) := if_pos ⟨hij, hj⟩

theorem uint_eq {b : Bytes} {i j : ℕ} (hij : i ≤ j) (hj : j ≤ b.length) :
    uint b i j = some (bigEndian ((b.drop i).take (j - i))) := by
  rw [uint, slice_eq hij hj, Option.map_some]

theorem readAuthData_eq (E : Env) (b : Bytes) (rpID : String) :
    readAuthData E b rpID = some (parseAuthData E b rpID) := by
  unfold readAuthData parseAuthData
  by_cases hlen : b.length < 37
  · rw [if_pos hlen, if_pos hlen]
  have hflags : b[32]? = some (b.getD 32 0) := by
    simp [List.getD_eq_getElem?_getD, List.getElem?_eq_getElem (show 32 < b.length by omega)]
  have hhash : slice b 0 32 = some (b.take 32) := slice_eq (by omega) (by omega)
  have hcount : uint b 33 37 = some (bigEndian ((b.drop 33).take 4)) := uint_eq (by omega) (by omega)
  rw [if_neg hlen, if_neg hlen, hhash, hflags, hcount]
  simp only [Option.bind_eq_bind, Option.bind_some]
  by_cases hsite : b.take 32 ≠ E.sha256 rpID
  · rw [if_pos hsite, if_pos hsite]
  rw [if_neg hsite, if_neg hsite]
  by_cases huser : b.getD 32 0 &&& flagUserPresent = 0 ∨ b.getD 32 0 &&& flagUserVerified = 0
  · rw [if_pos huser, if_pos huser]
  rw [if_neg huser, if_neg huser]
  by_cases hattested : b.getD 32 0 &&& flagAttested ≠ 0
  · rw [if_pos hattested, if_pos hattested]
    by_cases hlong : b.length < 55
    · rw [if_pos hlong, if_pos hlong]
    have hn : uint b 53 55 = some (bigEndian ((b.drop 53).take 2)) := uint_eq (by omega) (by omega)
    rw [if_neg hlong, if_neg hlong, hn, Option.bind_some]
    by_cases hid : bigEndian ((b.drop 53).take 2) = 0 ∨
        b.length < 55 + bigEndian ((b.drop 53).take 2)
    · rw [if_pos hid, if_pos hid]
    rw [if_neg hid, if_neg hid, slice_eq (by omega) (by omega), Nat.add_sub_cancel_left]
    rfl
  · rw [if_neg hattested, if_neg hattested]

def Attested (rest id : Bytes) : Prop :=
  ∃ aaguid length extra : Bytes, rest = aaguid ++ (length ++ (id ++ extra)) ∧ aaguid.length = 16 ∧
    length.length = 2 ∧ bigEndian length = id.length ∧ 0 < id.length

/-- The bytes `b` say `ad` for the relying party. -/
structure Layout (E : Env) (rpID : String) (b : Bytes) (ad : AuthData) : Prop where
  bytes : ∃ hash count rest : Bytes, b = hash ++ ad.flags :: (count ++ rest) ∧ hash.length = 32 ∧
    hash = E.sha256 rpID ∧ count.length = 4 ∧ ad.signCount = bigEndian count ∧
    (ad.flags &&& flagAttested ≠ 0 → Attested rest ad.credentialID) ∧
    (ad.flags &&& flagAttested = 0 → ad.credentialID = [])
  present : ad.flags &&& flagUserPresent ≠ 0
  verified : ad.flags &&& flagUserVerified ≠ 0

theorem check_ok_iff {c : Prop} [Decidable c] {e : String} {x : Except String AuthData}
    {ad : AuthData} : (if c then .error e else x) = .ok ad ↔ ¬ c ∧ x = .ok ad := by
  split_ifs with h
  · simp [h]
  · simp [h]

theorem parseAuthData_ok_iff {E : Env} {b : Bytes} {rpID : String} {ad : AuthData} :
    parseAuthData E b rpID = .ok ad ↔ 37 ≤ b.length ∧ b.take 32 = E.sha256 rpID ∧
      ad.flags = b.getD 32 0 ∧ ad.signCount = bigEndian ((b.drop 33).take 4) ∧
      ad.flags &&& flagUserPresent ≠ 0 ∧ ad.flags &&& flagUserVerified ≠ 0 ∧
      (ad.flags &&& flagAttested ≠ 0 → 55 ≤ b.length ∧ bigEndian ((b.drop 53).take 2) ≠ 0 ∧
        55 + bigEndian ((b.drop 53).take 2) ≤ b.length ∧
        ad.credentialID = (b.drop 55).take (bigEndian ((b.drop 53).take 2))) ∧
      (ad.flags &&& flagAttested = 0 → ad.credentialID = []) := by
  obtain ⟨flags, signCount, credentialID⟩ := ad
  unfold parseAuthData
  dsimp only
  rw [check_ok_iff, check_ok_iff, check_ok_iff, not_lt, not_not, not_or]
  by_cases hattested : b.getD 32 0 &&& flagAttested ≠ 0
  · rw [if_pos hattested, check_ok_iff, check_ok_iff, Except.ok.injEq, AuthData.mk.injEq]
    constructor
    · rintro ⟨hlen, hsite, ⟨hpresent, hverified⟩, hlong, hn, rfl, rfl, rfl⟩
      exact ⟨hlen, hsite, rfl, rfl, hpresent, hverified,
        fun _ => ⟨by omega, by omega, by omega, rfl⟩, fun h => absurd h hattested⟩
    · rintro ⟨hlen, hsite, rfl, hsign, hpresent, hverified, hatt, -⟩
      obtain ⟨hlong, hn, hend, hid⟩ := hatt hattested
      exact ⟨hlen, hsite, ⟨hpresent, hverified⟩, by omega, by omega, rfl, hsign.symm, hid.symm⟩
  · rw [if_neg hattested, Except.ok.injEq, AuthData.mk.injEq]
    constructor
    · rintro ⟨hlen, hsite, ⟨hpresent, hverified⟩, rfl, rfl, rfl⟩
      exact ⟨hlen, hsite, rfl, rfl, hpresent, hverified, fun h => absurd h hattested, fun _ => rfl⟩
    · rintro ⟨hlen, hsite, rfl, hsign, hpresent, hverified, -, hnone⟩
      exact ⟨hlen, hsite, ⟨hpresent, hverified⟩, rfl, hsign.symm,
        (hnone (not_not.1 hattested)).symm⟩

theorem take_append_drop_at (b : Bytes) (i k : ℕ) :
    (b.drop i).take k ++ b.drop (i + k) = b.drop i := by
  rw [← List.drop_drop, List.take_append_drop]

theorem drop_of_length {xs ys : Bytes} {k : ℕ} (h : xs.length = k) (i : ℕ) :
    (xs ++ ys).drop (k + i) = ys.drop i := by
  rw [← h, ← List.drop_drop, List.drop_left]

theorem parseAuthData_iff_layout {E : Env} {b : Bytes} {rpID : String} {ad : AuthData} :
    parseAuthData E b rpID = .ok ad ↔ Layout E rpID b ad := by
  rw [parseAuthData_ok_iff]
  constructor
  · rintro ⟨hlen, hsite, hflags, hsign, hpresent, hverified, hatt, hnone⟩
    have hcons : b.drop 32 = ad.flags :: b.drop 33 := by
      rw [hflags, List.drop_eq_getElem_cons (show 32 < b.length by omega),
        List.getD_eq_getElem?_getD, List.getElem?_eq_getElem, Option.getD_some]
    refine ⟨⟨b.take 32, (b.drop 33).take 4, b.drop 37, ?_, by simp; omega, hsite, by simp; omega,
      hsign, ?_, hnone⟩, hpresent, hverified⟩
    · rw [take_append_drop_at b 33 4, ← hcons, List.take_append_drop]
    · intro hattested
      obtain ⟨hlong, hn, hend, hid⟩ := hatt hattested
      have hidlen : ad.credentialID.length = bigEndian ((b.drop 53).take 2) := by
        rw [hid]
        simp
        omega
      refine ⟨(b.drop 37).take 16, (b.drop 53).take 2,
        b.drop (55 + bigEndian ((b.drop 53).take 2)), ?_, by simp; omega, by simp; omega,
        hidlen.symm, by omega⟩
      rw [hid, take_append_drop_at b 55, take_append_drop_at b 53 2, take_append_drop_at b 37 16]
  · rintro ⟨⟨hash, count, rest, rfl, hhash, hsite, hcount, hsign, hatt, hnone⟩, hpresent, hverified⟩
    have hdrop : ∀ i, (hash ++ ad.flags :: (count ++ rest)).drop (33 + i) = (count ++ rest).drop i := by
      intro i
      rw [show 33 + i = 32 + (i + 1) by omega, drop_of_length hhash, List.drop_succ_cons]
    have hrest : ∀ i, (hash ++ ad.flags :: (count ++ rest)).drop (37 + i) = rest.drop i := by
      intro i
      rw [show 37 + i = 33 + (4 + i) by omega, hdrop, drop_of_length hcount]
    refine ⟨by simp; omega, ?_, ?_, ?_, hpresent, hverified, ?_, hnone⟩
    · rw [List.take_left' hhash, hsite]
    · simp [List.getD_eq_getElem?_getD, ← hhash]
    · rw [hdrop 0, List.drop_zero, List.take_left' hcount, hsign]
    · intro hattested
      obtain ⟨aaguid, length, extra, rfl, haaguid, hlength, hn, hpos⟩ := hatt hattested
      have h53 := hrest 16
      have h55 := hrest 18
      rw [show (16 : ℕ) = 16 + 0 from rfl, drop_of_length haaguid, List.drop_zero] at h53
      rw [show (18 : ℕ) = 16 + (2 + 0) from rfl, drop_of_length haaguid, drop_of_length hlength,
        List.drop_zero] at h55
      rw [h53, h55, List.take_left' hlength, hn, List.take_left]
      refine ⟨by simp; omega, by omega, by simp; omega, rfl⟩

/-- Attested authenticator data, as an authenticator writes it. -/
def encodeAuthData (E : Env) (rpID : String) (flags : UInt8) (count : ℕ) (aaguid id : Bytes) : Bytes :=
  E.sha256 rpID ++ flags :: (bigEndianBytes 4 count ++
    (aaguid ++ (bigEndianBytes 2 id.length ++ id)))

theorem parse_encode {E : Env} {rpID : String} (hhash : (E.sha256 rpID).length = 32) {flags : UInt8}
    (hpresent : flags &&& flagUserPresent ≠ 0) (hverified : flags &&& flagUserVerified ≠ 0)
    (hattested : flags &&& flagAttested ≠ 0) {count : ℕ} (hcount : count < 2 ^ 32)
    {aaguid id : Bytes} (haaguid : aaguid.length = 16) (hpos : 0 < id.length)
    (hid : id.length < 2 ^ 16) (extra : Bytes) :
    parseAuthData E (encodeAuthData E rpID flags count aaguid id ++ extra) rpID =
      .ok ⟨flags, count, id⟩ := by
  rw [parseAuthData_iff_layout]
  have hlength : bigEndian (bigEndianBytes 2 id.length) = id.length := bigEndian_bytes (by omega)
  refine ⟨⟨E.sha256 rpID, bigEndianBytes 4 count,
    aaguid ++ (bigEndianBytes 2 id.length ++ (id ++ extra)), by simp [encodeAuthData], hhash, rfl,
    length_bigEndianBytes 4 count, (bigEndian_bytes (by omega)).symm, fun _ => ?_,
    fun h => absurd h hattested⟩, hpresent, hverified⟩
  exact ⟨aaguid, bigEndianBytes 2 id.length, extra, rfl, haaguid, length_bigEndianBytes 2 _, hlength,
    hpos⟩

theorem checkAttestation_ok {E : Env} {d : Decoded} {ad : AuthData}
    (h : checkAttestation E d = .ok ad) :
    parseAuthData E d.adBytes d.rp.rpID = .ok ad ∧ ad.credentialID = d.credID ∧ d.credID ≠ [] := by
  unfold checkAttestation at h
  cases hparse : parseAuthData E d.adBytes d.rp.rpID with
  | error e => simp [hparse] at h
  | ok ad' =>
    simp only [hparse] at h
    split_ifs at h with hid hkey
    cases hpub : E.parsePublicKey d.sig d.algorithm with
    | some e => simp [hpub] at h
    | none =>
      simp only [hpub, Except.ok.injEq] at h
      subst h
      simp only [not_or, not_not] at hid
      exact ⟨rfl, hid.2.2, hid.1⟩

theorem decodeFields_ok {E : Env} {fields : List String} {raw : List Bytes}
    (h : decodeFields E fields = .ok raw) : fields.mapM E.decode = some raw := by
  unfold decodeFields at h
  cases hraw : fields.mapM E.decode with
  | none => simp [hraw] at h
  | some raw' =>
    simp only [hraw, Except.ok.injEq] at h
    rw [h]

theorem decode_ok {E : Env} {a : Attestation} {d : Decoded} (h : a.decode E = .ok d) :
    E.decode a.id = some d.credID ∧ E.decode a.authenticatorData = some d.adBytes := by
  unfold Attestation.decode at h
  cases hrp : a.rp with
  | none => simp [hrp] at h
  | some rp =>
    simp only [hrp] at h
    split at h
    · rename_i credID cdJSON adBytes spki hfields
      have hraw := decodeFields_ok hfields
      simp only [List.mapM_cons, List.mapM_nil, Option.pure_def, Option.bind_eq_bind,
        Option.bind_eq_some_iff, Option.some.injEq] at hraw
      obtain ⟨_, hid, _, ⟨_, hcd, _, ⟨_, had, _, ⟨_, hkey, _, rfl, rfl⟩, rfl⟩, rfl⟩, heq⟩ := hraw
      simp only [List.cons.injEq, and_true] at heq
      obtain ⟨rfl, rfl, rfl, rfl⟩ := heq
      cases h
      exact ⟨hid, had⟩
    · cases h
    · cases h

theorem verifyAttestation_id {E : Env} {g g' : State} {s s' : Session} {a : Attestation}
    {t : Ticket} {d : Decoded} {ad : AuthData}
    (h : verifyAttestation E g s a = .next g' [.createPasskey t s' d ad]) :
    E.decode a.id = some d.credID ∧ E.decode a.authenticatorData = some d.adBytes ∧
      Layout E d.rp.rpID d.adBytes ad ∧ ad.flags &&& flagAttested ≠ 0 ∧
      ad.credentialID = d.credID := by
  unfold verifyAttestation at h
  cases hdecode : a.decode E with
  | error e => simp [hdecode, refuse] at h
  | ok d' =>
    simp only [hdecode] at h
    cases hclient : checkClientData E g d' "webauthn.create" .register (some s.token) with
    | mk g₁ r =>
      cases r with
      | error e => simp [hclient, refuse] at h
      | ok t' =>
        simp only [hclient] at h
        cases hatt : checkAttestation E d' with
        | error e => simp [hatt, refuse] at h
        | ok ad' =>
          simp only [hatt, Outcome.next.injEq, List.cons.injEq, Instr.createPasskey.injEq,
            and_true] at h
          obtain ⟨-, -, -, rfl, rfl⟩ := h
          obtain ⟨hparse, hid, hne⟩ := checkAttestation_ok hatt
          have hlayout := parseAuthData_iff_layout.1 hparse
          obtain ⟨_, _, _, -, -, -, -, -, -, hnone⟩ := hlayout.bytes
          obtain ⟨hcred, had⟩ := decode_ok hdecode
          refine ⟨hcred, had, hlayout, fun hflag => ?_, hid⟩
          rw [hid] at hnone
          exact hne (hnone hflag)

/-- `parseAuthData` reads within its bytes and accepts exactly the layout; it reads back what is
encoded, and a registration names the credential that is embedded. -/
theorem authData_parsed_exactly (E : Env) (rpID : String) (b : Bytes) :
    readAuthData E b rpID = some (parseAuthData E b rpID) ∧
      (∀ ad, parseAuthData E b rpID = .ok ad ↔ Layout E rpID b ad) ∧
      (∀ (flags : UInt8) (count : ℕ) (aaguid id extra : Bytes), (E.sha256 rpID).length = 32 →
        flags &&& flagUserPresent ≠ 0 → flags &&& flagUserVerified ≠ 0 →
        flags &&& flagAttested ≠ 0 → count < 2 ^ 32 → aaguid.length = 16 → 1 ≤ id.length →
        id.length ≤ 65535 →
        parseAuthData E (encodeAuthData E rpID flags count aaguid id ++ extra) rpID =
          .ok ⟨flags, count, id⟩) ∧
      ∀ g s a g' t s' d ad, verifyAttestation E g s a = .next g' [.createPasskey t s' d ad] →
        E.decode a.id = some d.credID ∧ E.decode a.authenticatorData = some d.adBytes ∧
          Layout E d.rp.rpID d.adBytes ad ∧ ad.flags &&& flagAttested ≠ 0 ∧
          ad.credentialID = d.credID := by
  refine ⟨readAuthData_eq E b rpID, fun ad => parseAuthData_iff_layout, ?_, ?_⟩
  · intro flags count aaguid id extra hhash hpresent hverified hattested hcount haaguid hpos hid
    exact parse_encode hhash hpresent hverified hattested hcount haaguid hpos (by omega) extra
  · intro g s a g' t s' d ad h
    exact verifyAttestation_id h

def zeroHash : Env where
  decode _ := none
  clientData _ := none
  sha256 _ := List.replicate 32 0
  verifySignature _ _ _ _ _ := false
  parsePublicKey _ _ := none

theorem authData_parsed_exactly_one_byte :
    parseAuthData zeroHash (encodeAuthData zeroHash "hub" 0x45 7 (List.replicate 16 1) [9] ++ [0xa0])
      "hub" = .ok ⟨0x45, 7, [9]⟩ :=
  (authData_parsed_exactly zeroHash "hub" []).2.2.1 0x45 7 (List.replicate 16 1) [9] [0xa0]
    (by decide) (by decide) (by decide) (by decide) (by decide) (by decide) (by decide) (by decide)

end Lotse.Passkeys
