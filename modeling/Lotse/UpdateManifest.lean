import Lotse.VersionOrder

set_option autoImplicit false

namespace Lotse.Updates
open Versions

abbrev Bytes := List UInt8

structure Manifest where
  file : String
  version : String
  size : ℤ
  sha256 : String
  signature : String
  deriving DecidableEq

/-- The machine an agent runs on, the path of its binary and the libraries it is linked
with. `reports` is the version a binary was built with. -/
structure Platform where
  goos : String
  goarch : String
  exe : String
  unmarshal : Bytes → Option Manifest
  decodeBase64 : String → Option Bytes
  ed25519Verify : Bytes → String → Bytes → Bool
  sha256 : Bytes → Bytes
  quote : String → String
  reports : Bytes → String

def agentName : String := "lotse-agent"

def agentFile (goos goarch : String) : String :=
  agentName ++ "-" ++ goos ++ "-" ++ goarch ++ if goos = "windows" then ".exe" else ""

def hexDigit (n : ℕ) : Char := Char.ofNat (if n < 10 then n + '0'.toNat else n - 10 + 'a'.toNat)

def hexEncode (b : Bytes) : String :=
  String.ofList (b.flatMap fun x => [hexDigit (x.toNat / 16), hexDigit (x.toNat % 16)])

def trustedKeys : List String := ["lITcC4wbtAxvFw8+vlnsF174FzVYVYm8Qgn9D+0aT64="]

def signedPrefix : String := "lotse-agent-update-v1"

def publicKeySize : ℕ := 32

def signatureSize : ℕ := 64

namespace Manifest

def validField (f : String) : Bool := f ≠ "" ∧ '\n' ∉ f.toList ∧ '\r' ∉ f.toList

def text (m : Manifest) : String :=
  signedPrefix ++ "\n" ++ m.file ++ "\n" ++ m.version ++ "\n" ++ toString m.size ++ "\n" ++
    m.sha256 ++ "\n"

def message (P : Platform) (m : Manifest) : Except String String :=
  if ¬ [m.file, m.version, m.sha256].all validField then
    .error "manifest has an empty or invalid field"
  else if parseVersion m.version = none then
    .error ("version " ++ P.quote m.version ++ " is not a release version")
  else if m.size ≤ 0 then .error "manifest has no size"
  else .ok m.text

/-- A key that is not one is skipped. -/
def signedBy (P : Platform) (msg : String) (sig : Bytes) (key : String) : Bool :=
  match P.decodeBase64 key with
  | some pub => pub.length = publicKeySize ∧ P.ed25519Verify pub msg sig
  | none => false

def verify (P : Platform) (m : Manifest) : Except String Unit := do
  let msg ← m.message P
  match P.decodeBase64 m.signature with
  | none => throw "manifest signature is malformed"
  | some sig =>
    if sig.length ≠ signatureSize then throw "manifest signature is malformed"
    else if trustedKeys.any (signedBy P msg sig) then return ()
    else throw "the update is not signed with a trusted release key"

def Describes (P : Platform) (m : Manifest) (b : Bytes) : Prop :=
  (b.length : ℤ) = m.size ∧ hexEncode (P.sha256 b) = m.sha256

instance (P : Platform) (m : Manifest) (b : Bytes) : Decidable (m.Describes P b) :=
  inferInstanceAs (Decidable (_ ∧ _))

end Manifest

/-- Every signed binary reports the version of its manifest. -/
def SignedReports (P : Platform) : Prop :=
  ∀ (m : Manifest) (b : Bytes), m.verify P = .ok () → m.Describes P b → P.reports b = m.version

/-- Agents are about 10 MB. -/
def maxUpdateSize : ℤ := 200 * 2 ^ 20

/-- The checks of `handleUpdate` before it takes the `updating` flag. -/
def checkUpdate (P : Platform) (disableUpdates : Bool) (running : String) (extraData : Bytes) :
    Except String Manifest :=
  if disableUpdates then
    .error "updates are disabled on this machine (installed with --no-updates)"
  else match P.unmarshal extraData with
  | none => .error "invalid update manifest"
  | some m =>
    match m.verify P with
    | .error e => .error e
    | .ok () =>
      if m.file ≠ agentFile P.goos P.goarch then
        .error ("the update is " ++ m.file ++ ", this machine needs " ++ agentFile P.goos P.goarch)
      else if ¬ newer m.version running then
        .error ("version " ++ m.version ++ " is not newer than the installed " ++ running)
      else if maxUpdateSize < m.size then .error "the update is too large"
      else .ok m

structure Admitted (P : Platform) (disableUpdates : Bool) (running : String) (m : Manifest) :
    Prop where
  enabled : disableUpdates = false
  verified : m.verify P = .ok ()
  platform : m.file = agentFile P.goos P.goarch
  newer : newer m.version running

theorem admitted_of_checkUpdate {P : Platform} {disableUpdates : Bool} {running : String}
    {extraData : Bytes} {m : Manifest} (h : checkUpdate P disableUpdates running extraData = .ok m) :
    Admitted P disableUpdates running m := by
  cases disableUpdates with
  | true => cases h
  | false =>
    simp only [checkUpdate, Bool.false_eq_true, if_false] at h
    split at h
    · cases h
    · split at h
      · cases h
      · rename_i hverify
        split_ifs at h with hfile hnewer hsize
        cases h
        exact ⟨rfl, hverify, not_not.1 hfile, hnewer⟩

section signed
variable {P : Platform} {m : Manifest}

theorem message_of_verify (h : m.verify P = .ok ()) : m.message P = .ok m.text := by
  unfold Manifest.verify at h
  cases hm : m.message P with
  | error e =>
    rw [hm] at h
    cases h
  | ok msg =>
    unfold Manifest.message at hm
    split_ifs at hm
    exact hm.symm

theorem signed_of_verify (h : m.verify P = .ok ()) :
    ∃ pub sig, P.ed25519Verify pub m.text sig := by
  have hm := message_of_verify h
  simp only [Manifest.verify, hm, bind, Except.bind] at h
  split at h
  · cases h
  · rename_i sig hsig
    split_ifs at h with hlen htrusted
    obtain ⟨key, -, hkey⟩ := List.any_eq_true.1 htrusted
    unfold Manifest.signedBy at hkey
    split at hkey
    · exact ⟨_, sig, (of_decide_eq_true hkey).2⟩
    · cases hkey

end signed

theorem line_inj {a b s t : List Char} (ha : '\n' ∉ a) (hb : '\n' ∉ b)
    (h : a ++ '\n' :: s = b ++ '\n' :: t) : a = b ∧ s = t := by
  induction a generalizing b with
  | nil =>
    cases b with
    | nil => exact ⟨rfl, List.tail_eq_of_cons_eq h⟩
    | cons c b =>
      rw [List.nil_append, List.cons_append, List.cons.injEq] at h
      exact absurd (h.1 ▸ List.mem_cons_self) hb
  | cons d a ih =>
    cases b with
    | nil =>
      rw [List.nil_append, List.cons_append, List.cons.injEq] at h
      exact absurd (h.1 ▸ List.mem_cons_self) ha
    | cons c b =>
      rw [List.cons_append, List.cons_append, List.cons.injEq] at h
      obtain ⟨rfl, h⟩ := h
      obtain ⟨rfl, rfl⟩ := ih (fun hm => ha (List.mem_cons_of_mem _ hm))
        (fun hm => hb (List.mem_cons_of_mem _ hm)) h
      exact ⟨rfl, rfl⟩

theorem text_lines (m : Manifest) : m.text.toList = signedPrefix.toList ++ '\n' ::
    (m.file.toList ++ '\n' :: (m.version.toList ++ '\n' ::
      ((toString m.size).toList ++ '\n' :: (m.sha256.toList ++ ['\n'])))) := by
  simp [Manifest.text]

theorem newline_notMem_toString {n : ℤ} (h : 0 < n) : '\n' ∉ (toString n).toList := by
  obtain ⟨k, rfl⟩ := Int.eq_ofNat_of_zero_le h.le
  change '\n' ∉ (Nat.repr k).toList
  rw [Nat.toList_repr]
  intro hmem
  exact absurd (Nat.isDigit_of_mem_toDigits (by decide) (by decide) hmem) (by decide)

theorem valid_of_message {P : Platform} {m : Manifest} {t : String} (h : m.message P = .ok t) :
    t = m.text ∧ (∀ f ∈ [m.file, m.version, m.sha256], '\n' ∉ f.toList) ∧ 0 < m.size := by
  unfold Manifest.message at h
  split_ifs at h with hvalid hversion hsize
  cases h
  have hfields : ∀ f ∈ [m.file, m.version, m.sha256], Manifest.validField f :=
    List.all_eq_true.1 hvalid
  exact ⟨rfl, fun f hf => (of_decide_eq_true (hfields f hf)).2.1, not_le.1 hsize⟩

theorem message_lines {P : Platform} {a b : Manifest} {t : String} (ha : a.message P = .ok t)
    (hb : b.message P = .ok t) : a.file = b.file ∧ a.version = b.version ∧
      toString a.size = toString b.size ∧ a.sha256 = b.sha256 := by
  obtain ⟨rfl, hla, hsa⟩ := valid_of_message ha
  obtain ⟨heq, hlb, hsb⟩ := valid_of_message hb
  have hlines := congrArg String.toList heq
  rw [text_lines, text_lines] at hlines
  obtain ⟨hfile, hlines⟩ := line_inj (hla a.file (by simp)) (hlb b.file (by simp))
    (List.cons.inj (List.append_cancel_left hlines)).2
  obtain ⟨hversion, hlines⟩ := line_inj (hla a.version (by simp)) (hlb b.version (by simp)) hlines
  obtain ⟨hsize, hlines⟩ := line_inj (newline_notMem_toString hsa) (newline_notMem_toString hsb) hlines
  obtain ⟨hsha, -⟩ := line_inj (hla a.sha256 (by simp)) (hlb b.sha256 (by simp)) hlines
  exact ⟨String.toList_inj.1 hfile, String.toList_inj.1 hversion, String.toList_inj.1 hsize,
    String.toList_inj.1 hsha⟩

theorem message_inj {P : Platform} {a b : Manifest} {t : String} (ha : a.message P = .ok t)
    (hb : b.message P = .ok t) : a.file = b.file ∧ a.version = b.version ∧ a.sha256 = b.sha256 := by
  obtain ⟨hfile, hversion, -, hsha⟩ := message_lines ha hb
  exact ⟨hfile, hversion, hsha⟩

end Lotse.Updates
