import Lotse.UpdateManifest
import Lotse.SemverPrecedence
import Lotse.JsonValues
import Lotse.Base64

set_option autoImplicit false

/-!
# Signing and reading manifests

`Sign` and `ReadManifest` with the libraries they use: base64, JSON and an ideal Ed25519. A
string of the source is a string with one character for each of its bytes, so that text
which is not UTF-8 is one, too.
-/
namespace Lotse.Updates
open Versions Json

/-- Ed25519 as an ideal. `log` is what was signed so far, with whatever key: a signature is
accepted only if its key has signed the message. -/
structure Ed25519 where
  PrivateKey : Type
  publicKey : PrivateKey → Bytes
  sign : PrivateKey → String → Bytes
  verify : List (PrivateKey × String) → Bytes → String → Bytes → Bool
  publicKey_length : ∀ k, (publicKey k).length = publicKeySize
  sign_length : ∀ k msg, (sign k msg).length = signatureSize
  complete : ∀ log k msg, (k, msg) ∈ log → verify log (publicKey k) msg (sign k msg) = true
  unforgeable : ∀ log pub msg sig, verify log pub msg sig = true →
    ∃ k, publicKey k = pub ∧ (k, msg) ∈ log

def filepathBase (path : Bytes) : Bytes :=
  if path = [] then literal "."
  else
    let trimmed := path.reverse.dropWhile (· = ascii '/')
    if trimmed = [] then literal "/" else (trimmed.takeWhile (· ≠ ascii '/')).reverse

/-- What an int64 holds after counting to `n`. -/
def int64 (n : ℕ) : ℤ := (n : ℤ).bmod (2 ^ 64)

namespace Manifest

inductive Field where
  | file
  | version
  | size
  | sha256
  | signature
  deriving DecidableEq

def fieldNames : List (Bytes × Field) :=
  [(literal "file", .file), (literal "version", .version), (literal "size", .size),
    (literal "sha256", .sha256), (literal "signature", .signature)]

/-- Names are compared without case; the long s and the Kelvin sign are letters, too. -/
def foldName : Bytes → Bytes
  | 0xC5 :: 0xBF :: s => ascii 's' :: foldName s
  | 0xE2 :: 0x84 :: 0xAA :: s => ascii 'k' :: foldName s
  | b :: s => (if 0x41 ≤ b.toNat ∧ b.toNat ≤ 0x5A then b + 0x20 else b) :: foldName s
  | [] => []

/-- One member of the object: null and unknown names change nothing. -/
def setField (m : Manifest) (member : Bytes × Value) : Option Manifest :=
  match fieldNames.lookup (foldName member.1), member.2 with
  | none, _ | _, .null => some m
  | some .file, .string s => some { m with file := ofBytes s }
  | some .version, .string s => some { m with version := ofBytes s }
  | some .size, .number text => (atoi (ofBytes text).toList).map fun n => { m with size := n }
  | some .sha256, .string s => some { m with sha256 := ofBytes s }
  | some .signature, .string s => some { m with signature := ofBytes s }
  | _, _ => none

def zero : Manifest := ⟨"", "", 0, "", ""⟩

def decode : Value → Option Manifest
  | .null => some zero
  | .object members => members.foldlM setField zero
  | _ => none

def unmarshal (data : Bytes) : Option Manifest := (parse data).bind decode

def members (m : Manifest) : List (Bytes × Scalar) :=
  [(literal "file", .string (literal m.file)), (literal "version", .string (literal m.version)),
    (literal "size", .int m.size), (literal "sha256", .string (literal m.sha256)),
    (literal "signature", .string (literal m.signature))]

/-- `json.Marshal` and `json.MarshalIndent` differ in the layout only. -/
def marshal (layout : Layout) (m : Manifest) : Bytes := render layout m.members

end Manifest

/-- The file that `cmd/sign` writes: `json.MarshalIndent` and a newline. -/
def indented : Layout where
  first := literal "\n  "
  next := literal "\n  "
  colon := literal " "
  last := literal "\n"
  after := literal "\n"
  space := List.all_iff_forall_prop.1 (by decide)

section signing
variable (E : Ed25519) (P : Platform)

/-- The platform with these libraries, after the messages in `log` were signed. -/
def linked (log : List (E.PrivateKey × String)) : Platform :=
  { P with
    unmarshal := Manifest.unmarshal
    decodeBase64 := fun s => Base64.decodeString s.toList
    ed25519Verify := E.verify log }

/-- `Sign` with what reading the file gave; it returns what has been signed now. -/
def sign (log : List (E.PrivateKey × String)) (file : Except String Bytes) (path version : Bytes)
    (key : E.PrivateKey) : Except String Manifest × List (E.PrivateKey × String) :=
  match file with
  | .error e => (.error e, log)
  | .ok data =>
    let m : Manifest := ⟨ofBytes (filepathBase path), ofBytes version, int64 data.length,
      hexEncode (P.sha256 data), ""⟩
    match m.message P with
    | .error e => (.error e, log)
    | .ok msg => (.ok { m with signature := String.ofList (Base64.encodeToString (E.sign key msg)) },
      log ++ [(key, msg)])

/-- `ReadManifest` with what reading the file gave. -/
def readManifest (file : Option Bytes) : Option Manifest := file.bind Manifest.unmarshal

def Trusted (k : E.PrivateKey) : Prop :=
  ∃ key ∈ trustedKeys, Base64.decodeString key.toList = some (E.publicKey k)

/-- The key has signed a message that stands for the fields of `m` and for no others. -/
def Signed (log : List (E.PrivateKey × String)) (k : E.PrivateKey) (m : Manifest) : Prop :=
  ∃ msg, (k, msg) ∈ log ∧ m.message P = .ok msg ∧ ∀ a : Manifest, a.message P = .ok msg →
    a.file = m.file ∧ a.version = m.version ∧ a.size = m.size ∧ a.sha256 = m.sha256

end signing

section sizes

theorem digitsValue_append (s : List Char) (c : Char) :
    digitsValue (s ++ [c]) = 10 * digitsValue s + digitValue c := by
  rw [digitsValue, List.foldl_append]
  rfl

theorem digitsValue_toDigits (k : ℕ) : digitsValue (Nat.toDigits 10 k) = k := by
  induction k using Nat.strong_induction_on with
  | _ k ih =>
    have hdigit : ∀ d < 10, digitValue (Nat.digitChar d) = d := by decide
    by_cases hlt : k < 10
    · rw [Nat.toDigits_of_lt_base hlt]
      simpa [digitsValue, digitValue] using hdigit k hlt
    · rw [Nat.toDigits_of_base_le (by decide) (not_lt.1 hlt), digitsValue_append,
        ih (k / 10) (by omega), hdigit (k % 10) (by omega)]
      omega

theorem toList_toString {n : ℤ} (h : 0 < n) : (toString n).toList = Nat.toDigits 10 n.toNat := by
  obtain ⟨k, rfl⟩ := Int.eq_ofNat_of_zero_le h.le
  change (Nat.repr k).toList = _
  rw [Nat.toList_repr]
  rfl

theorem size_inj {n m : ℤ} (hn : 0 < n) (hm : 0 < m) (h : toString n = toString m) : n = m := by
  have hlist := congrArg (fun s => digitsValue s.toList) h
  simp only [toList_toString hn, toList_toString hm, digitsValue_toDigits] at hlist
  omega

theorem atoi_toString {n : ℤ} (h : 0 < n) (hmax : n < 2 ^ 63) : atoi (toString n).toList = some n := by
  have hdigits : digits (Nat.toDigits 10 n.toNat) :=
    List.all_eq_true.2 fun c hc => Nat.isDigit_of_mem_toDigits (by decide) (by decide) hc
  have hvalue := digitsValue_toDigits n.toNat
  have hfits : n.toNat ≤ maxInt := by
    unfold maxInt
    omega
  rw [toList_toString h, atoi_digits Nat.toDigits_ne_nil hdigits (hvalue.symm ▸ hfits), hvalue]
  simp [h.le]

end sizes

section bytes

theorem ascii_hexEncode (b : Bytes) : Ascii (hexEncode b) := by
  have hdigit : ∀ n < 16, (hexDigit n).toNat < 0x80 := by decide
  intro c hc
  simp only [hexEncode, String.toList_ofList, List.mem_flatMap] at hc
  obtain ⟨x, -, hx⟩ := hc
  have hlt := x.toNat_lt
  rcases List.mem_pair.1 hx with rfl | rfl
  · exact hdigit _ (by omega)
  · exact hdigit _ (by omega)

theorem ascii_base64 (b : Bytes) : Ascii (String.ofList (Base64.encodeToString b)) := by
  have hsymbol : ∀ n < 64, (Base64.symbol n).toNat < 0x80 := by decide +kernel
  intro c hc
  rw [String.toList_ofList] at hc
  rcases Base64.mem_encodeToString hc with rfl | ⟨n, hn, rfl⟩
  · decide
  · exact hsymbol n hn

theorem ascii_toString {n : ℤ} (h : 0 < n) : Ascii (toString n) := by
  intro c hc
  rw [toList_toString h] at hc
  have := toNat_of_isDigit (Nat.isDigit_of_mem_toDigits (by decide) (by decide) hc)
  omega

end bytes

structure Storable (m : Manifest) : Prop where
  narrow : ∀ f ∈ [m.file, m.version, m.sha256, m.signature], Narrow f
  valid : ∀ f ∈ [m.file, m.version, m.sha256, m.signature], Utf8.Valid (literal f)
  size : 0 < m.size ∧ m.size < 2 ^ 63

theorem readMember_string {name f : String} (hname : Ascii name) (hf : Utf8.Valid (literal f)) :
    readMember (literal name, .string (literal f)) = (literal name, .string (literal f)) := by
  simp only [readMember, Scalar.value, coerce_of_valid hname.valid, coerce_of_valid hf]

theorem unmarshal_marshal (layout : Layout) {m : Manifest} (h : Storable m) :
    Manifest.unmarshal (m.marshal layout) = some m := by
  obtain ⟨hnarrow, hvalid, hpos, hmax⟩ := h
  simp only [List.forall_mem_cons, List.not_mem_nil, false_imp_iff, implies_true, and_true]
    at hnarrow hvalid
  have hsize : atoi (ofBytes (literal (toString m.size))).toList = some m.size := by
    rw [ofBytes_literal (ascii_toString hpos).narrow, atoi_toString hpos hmax]
  have hmembers : m.members.map readMember =
      [(literal "file", .string (literal m.file)), (literal "version", .string (literal m.version)),
        (literal "size", .number (literal (toString m.size))),
        (literal "sha256", .string (literal m.sha256)),
        (literal "signature", .string (literal m.signature))] := by
    have hnames : ∀ name ∈ ["file", "version", "size", "sha256", "signature"], Ascii name := by
      simp [Ascii]
    simp only [List.forall_mem_cons, List.not_mem_nil, false_imp_iff, implies_true, and_true]
      at hnames
    obtain ⟨file, version, size, sha256, signature⟩ := hnames
    simp only [Manifest.members, List.map_cons, List.map_nil]
    rw [readMember_string file hvalid.1, readMember_string version hvalid.2.1,
      readMember_string sha256 hvalid.2.2.1, readMember_string signature hvalid.2.2.2,
      readMember, coerce_of_valid size.valid, Scalar.value]
  have hparse : parse (render layout m.members) = some (.object (m.members.map readMember)) :=
    parse_render layout (List.cons_ne_nil _ _)
  rw [Manifest.unmarshal, Manifest.marshal, hparse, hmembers, Option.bind_some, Manifest.decode]
  have hlookup : ∀ p ∈ Manifest.fieldNames,
      Manifest.fieldNames.lookup (Manifest.foldName p.1) = some p.2 := by decide +kernel
  simp only [Manifest.fieldNames, List.forall_mem_cons] at hlookup
  obtain ⟨hfile, hversion, hsizeField, hsha, hsignature, -⟩ := hlookup
  simp only [List.foldlM_cons, List.foldlM_nil, Manifest.setField, Manifest.fieldNames, hfile, hversion,
    hsizeField, hsha, hsignature, hsize, Option.bind_eq_bind, Option.bind_some, Option.map_some,
    ofBytes_literal hnarrow.1, ofBytes_literal hnarrow.2.1, ofBytes_literal hnarrow.2.2.1,
    ofBytes_literal hnarrow.2.2.2]
  rfl

section signing
variable {E : Ed25519} {P : Platform} {log : List (E.PrivateKey × String)} {k : E.PrivateKey}
  {m : Manifest} {msg : String}

theorem signed_of_verify_linked (h : m.verify (linked E P log) = .ok ()) :
    ∃ k, Trusted E k ∧ Signed E P log k m := by
  have hlinked : m.message (linked E P log) = .ok m.text := message_of_verify h
  have hmessage : m.message P = .ok m.text := hlinked
  simp only [Manifest.verify, hlinked, bind, Except.bind] at h
  split at h
  · cases h
  · rename_i sig hsig
    split_ifs at h with hlen htrusted
    obtain ⟨key, hkey, hsigned⟩ := List.any_eq_true.1 htrusted
    unfold Manifest.signedBy at hsigned
    split at hsigned
    · rename_i pub hpub
      obtain ⟨k, hk, hlog⟩ := E.unforgeable log pub m.text sig (of_decide_eq_true hsigned).2
      refine ⟨k, ⟨key, hkey, hk ▸ hpub⟩, m.text, hlog, hmessage, ?_⟩
      intro a ha
      obtain ⟨hfile, hversion, hsize, hsha⟩ := message_lines ha hmessage
      exact ⟨hfile, hversion,
        size_inj (valid_of_message ha).2.2 (valid_of_message hmessage).2.2 hsize, hsha⟩
    · cases hsigned

theorem verify_linked (hmessage : m.message P = .ok msg)
    (hsignature : m.signature = String.ofList (Base64.encodeToString (E.sign k msg)))
    (htrusted : Trusted E k) (hlog : (k, msg) ∈ log) : m.verify (linked E P log) = .ok () := by
  have hlinked : m.message (linked E P log) = .ok msg := hmessage
  have hdecode : (linked E P log).decodeBase64 m.signature = some (E.sign k msg) := by
    change Base64.decodeString m.signature.toList = _
    rw [hsignature, String.toList_ofList, Base64.decodeString_encode]
  have hany : trustedKeys.any (Manifest.signedBy (linked E P log) msg (E.sign k msg)) = true := by
    obtain ⟨key, hkey, hpub⟩ := htrusted
    refine List.any_eq_true.2 ⟨key, hkey, ?_⟩
    have hpub' : (linked E P log).decodeBase64 key = some (E.publicKey k) := hpub
    rw [Manifest.signedBy, hpub']
    exact decide_eq_true ⟨E.publicKey_length k, E.complete log k msg hlog⟩
  simp only [Manifest.verify, hlinked, hdecode, bind, Except.bind, E.sign_length, hany]
  rfl

theorem int64_lt (n : ℕ) : int64 n < 2 ^ 63 := by
  have := Int.bmod_lt (x := (n : ℤ)) (m := 2 ^ 64) (by decide)
  unfold int64
  omega

theorem sign_ok {file : Except String Bytes} {path version : Bytes}
    {log' : List (E.PrivateKey × String)} (h : sign E P log file path version k = (.ok m, log')) :
    ∃ msg, m.message P = .ok msg ∧ log' = log ++ [(k, msg)] ∧
      m.signature = String.ofList (Base64.encodeToString (E.sign k msg)) ∧
      Narrow m.file ∧ Narrow m.version ∧ Ascii m.sha256 ∧ m.size < 2 ^ 63 := by
  unfold sign at h
  cases file with
  | error e => cases h
  | ok data =>
    simp only at h
    split at h
    · cases h
    · rename_i msg hmessage
      cases h
      refine ⟨msg, hmessage, rfl, rfl, narrow_ofBytes _, narrow_ofBytes _, ascii_hexEncode _, ?_⟩
      simpa only using int64_lt data.length

end signing

/-- A signature stands for one file, version, size and hash: what verifies was signed by a
trusted key, and what `Sign` returns verifies, also when it is written and read again. -/
theorem signatures_bound (E : Ed25519) (P : Platform) :
    (∀ (a b : Manifest) (msg : String), a.message P = .ok msg → b.message P = .ok msg →
      a.file = b.file ∧ a.version = b.version ∧ a.size = b.size ∧ a.sha256 = b.sha256) ∧
    (∀ (log : List (E.PrivateKey × String)) (m : Manifest), m.verify (linked E P log) = .ok () →
      ∃ k, Trusted E k ∧ Signed E P log k m) ∧
    ∀ (log log' : List (E.PrivateKey × String)) (file : Except String Bytes) (path version : Bytes)
      (k : E.PrivateKey) (m : Manifest), Trusted E k →
      sign E P log file path version k = (.ok m, log') → ∀ later,
        m.verify (linked E P (log' ++ later)) = .ok () ∧
        (Utf8.Valid (literal m.file) → Utf8.Valid (literal m.version) → ∀ layout,
          ∃ m', readManifest (some (m.marshal layout)) = some m' ∧
            m'.verify (linked E P (log' ++ later)) = .ok ()) := by
  refine ⟨?_, fun log m h => signed_of_verify_linked h, ?_⟩
  · intro a b msg ha hb
    obtain ⟨hfile, hversion, hsize, hsha⟩ := message_lines ha hb
    exact ⟨hfile, hversion,
      size_inj (valid_of_message ha).2.2 (valid_of_message hb).2.2 hsize, hsha⟩
  · intro log log' file path version k m htrusted h later
    obtain ⟨msg, hmessage, rfl, hsignature, hfile, hversion, hsha, hsize⟩ := sign_ok h
    have hverify : m.verify (linked E P (log ++ [(k, msg)] ++ later)) = .ok () :=
      verify_linked hmessage hsignature htrusted (by simp)
    refine ⟨hverify, fun vfile vversion layout => ⟨m, ?_, hverify⟩⟩
    have hsig : Ascii m.signature := hsignature ▸ ascii_base64 _
    refine unmarshal_marshal layout ⟨?_, ?_, (valid_of_message hmessage).2.2, hsize⟩
    · simp [hfile, hversion, hsha.narrow, hsig.narrow]
    · simp [vfile, vversion, hsha.valid, hsig.valid]

theorem trustedKey_length :
    ((Base64.decodeString (trustedKeys.headD "").toList).getD []).length = publicKeySize := by
  decide +kernel

def recorded : Ed25519 where
  PrivateKey := Unit
  publicKey _ := (Base64.decodeString (trustedKeys.headD "").toList).getD []
  sign _ _ := List.replicate signatureSize 0
  verify log pub msg sig := log.any fun e =>
    pub = (Base64.decodeString (trustedKeys.headD "").toList).getD [] ∧ e.2 = msg ∧
      sig = List.replicate signatureSize 0
  publicKey_length := fun _ => trustedKey_length
  sign_length := fun _ _ => by simp
  complete := fun log k msg h => List.any_eq_true.2 ⟨(k, msg), h, by simp⟩
  unforgeable := fun log pub msg sig h => by
    obtain ⟨e, he, hmatch⟩ := List.any_eq_true.1 h
    obtain ⟨hpub, hmsg, -⟩ := of_decide_eq_true hmatch
    exact ⟨e.1, hpub.symm, hmsg ▸ he⟩

def builder : Platform where
  goos := "linux"
  goarch := "amd64"
  exe := "/usr/bin/lotse-agent"
  unmarshal := Manifest.unmarshal
  decodeBase64 := fun s => Base64.decodeString s.toList
  ed25519Verify := fun _ _ _ => false
  sha256 := fun b => [b.length.toUInt8]
  quote := id
  reports := fun _ => ""

theorem trusted_recorded : Trusted recorded () := by
  refine ⟨trustedKeys.headD "", List.mem_singleton_self _, ?_⟩
  dsimp only [recorded]
  cases hkey : Base64.decodeString (trustedKeys.headD "").toList with
  | none =>
    have hlength := trustedKey_length
    rw [hkey] at hlength
    cases hlength
  | some pub => rfl

theorem signatures_bound_release : ∃ m log',
    sign recorded builder [] (.ok [0x62]) (literal "dist/lotse-agent-linux-amd64") (literal "1.2.3") () =
      (.ok m, log') ∧
    m.file = "lotse-agent-linux-amd64" ∧ m.verify (linked recorded builder log') = .ok () ∧
    ∃ m', readManifest (some (m.marshal indented)) = some m' ∧
      m'.verify (linked recorded builder log') = .ok () := by
  have hsign : sign recorded builder [] (.ok [0x62]) (literal "dist/lotse-agent-linux-amd64")
      (literal "1.2.3") () = (.ok ⟨"lotse-agent-linux-amd64", "1.2.3", 1, "01",
        String.ofList (Base64.encodeToString (List.replicate signatureSize 0))⟩,
        [((), "lotse-agent-update-v1\nlotse-agent-linux-amd64\n1.2.3\n1\n01\n")]) := by
    rfl
  obtain ⟨hverify, hread⟩ := (signatures_bound recorded builder).2.2 _ _ _ _ _ () _ trusted_recorded
    hsign []
  have hvalid : ∀ s, Ascii s → Utf8.Valid (literal s) := fun s h => h.valid
  refine ⟨_, _, hsign, rfl, hverify, hread (hvalid _ ?_) (hvalid _ ?_) indented⟩
  · exact List.all_iff_forall_prop.1 (by decide +kernel)
  · exact List.all_iff_forall_prop.1 (by decide +kernel)

end Lotse.Updates
