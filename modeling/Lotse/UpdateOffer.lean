import Lotse.ManifestSigning
import Lotse.UpdateInstall

set_option autoImplicit false

namespace Lotse.Updates
open Versions Json

def compact : Layout := ⟨[], [], [], [], [], by simp⟩

def manifestExt : String := ".sig"

/-- The agent folder of the hub. `gzipHeader` and `gunzip` are the library: whether a reader
can be made, and what it reads. -/
structure AgentDir where
  names : List String
  read : String → Option Bytes
  gzipHeader : Bytes → Bool
  gunzip : Bytes → Stream

namespace AgentDir

/-- A packed file that cannot be read is not replaced by the plain one. -/
def openAgentBinary (dir : AgentDir) (name : String) : Option Stream :=
  match dir.read (name ++ ".gz") with
  | some packed => if dir.gzipHeader packed then some (dir.gunzip packed) else none
  | none => (dir.read name).map fun b => ⟨[b], none⟩

def loadManifest (P : Platform) (dir : AgentDir) (path : String) : Option Manifest :=
  match readManifest (dir.read path) with
  | none => none
  | some m =>
    match m.verify P with
    | .error _ => none
    | .ok () =>
      if m.file ++ manifestExt = path ∧ (dir.openAgentBinary m.file).isSome then some m else none

/-- `path.Glob` and the loop: the map from file names to manifests. -/
def loadUpdates (P : Platform) (dir : AgentDir) : String → Option Manifest :=
  (dir.names.filter fun name => name.toList.drop (name.length - 4) = manifestExt.toList).foldl
    (fun updates path =>
      match dir.loadManifest P path with
      | some m => Function.update updates m.file (some m)
      | none => updates)
    fun _ => none

def updateFor (P : Platform) (dir : AgentDir) (goos goarch version : String) : Option Manifest :=
  if goos = "" ∨ goarch = "" then none
  else
    match dir.loadUpdates P (agentFile goos goarch) with
    | some m => if newer m.version version then some m else none
    | none => none

end AgentDir

section offer
variable {P : Platform} {dir : AgentDir} {path : String} {m : Manifest}

theorem loadManifest_spec : dir.loadManifest P path = some m ↔
    readManifest (dir.read path) = some m ∧ m.verify P = .ok () ∧ m.file ++ manifestExt = path ∧
      (dir.openAgentBinary m.file).isSome = true := by
  unfold AgentDir.loadManifest
  constructor
  · intro h
    split at h
    · cases h
    · rename_i m' hm'
      split at h
      · cases h
      · rename_i hverify
        split_ifs at h with hok
        cases h
        exact ⟨hm', hverify, hok⟩
  · rintro ⟨hread, hverify, hok⟩
    rw [hread]
    dsimp only
    rw [hverify]
    exact if_pos hok

theorem manifestExt_inj {a b : String} (h : a ++ manifestExt = b ++ manifestExt) : a = b := by
  have hlist := congrArg String.toList h
  rw [String.toList_append, String.toList_append] at hlist
  exact String.toList_inj.1 (List.append_cancel_right hlist)

/-- Every offered manifest comes from the file of its own name, so that none replaces another. -/
theorem foldl_loadManifest (names : List String) (before : String → Option Manifest) (f : String) :
    names.foldl (fun updates path =>
      match dir.loadManifest P path with
      | some m => Function.update updates m.file (some m)
      | none => updates) before f =
    if f ++ manifestExt ∈ names then (dir.loadManifest P (f ++ manifestExt)).or (before f)
    else before f := by
  induction names generalizing before with
  | nil => rfl
  | cons path names ih =>
    rw [List.foldl_cons, ih]
    by_cases hpath : f ++ manifestExt = path
    · rw [if_pos (hpath ▸ List.mem_cons_self : f ++ manifestExt ∈ path :: names), hpath]
      cases hload : dir.loadManifest P path with
      | none => simp
      | some m =>
        have hfile := manifestExt_inj ((loadManifest_spec.1 hload).2.2.1.trans hpath.symm)
        rw [← hfile]
        simp
    · have hmem : f ++ manifestExt ∈ path :: names ↔ f ++ manifestExt ∈ names := by
        simp [hpath]
      simp only [hmem]
      cases hload : dir.loadManifest P path with
      | none => rfl
      | some m =>
        have hne : f ≠ m.file := by
          rintro rfl
          exact hpath (loadManifest_spec.1 hload).2.2.1
        simp only [Function.update_of_ne hne]

theorem mem_glob (f : String) (names : List String) :
    f ++ manifestExt ∈ names.filter (fun name => name.toList.drop (name.length - 4) = manifestExt.toList) ↔
      f ++ manifestExt ∈ names := by
  have hends : (f ++ manifestExt).toList.drop ((f ++ manifestExt).length - 4) = manifestExt.toList := by
    have hlen : (f ++ manifestExt).length - 4 = f.toList.length := by
      rw [String.length_append, show manifestExt.length = 4 from rfl, String.length_toList]
      omega
    rw [hlen, String.toList_append, List.drop_left]
  rw [List.mem_filter]
  exact and_iff_left (decide_eq_true hends)

theorem updateFor_spec {goos goarch version : String} : dir.updateFor P goos goarch version = some m ↔
    goos ≠ "" ∧ goarch ≠ "" ∧ m.file = agentFile goos goarch ∧ newer m.version version = true ∧
      m.file ++ manifestExt ∈ dir.names ∧ dir.loadManifest P (m.file ++ manifestExt) = some m := by
  have hload : dir.loadUpdates P (agentFile goos goarch) =
      if agentFile goos goarch ++ manifestExt ∈ dir.names then
        dir.loadManifest P (agentFile goos goarch ++ manifestExt) else none := by
    unfold AgentDir.loadUpdates
    rw [foldl_loadManifest]
    simp only [mem_glob, Option.or_none]
  unfold AgentDir.updateFor
  rw [hload]
  constructor
  · intro h
    split_ifs at h with hempty hmem
    · split at h
      · rename_i m' hm'
        split_ifs at h with hnewer
        cases h
        have hfile : m.file = agentFile goos goarch := manifestExt_inj (loadManifest_spec.1 hm').2.2.1
        rw [not_or] at hempty
        rw [hfile]
        exact ⟨hempty.1, hempty.2, rfl, hnewer, hmem, hm'⟩
      · cases h
  · rintro ⟨hgoos, hgoarch, hfile, hnewer, hmem, hm⟩
    rw [hfile] at hmem hm
    rw [if_neg (not_or.2 ⟨hgoos, hgoarch⟩), if_pos hmem, hm]
    exact if_pos hnewer

end offer

section install
variable {env : Environment}

theorem copyLoop_fine (hfine : ∀ op, env.error op = none) (reads : List Bytes) (k limit : ℕ)
    (written : Bytes) : (copyLoop env none reads k limit written).error = none := by
  induction reads generalizing k limit written with
  | nil => cases limit <;> rfl
  | cons read reads ih =>
    cases limit with
    | zero => rfl
    | succ limit =>
      rw [copyLoop]
      split
      · exact ih _ _ _
      · rw [hfine]
        exact ih _ _ _

theorem rename_fine {files : Files} {src dst : File} {b : Bytes} (hsrc : files src = some b) :
    rename files none src dst = .ok (Function.update (Function.update files dst (some b)) src none) := by
  unfold rename
  rw [hsrc]

theorem swap_fine (P : Platform) (hfine : ∀ op, env.error op = none) {files : Files} {n : ℕ}
    {b old : Bytes} (htmp : files (.tmp n) = some b) (hexe : files .exe = some old) :
    (swap P env files n).2 = none ∧ (swap P env files n).1 .exe = some b := by
  unfold swap
  split_ifs
  · have hkept : remove files (env.error .removeOld) .old (.tmp n) = some b :=
      (remove_other (by simp)).trans htmp
    have hrun : remove files (env.error .removeOld) .old .exe = some old :=
      (remove_other (by simp)).trans hexe
    unfold swapWindows
    rw [hfine .renameOld, rename_fine hrun]
    dsimp only
    rw [hfine .renameNew, rename_fine (b := b) (by simpa using hkept)]
    exact ⟨rfl, by simp⟩
  · rw [hfine .renameNew, rename_fine htmp]
    exact ⟨rfl, by simp⟩

theorem install_fine (P : Platform) (hfine : ∀ op, env.error op = none) {files : Files} {n : ℕ}
    {s : Stream} {m : Manifest} {old : Bytes} (hexe : files .exe = some old)
    (hstream : s.failure = none) (hdescribes : m.Describes P (s.bytes.take m.size.toNat))
    (hversion : m.version.toList <:+: env.output.toList) :
    (install P env files n s m).2 = none ∧
      (install P env files n s m).1 .exe = some (s.bytes.take m.size.toNat) := by
  have herror : (copy env s m.size).error = none := by
    unfold copy
    rw [hstream]
    exact copyLoop_fine hfine _ _ _ _
  obtain ⟨hfile, hhashed⟩ := copy_ok herror
  have hchecked : checkReceived P env m (copy env s m.size) = none := by
    unfold checkReceived
    rw [herror, hfine .close, hhashed]
    dsimp only [Option.none_or]
    rw [if_pos hdescribes, checkRuns, hfine .chmod, hfine .runVersion]
    exact if_pos hversion
  have htmp : Function.update files (.tmp n) (some (copy env s m.size).file) (.tmp n) =
      some (s.bytes.take m.size.toNat) := by
    rw [Function.update_self, hfile]
  have hne : File.exe ≠ .tmp n := by simp
  have hold : Function.update files (.tmp n) (some (copy env s m.size).file) .exe = some old :=
    (Function.update_of_ne hne _ _).trans hexe
  obtain ⟨hnone, hplaced⟩ := swap_fine P hfine htmp hold
  unfold install
  rw [hfine .createTemp]
  dsimp only
  rw [hchecked]
  exact ⟨hnone, (remove_other hne).trans hplaced⟩

end install

section release
variable {E : Ed25519} {P : Platform} {log log' : List (E.PrivateKey × String)} {k : E.PrivateKey}
  {m : Manifest} {data path version : Bytes}

theorem sign_describes (h : sign E P log (.ok data) path version k = (.ok m, log'))
    (hlen : data.length < 2 ^ 63) : m.Describes P data ∧ data.take m.size.toNat = data := by
  have hsize : int64 data.length = data.length := by
    unfold int64
    rw [Int.bmod_eq_of_le] <;> omega
  unfold sign at h
  simp only at h
  split at h
  · cases h
  · cases h
    simp only [Manifest.Describes, hsize]
    simp

/-- A binary that a release key signed lies in the agent folder, with its manifest as
`cmd/sign` wrote it. -/
structure Release (E : Ed25519) (P : Platform) (log' : List (E.PrivateKey × String))
    (dir : AgentDir) (m : Manifest) (data : Bytes) : Prop where
  signed : ∃ log path version k, Trusted E k ∧
    sign E P log (.ok data) path version k = (.ok m, log')
  small : data.length < 2 ^ 63
  text : Utf8.Valid (literal m.file) ∧ Utf8.Valid (literal m.version)
  listed : m.file ++ manifestExt ∈ dir.names
  manifest : dir.read (m.file ++ manifestExt) = some (m.marshal indented)
  binary : ∃ bin, dir.openAgentBinary m.file = some bin ∧ bin.bytes = data ∧ bin.failure = none

theorem Release.storable {dir : AgentDir} (h : Release E P log' dir m data) : Storable m := by
  obtain ⟨log, path, version, k, -, hsign⟩ := h.signed
  obtain ⟨msg, hmessage, -, hsignature, hfile, hversion, hsha, hsize⟩ := sign_ok hsign
  have hsig : Ascii m.signature := hsignature ▸ ascii_base64 _
  refine ⟨?_, ?_, (valid_of_message hmessage).2.2, hsize⟩
  · simp [hfile, hversion, hsha.narrow, hsig.narrow]
  · simp [h.text.1, h.text.2, hsha.valid, hsig.valid]

theorem Release.verify {dir : AgentDir} (h : Release E P log' dir m data)
    (later : List (E.PrivateKey × String)) : m.verify (linked E P (log' ++ later)) = .ok () := by
  obtain ⟨log, path, version, k, htrusted, hsign⟩ := h.signed
  obtain ⟨msg, hmessage, rfl, hsignature, -⟩ := sign_ok hsign
  exact verify_linked hmessage hsignature htrusted (by simp)

end release

def signedRelease : Manifest :=
  ⟨"lotse-agent-linux-amd64", "1.2.3", 1, "01",
    String.ofList (Base64.encodeToString (List.replicate signatureSize 0))⟩

def releaseLog : List (Unit × String) :=
  [((), "lotse-agent-update-v1\nlotse-agent-linux-amd64\n1.2.3\n1\n01\n")]

def releaseDir : AgentDir where
  names := ["lotse-agent-linux-amd64", "lotse-agent-linux-amd64.sig", "other.sig"]
  read := fun name =>
    if name = "lotse-agent-linux-amd64.sig" then some (signedRelease.marshal indented)
    else if name = "lotse-agent-linux-amd64" then some [0x62]
    else if name = "other.sig" then some (literal "null")
    else none
  gzipHeader := fun _ => false
  gunzip := fun _ => ⟨[], none⟩

theorem releaseDir_binary :
    releaseDir.openAgentBinary signedRelease.file = some ⟨[[0x62]], none⟩ := by
  have hpacked : releaseDir.read (signedRelease.file ++ ".gz") = none := by decide +kernel
  have hplain : releaseDir.read signedRelease.file = some [0x62] := by decide +kernel
  rw [AgentDir.openAgentBinary, hpacked, hplain]
  rfl

theorem release_signedRelease : Release recorded builder releaseLog releaseDir signedRelease [0x62] where
  signed := ⟨[], literal "dist/lotse-agent-linux-amd64", literal "1.2.3", (), trusted_recorded, by rfl⟩
  small := by decide
  text := by
    have hvalid : ∀ s, Ascii s → Utf8.Valid (literal s) := fun s h => h.valid
    refine ⟨hvalid _ ?_, hvalid _ ?_⟩
    · exact List.all_iff_forall_prop.1 (by decide +kernel)
    · exact List.all_iff_forall_prop.1 (by decide +kernel)
  listed := by decide +kernel
  manifest := by
    have hname : signedRelease.file ++ manifestExt = "lotse-agent-linux-amd64.sig" := by decide +kernel
    rw [hname]
    simp only [releaseDir, if_true]
  binary := ⟨⟨[[0x62]], none⟩, releaseDir_binary, rfl, rfl⟩

def smooth : Environment := { working with output := "lotse-agent 1.2.3" }

end Lotse.Updates
