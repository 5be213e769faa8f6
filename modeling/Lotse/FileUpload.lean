import Lotse.FileTree
import Lotse.FileBrowser

set_option autoImplicit false

/-!
# Uploads

`putFile` as one call: the requests to the SFTP server of the agent one after the other, each
of which may be refused or may be the one at which the connection is lost. The session and the
checks before it are those of `Lotse.RemoteMachine`.
-/
namespace Lotse.Upload
open FileTree

/-- The errors of the SFTP client, as far as `fileError` tells them apart. -/
inductive Err where
  | notExist (text : String)
  | permission (text : String)
  | exist (text : String)
  | status (text : String)
  | other (text : String)
  deriving DecidableEq

def Err.text : Err → String
  | .notExist s | .permission s | .exist s | .status s | .other s => s

structure Reply where
  status : ℕ
  error : String
  deriving DecidableEq

def trimPrefix (s pre : String) : String :=
  if s.startsWith pre then (s.drop pre.length).toString else s

def fileError : Err → Reply
  | .notExist _ => ⟨404, "no such file or folder"⟩
  | .permission _ => ⟨403, "permission denied"⟩
  | .exist _ => ⟨409, "that name exists already"⟩
  | .status text => ⟨422, trimPrefix text "sftp: "⟩
  | .other text => ⟨502, text⟩

/-- What happens to a request. When the connection is lost, the agent may have done what it
was asked for, or not. -/
inductive Answer where
  | served
  | refused (e : Err)
  | lost (performed : Bool)
  deriving DecidableEq

/-- The answers to the requests of one upload, each of which is made at most once, and what
else the agent decides: the attributes of a new file, how many steps a lookup may make, and
what a write that fails has stored. -/
structure Environment where
  limit : ℕ
  mode : ℕ
  uid : ℕ
  gid : ℕ
  errorOf : Failure → Err
  lostErr : Err
  stat : Answer
  openFile : Answer
  write : Answer
  stored : Bytes
  close : Answer
  chmod : Answer
  chown : Answer
  posixRename : Answer
  rename : Answer
  remove : Answer
  /-- The first characters of `randomToken`. -/
  token : List Char

def roundHalfEven (a b : ℕ) : ℕ :=
  if 2 * (a % b) < b ∨ (2 * (a % b) = b ∧ a / b % 2 = 0) then a / b else a / b + 1

/-- A size as `float64`, which has 53 bits for it. -/
def float64 (n : ℕ) : ℕ := roundHalfEven n (2 ^ (n.log2 - 52)) * 2 ^ (n.log2 - 52)

def oneDecimal (n unit : ℕ) : String :=
  toString (roundHalfEven (10 * n) unit / 10) ++ "." ++ toString (roundHalfEven (10 * n) unit % 10)

def humanBytes (n : ℕ) : String :=
  if 2 ^ 20 ≤ n then oneDecimal (float64 n) (2 ^ 20) ++ " MiB"
  else if 2 ^ 10 ≤ n then oneDecimal (float64 n) (2 ^ 10) ++ " KiB"
  else toString n ++ " B"

/-- The request for an upload. A body that is announced with its length has that length, and
`failure` is the error at which reading it ends early. -/
structure Request where
  path : String
  overwrite : String
  contentLength : ℤ
  body : Bytes
  failure : Option Err
  announced : 0 < contentLength → (body.length : ℤ) = contentLength

inductive Action where
  | fileUploaded
  | fileUploadFailed
  deriving DecidableEq

structure Entry where
  action : Action
  detail : String
  deriving DecidableEq

structure Session where
  disk : Disk
  connected : Bool

structure Result where
  reply : Reply
  audit : List Entry
  session : Session

/-- One request. What cannot be done changes nothing. -/
def perform (env : Environment) (a : Answer) (act : Disk → Except Failure Disk) (s : Session) :
    Option Err × Session :=
  if s.connected then
    match a with
    | .served =>
      match act s.disk with
      | .ok d => (none, { s with disk := d })
      | .error f => (some (env.errorOf f), s)
    | .refused e => (some e, s)
    | .lost performed =>
      match performed, act s.disk with
      | true, .ok d => (some env.lostErr, ⟨d, false⟩)
      | _, _ => (some env.lostErr, ⟨s.disk, false⟩)
  else (some env.lostErr, s)

inductive Info where
  | dir
  | file (f : File)

def statInfo (limit : ℕ) (t : Tree) (dir : List Name) (base : Name) : Except Failure Info :=
  match resolve limit t dir base with
  | .error f => .error f
  | .ok loc =>
    if isDir t loc then .ok .dir
    else match t loc with
      | some (.file f) => .ok (.file f)
      | _ => .error .notExist

def stat (env : Environment) (dir : List Name) (base : Name) (s : Session) :
    Except Err Info × Session :=
  if s.connected then
    match env.stat with
    | .served =>
      match statInfo env.limit s.disk.node dir base with
      | .ok info => (.ok info, s)
      | .error f => (.error (env.errorOf f), s)
    | .refused e => (.error e, s)
    | .lost _ => (.error env.lostErr, { s with connected := false })
  else (.error env.lostErr, s)

/-- `O_CREATE|O_EXCL` -/
def createFile (env : Environment) (dir : List Name) (tmp : Name) (d : Disk) :
    Except Failure Disk :=
  match locate env.limit d.node dir tmp with
  | .error f => .error f
  | .ok loc =>
    if d.node loc = none then .ok (d.create loc env.mode env.uid env.gid) else .error .exist

def editFile (env : Environment) (dir : List Name) (tmp : Name) (e : Edit) (d : Disk) :
    Except Failure Disk :=
  match resolve env.limit d.node dir tmp with
  | .error f => .error f
  | .ok loc => .ok (d.edit loc e)

/-- Both ways to rename: a folder is not replaced, anything else is. -/
def renameFile (env : Environment) (dir : List Name) (tmp base : Name) (d : Disk) :
    Except Failure Disk :=
  match locate env.limit d.node dir tmp, locate env.limit d.node dir base with
  | .ok src, .ok dst =>
    if d.node src = none then .error .notExist
    else if isDir d.node dst then .error .isDir
    else .ok (d.move src dst)
  | .error f, _ => .error f
  | _, .error f => .error f

def removeFile (env : Environment) (dir : List Name) (tmp : Name) (d : Disk) :
    Except Failure Disk :=
  match locate env.limit d.node dir tmp with
  | .error f => .error f
  | .ok loc =>
    if d.node loc = none then .error .notExist
    else if isDir d.node loc then .error .isDir
    else .ok (d.remove loc)

/-- What is read of the body: `LimitedReader` stops at the announced length. -/
def Request.content (q : Request) : Bytes :=
  if 0 < q.contentLength then q.body.take q.contentLength.toNat else q.body

/-- `f.ReadFrom(body)`: the bytes written, the error and what it leaves. -/
def readFrom (env : Environment) (q : Request) (dir : List Name) (tmp : Name) (s : Session) :
    ℕ × Option Err × Session :=
  let put (data : Bytes) : Disk :=
    match editFile env dir tmp (.write data) s.disk with
    | .ok d => d
    | .error _ => s.disk
  if s.connected then
    match env.write, q.failure with
    | .served, none => (q.content.length, none, { s with disk := put q.content })
    | .served, some e => (env.stored.length, some e, { s with disk := put env.stored })
    | .refused e, _ => (env.stored.length, some e, { s with disk := put env.stored })
    | .lost _, _ => (env.stored.length, some env.lostErr, ⟨put env.stored, false⟩)
  else (0, some env.lostErr, s)

def tmpName (base token : List Char) : Name :=
  ['.'] ++ base ++ ".upload-".toList ++ token

def permBits : ℕ := 0o1000

/-- `Chmod` and `Chown` for a file that is replaced; their errors are ignored. -/
def keepAttributes (env : Environment) (dir : List Name) (tmp : Name) (existing : Option File)
    (s : Session) : Session :=
  match existing with
  | none => s
  | some f =>
    let s := (perform env env.chmod (editFile env dir tmp (.chmod (f.mode % permBits))) s).2
    (perform env env.chown (editFile env dir tmp (.chown f.uid f.gid)) s).2

/-- `PosixRename`, and `Rename` for servers without the extension. -/
def renameInto (env : Environment) (dir : List Name) (tmp base : Name) (s : Session) :
    Option Err × Session :=
  match perform env env.posixRename (renameFile env dir tmp base) s with
  | (none, s) => (none, s)
  | (some _, s) => perform env env.rename (renameFile env dir tmp base) s

def place (env : Environment) (dir : List Name) (tmp base : Name) (existing : Option File)
    (err : Option Err) (s : Session) : Option Err × Session :=
  match err with
  | none => renameInto env dir tmp base (keepAttributes env dir tmp existing s)
  | some e => (some e, s)

def transfer (env : Environment) (q : Request) (dir : List Name) (tmp base : Name)
    (existing : Option File) (s : Session) : ℕ × Option Err × Session :=
  let (n, err, s) := readFrom env q dir tmp s
  let (cerr, s) := perform env env.close .ok s
  (n, place env dir tmp base existing (err.or cerr) s)

def upload (env : Environment) (q : Request) (dir : List Name) (base : Name)
    (existing : Option File) (s : Session) : Result :=
  let tmp := tmpName base env.token
  match perform env env.openFile (createFile env dir tmp) s with
  | (some e, s) => ⟨fileError e, [], s⟩
  | (none, s) =>
    let (n, err, s) := transfer env q dir tmp base existing s
    let detail := FileBrowser.pathText (dir ++ [base]) ++ " (" ++ humanBytes n ++ ")"
    match err with
    | some e =>
      let s := (perform env env.remove (removeFile env dir tmp) s).2
      ⟨fileError e, [⟨.fileUploadFailed, detail ++ ": " ++ e.text⟩], s⟩
    | none =>
      let detail := if existing.isSome then detail ++ ", replaced the existing file" else detail
      ⟨⟨204, ""⟩, [⟨.fileUploaded, detail⟩], s⟩

def namedPath (p : String) : Option (List Name × Name) := do
  let path ← Remote.remotePath p
  let base ← path.getLast?
  some (path.dropLast, base)

def putFile (env : Environment) (q : Request) (d : Disk) : Result :=
  match namedPath q.path with
  | none => ⟨⟨400, "missing path"⟩, [], ⟨d, true⟩⟩
  | some (dir, base) =>
    match stat env dir base ⟨d, true⟩ with
    | (.ok .dir, s) => ⟨⟨409, "a folder with that name exists already"⟩, [], s⟩
    | (.ok (.file f), s) =>
      if q.overwrite = "1" then upload env q dir base (some f) s
      else ⟨⟨409, "a file with that name exists already"⟩, [], s⟩
    | (.error _, s) => upload env q dir base none s

variable {env : Environment}

theorem perform_none {a : Answer} {act : Disk → Except Failure Disk} {s s' : Session}
    (h : perform env a act s = (none, s')) :
    s.connected ∧ a = .served ∧ act s.disk = .ok s'.disk ∧ s'.connected := by
  unfold perform at h
  split_ifs at h with hc
  · cases a with
    | served =>
      cases hact : act s.disk with
      | ok d =>
        simp only [hact, Prod.mk.injEq, true_and] at h
        subst h
        exact ⟨hc, rfl, rfl, hc⟩
      | error f => simp [hact] at h
    | refused e => cases h
    | lost performed =>
      exfalso
      revert h
      cases performed <;> cases act s.disk <;> simp
  · cases h

theorem perform_some {a : Answer} {act : Disk → Except Failure Disk} {s s' : Session} {e : Err}
    (h : perform env a act s = (some e, s')) :
    s' = s ∨ (s'.connected = false ∧ s'.disk = s.disk) ∨
      (s'.connected = false ∧ s.connected ∧ a = .lost true ∧ act s.disk = .ok s'.disk) := by
  unfold perform at h
  split_ifs at h with hc
  · cases a with
    | served =>
      cases hact : act s.disk with
      | ok d => simp [hact] at h
      | error f =>
        simp only [hact, Prod.mk.injEq] at h
        exact Or.inl h.2.symm
    | refused e =>
      cases h
      exact Or.inl rfl
    | lost performed =>
      right
      cases performed with
      | false =>
        cases h
        exact Or.inl ⟨rfl, rfl⟩
      | true =>
        cases hact : act s.disk with
        | ok d =>
          simp only [hact, Prod.mk.injEq] at h
          obtain ⟨-, rfl⟩ := h
          exact Or.inr ⟨rfl, hc, rfl, rfl⟩
        | error f =>
          simp only [hact, Prod.mk.injEq] at h
          obtain ⟨-, rfl⟩ := h
          exact Or.inl ⟨rfl, rfl⟩
  · cases h
    exact Or.inl rfl

theorem perform_disconnected {a : Answer} {act : Disk → Except Failure Disk} {s : Session}
    (h : s.connected = false) : perform env a act s = (some env.lostErr, s) := by
  simp [perform, h]

theorem perform_error (env : Environment) (a : Answer) {act : Disk → Except Failure Disk}
    {s : Session} {f : Failure} (hact : act s.disk = .error f) :
    ∃ e s', perform env a act s = (some e, s') ∧ s'.disk = s.disk := by
  cases h : perform env a act s with
  | mk err s' =>
    cases err with
    | none =>
      have hok := (perform_none h).2.2.1
      rw [hact] at hok
      cases hok
    | some e =>
      refine ⟨e, s', rfl, ?_⟩
      rcases perform_some h with rfl | ⟨-, hdisk⟩ | ⟨-, -, -, hok⟩
      · rfl
      · exact hdisk
      · rw [hact] at hok
        cases hok

/-- Whatever the answer is, a request is done as a whole or not at all. -/
theorem perform_disk (env : Environment) (a : Answer) (act : Disk → Except Failure Disk) (s : Session) :
    (perform env a act s).2.disk = s.disk ∨
      act s.disk = .ok (perform env a act s).2.disk := by
  cases h : perform env a act s with
  | mk err s' =>
    cases err with
    | none => exact Or.inr (perform_none h).2.2.1
    | some e =>
      rcases perform_some h with rfl | ⟨-, hdisk⟩ | ⟨-, -, -, hact⟩
      · exact Or.inl rfl
      · exact Or.inl hdisk
      · exact Or.inr hact

/-- Beside the tree of `d₀` there is the new file `f` at `tmp`, and nothing else has changed. -/
structure Uploading (d₀ d : Disk) (tmp : Loc) (f : File) : Prop where
  free : d₀.node tmp = none
  other : ∀ loc, loc ≠ tmp → d.node loc = d₀.node loc
  file : d.node tmp = some (.file f)
  inode : f.inode = d₀.next

/-- The new file `f` is at `target`, and nothing else has changed. -/
structure Replaced (d₀ d : Disk) (target : Loc) (f : File) : Prop where
  other : ∀ loc, loc ≠ target → d.node loc = d₀.node loc
  file : d.node target = some (.file f)
  inode : f.inode = d₀.next

theorem tmpName_ne (base token : List Char) : tmpName base token ≠ base := by
  intro h
  have hlength := congrArg List.length h
  simp [tmpName] at hlength
  omega

section
variable {d₀ d d' : Disk} {dir : List Name} {parent : Loc} {tmp base : Name} {f : File}

theorem Uploading.sameShape (h : Uploading d₀ d (parent ++ [tmp]) f) : SameShape d₀.node d.node := by
  intro loc
  by_cases hloc : loc = parent ++ [tmp]
  · right
    rw [hloc, h.free, h.file]
    exact ⟨rfl, rfl⟩
  · exact Or.inl (h.other loc hloc)

theorem Uploading.locate (h : Uploading d₀ d (parent ++ [tmp]) f)
    (hdir : folder env.limit d₀.node dir = .ok parent) (n : Name) :
    locate env.limit d.node dir n = .ok (parent ++ [n]) :=
  locate_ok_iff.2 ⟨parent, h.sameShape.folder hdir, rfl⟩

theorem Uploading.resolve (h : Uploading d₀ d (parent ++ [tmp]) f)
    (hdir : folder env.limit d₀.node dir = .ok parent) :
    resolve env.limit d.node dir tmp = .ok (parent ++ [tmp]) := by
  simp [FileTree.resolve, h.locate hdir, h.file]

theorem createFile_ok (h : createFile env dir tmp d₀ = .ok d) :
    ∃ parent f, folder env.limit d₀.node dir = .ok parent ∧ Uploading d₀ d (parent ++ [tmp]) f := by
  unfold createFile at h
  cases hloc : FileTree.locate env.limit d₀.node dir tmp with
  | error e => simp [hloc] at h
  | ok loc =>
    obtain ⟨parent, hdir, rfl⟩ := locate_ok_iff.1 hloc
    simp only [hloc] at h
    split_ifs at h with hfree
    cases h
    refine ⟨parent, _, hdir, hfree, ?_, Function.update_self .., rfl⟩
    intro loc hne
    exact Function.update_of_ne hne ..

theorem createFile_of_free (hdir : folder env.limit d₀.node dir = .ok parent)
    (hfree : d₀.node (parent ++ [tmp]) = none) :
    createFile env dir tmp d₀ = .ok (d₀.create (parent ++ [tmp]) env.mode env.uid env.gid) := by
  have hloc : FileTree.locate env.limit d₀.node dir tmp = .ok (parent ++ [tmp]) :=
    locate_ok_iff.2 ⟨parent, hdir, rfl⟩
  simp [createFile, hloc, hfree]

theorem Uploading.edit (h : Uploading d₀ d (parent ++ [tmp]) f)
    (hdir : folder env.limit d₀.node dir = .ok parent) (e : Edit) :
    ∃ d', editFile env dir tmp e d = .ok d' ∧ Uploading d₀ d' (parent ++ [tmp]) (e.apply f) := by
  refine ⟨d.edit (parent ++ [tmp]) e, by simp [editFile, h.resolve hdir], h.free, ?_, ?_, ?_⟩
  · intro loc hne
    exact (Function.update_of_ne hne ..).trans (h.other loc hne)
  · simp [Disk.edit, h.file, Edit.node]
  · rw [Edit.apply_inode, h.inode]

theorem Uploading.rename (h : Uploading d₀ d (parent ++ [tmp]) f)
    (hdir : folder env.limit d₀.node dir = .ok parent) (base : Name) (hne : tmp ≠ base) :
    (isDir d₀.node (parent ++ [base]) ∧ renameFile env dir tmp base d = .error .isDir) ∨
      (isDir d₀.node (parent ++ [base]) = false ∧ ∃ d', renameFile env dir tmp base d = .ok d' ∧
        Replaced d₀ d' (parent ++ [base]) f) := by
  have hnode : renameFile env dir tmp base d = if isDir d₀.node (parent ++ [base])
      then .error .isDir else .ok (d.move (parent ++ [tmp]) (parent ++ [base])) := by
    simp [renameFile, h.locate hdir, h.file, h.sameShape.isDir_eq]
  have hlocs : parent ++ [base] ≠ parent ++ [tmp] := by
    simpa using hne.symm
  by_cases hd : isDir d₀.node (parent ++ [base])
  · exact Or.inl ⟨hd, by rw [hnode, if_pos hd]⟩
  · refine Or.inr ⟨by simpa using hd, _, by rw [hnode, if_neg hd], ?_, ?_, h.inode⟩
    · intro loc hloc
      by_cases htmp : loc = parent ++ [tmp]
      · rw [htmp, h.free]
        exact Function.update_self ..
      · rw [← h.other loc htmp]
        exact (Function.update_of_ne htmp ..).trans (Function.update_of_ne hloc ..)
    · rw [← h.file]
      exact (Function.update_of_ne hlocs ..).trans (Function.update_self ..)

theorem Uploading.remove (h : Uploading d₀ d (parent ++ [tmp]) f)
    (hdir : folder env.limit d₀.node dir = .ok parent) :
    ∃ d', removeFile env dir tmp d = .ok d' ∧ d'.node = d₀.node := by
  refine ⟨d.remove (parent ++ [tmp]), ?_, ?_⟩
  · simp [removeFile, h.locate hdir, h.file, isDir]
  · funext loc
    by_cases hloc : loc = parent ++ [tmp]
    · rw [hloc, h.free]
      exact Function.update_self ..
    · exact (Function.update_of_ne hloc ..).trans (h.other loc hloc)

theorem Uploading.perform_edit {s : Session} (h : Uploading d₀ s.disk (parent ++ [tmp]) f)
    (hdir : folder env.limit d₀.node dir = .ok parent) (a : Answer) (e : Edit)
    (he : (e.apply f).data = f.data) :
    ∃ f', Uploading d₀ (perform env a (editFile env dir tmp e) s).2.disk (parent ++ [tmp]) f' ∧
      f'.data = f.data := by
  obtain ⟨d', hedit, hup⟩ := h.edit hdir e
  rcases perform_disk env a (editFile env dir tmp e) s with hdisk | hdisk
  · exact ⟨f, by rwa [hdisk], rfl⟩
  · rw [hedit, Except.ok.injEq] at hdisk
    exact ⟨_, hdisk ▸ hup, he⟩

theorem Uploading.keepAttributes {s : Session} (h : Uploading d₀ s.disk (parent ++ [tmp]) f)
    (hdir : folder env.limit d₀.node dir = .ok parent) (existing : Option File) :
    ∃ f', Uploading d₀ (keepAttributes env dir tmp existing s).disk (parent ++ [tmp]) f' ∧
      f'.data = f.data := by
  cases existing with
  | none => exact ⟨f, h, rfl⟩
  | some g =>
    obtain ⟨f₁, h₁, hdata₁⟩ := h.perform_edit hdir env.chmod (.chmod (g.mode % permBits)) rfl
    obtain ⟨f₂, h₂, hdata₂⟩ := h₁.perform_edit hdir env.chown (.chown g.uid g.gid) rfl
    exact ⟨f₂, h₂, hdata₂.trans hdata₁⟩

theorem Uploading.readFrom {s : Session} (h : Uploading d₀ s.disk (parent ++ [tmp]) f)
    (hdir : folder env.limit d₀.node dir = .ok parent) (q : Request) :
    ∃ f', Uploading d₀ (readFrom env q dir tmp s).2.2.disk (parent ++ [tmp]) f' ∧
      ((readFrom env q dir tmp s).2.1 = none →
        f'.data = q.content ∧ env.write = .served ∧ q.failure = none) := by
  obtain ⟨d₁, hwhole, hup₁⟩ := h.edit hdir (.write q.content)
  obtain ⟨d₂, hpart, hup₂⟩ := h.edit hdir (.write env.stored)
  unfold Upload.readFrom
  split_ifs with hc
  · cases hw : env.write with
    | served =>
      cases hf : q.failure with
      | none =>
        simp only [hwhole]
        exact ⟨_, hup₁, fun _ => ⟨rfl, trivial, trivial⟩⟩
      | some e =>
        simp only [hpart]
        exact ⟨_, hup₂, by simp⟩
    | refused e =>
      simp only [hpart]
      exact ⟨_, hup₂, by simp⟩
    | lost performed =>
      simp only [hpart]
      exact ⟨_, hup₂, by simp⟩
  · exact ⟨f, h, by simp⟩

/-- The agent does what it is asked for, whether or not the hub hears of it. -/
def Performed (a : Answer) : Prop := a = .served ∨ a = .lost true

def Renames (env : Environment) : Prop :=
  Performed env.posixRename ∨ (∃ e, env.posixRename = .refused e) ∧ Performed env.rename

theorem Uploading.renameInto {s : Session} (h : Uploading d₀ s.disk (parent ++ [tmp]) f)
    (hdir : folder env.limit d₀.node dir = .ok parent) (hne : tmp ≠ base) :
    (∃ e s', renameInto env dir tmp base s = (some e, s') ∧
      Uploading d₀ s'.disk (parent ++ [tmp]) f) ∨
    (∃ err s', renameInto env dir tmp base s = (err, s') ∧ (err = none ∨ s'.connected = false) ∧
      Replaced d₀ s'.disk (parent ++ [base]) f ∧ s.connected ∧
      isDir d₀.node (parent ++ [base]) = false ∧ Renames env) := by
  unfold Upload.renameInto
  rcases h.rename hdir base hne with ⟨-, hact⟩ | ⟨hnodir, d', hact, hrep⟩
  · -- onto a folder: neither way does it
    obtain ⟨e₁, s₁, h₁, hdisk₁⟩ := perform_error env env.posixRename hact
    rw [← hdisk₁] at hact
    obtain ⟨e₂, s₂, h₂, hdisk₂⟩ := perform_error env env.rename hact
    refine Or.inl ⟨e₂, s₂, ?_, by rwa [hdisk₂, hdisk₁]⟩
    rw [h₁]
    exact h₂
  · cases hc : s.connected with
    | false =>
      refine Or.inl ⟨env.lostErr, s, ?_, h⟩
      rw [perform_disconnected hc]
      exact perform_disconnected hc
    | true =>
      cases hposix : env.posixRename with
      | served =>
        exact Or.inr ⟨none, _, by simp [perform, hc, hact]; rfl, Or.inl rfl, hrep, rfl, hnodir,
          Or.inl (Or.inl hposix)⟩
      | refused e =>
        have hfirst : perform env (.refused e) (renameFile env dir tmp base) s = (some e, s) := by
          simp [perform, hc]
        rw [hfirst]
        cases hrename : env.rename with
        | served =>
          exact Or.inr ⟨none, _, by simp [perform, hc, hact]; rfl, Or.inl rfl, hrep, rfl, hnodir,
            Or.inr ⟨⟨e, hposix⟩, Or.inl hrename⟩⟩
        | refused e' => exact Or.inl ⟨e', s, by simp [perform, hc], h⟩
        | lost performed =>
          cases performed with
          | false => exact Or.inl ⟨env.lostErr, ⟨s.disk, false⟩, by simp [perform, hc], h⟩
          | true =>
            exact Or.inr ⟨_, ⟨d', false⟩, by simp [perform, hc, hact]; rfl, Or.inr rfl, hrep, rfl,
              hnodir, Or.inr ⟨⟨e, hposix⟩, Or.inr hrename⟩⟩
      | lost performed =>
        cases performed with
        | false => exact Or.inl ⟨env.lostErr, ⟨s.disk, false⟩, by simp [perform, hc], h⟩
        | true =>
          exact Or.inr ⟨_, ⟨d', false⟩, by simp [perform, hc, hact]; rfl, Or.inr rfl, hrep, rfl,
            hnodir, Or.inl (Or.inr hposix)⟩

theorem Uploading.remove_session {s : Session} (h : Uploading d₀ s.disk (parent ++ [tmp]) f)
    (hdir : folder env.limit d₀.node dir = .ok parent) :
    (perform env env.remove (removeFile env dir tmp) s).2.disk.node = d₀.node ∨
      (Uploading d₀ (perform env env.remove (removeFile env dir tmp) s).2.disk (parent ++ [tmp]) f ∧
        ((perform env env.remove (removeFile env dir tmp) s).2.connected →
          env.remove ≠ .served)) := by
  obtain ⟨d', hremove, hnode⟩ := h.remove hdir
  cases hp : perform env env.remove (removeFile env dir tmp) s with
  | mk err s' =>
    cases err with
    | none =>
      have hok := (perform_none hp).2.2.1
      rw [hremove, Except.ok.injEq] at hok
      exact Or.inl (hok ▸ hnode)
    | some e =>
      rcases perform_some hp with rfl | ⟨hlost, hdisk⟩ | ⟨-, -, -, hok⟩
      · refine Or.inr ⟨h, fun hc hserved => ?_⟩
        simp only at hc
        simp [perform, hserved, hc, hremove] at hp
      · exact Or.inr ⟨by rwa [hdisk], fun hc => absurd hc (by simp [hlost])⟩
      · rw [hremove, Except.ok.injEq] at hok
        exact Or.inl (hok ▸ hnode)

end

/-- All that the rename of the temporary file depends on. -/
structure Completes (env : Environment) (q : Request) (s : Session) (parent : Loc) (base : Name) :
    Prop where
  connected : s.connected
  opened : env.openFile = .served
  free : s.disk.node (parent ++ [tmpName base env.token]) = none
  written : env.write = .served
  read : q.failure = none
  closed : env.close = .served
  noDir : isDir s.disk.node (parent ++ [base]) = false
  renamed : Renames env

/-- An upload changes nothing, or leaves its temporary file because it could not be removed, or
puts the whole file in place. -/
inductive Ends (env : Environment) (q : Request) (dir : List Name) (base : Name) (s s' : Session) :
    Prop where
  | unchanged (h : s'.disk.node = s.disk.node)
  | left (parent : Loc) (f : File) (hdir : folder env.limit s.disk.node dir = .ok parent)
      (h : Uploading s.disk s'.disk (parent ++ [tmpName base env.token]) f)
      (hremove : s'.connected → env.remove ≠ .served)
  | replaced (parent : Loc) (f : File) (hdir : folder env.limit s.disk.node dir = .ok parent)
      (h : Replaced s.disk s'.disk (parent ++ [base]) f) (hdata : f.data = q.content)
      (hcompletes : Completes env q s parent base)

theorem Uploading.transfer {d₀ : Disk} {dir : List Name} {parent : Loc} {tmp base : Name} {f : File}
    {s : Session} (h : Uploading d₀ s.disk (parent ++ [tmp]) f)
    (hdir : folder env.limit d₀.node dir = .ok parent) (hne : tmp ≠ base) (q : Request)
    (existing : Option File) :
    (∃ n e s' f', transfer env q dir tmp base existing s = (n, some e, s') ∧
      Uploading d₀ s'.disk (parent ++ [tmp]) f') ∨
    (∃ n err s' f', transfer env q dir tmp base existing s = (n, err, s') ∧
      (err = none ∨ s'.connected = false) ∧ Replaced d₀ s'.disk (parent ++ [base]) f' ∧
      f'.data = q.content ∧ env.write = .served ∧ q.failure = none ∧ env.close = .served ∧
      isDir d₀.node (parent ++ [base]) = false ∧ Renames env) := by
  obtain ⟨f₁, hup₁, hread⟩ := h.readFrom hdir q
  unfold Upload.transfer
  generalize Upload.readFrom env q dir tmp s = r at hup₁ hread
  obtain ⟨n, err, s₁⟩ := r
  simp only at hup₁ hread ⊢
  cases hclose : perform env env.close .ok s₁ with
  | mk cerr s₂ =>
    have hup₂ : Uploading d₀ s₂.disk (parent ++ [tmp]) f₁ := by
      rcases perform_disk env env.close .ok s₁ with hdisk | hdisk
      · rw [hclose] at hdisk
        exact hdisk ▸ hup₁
      · rw [hclose, Except.ok.injEq] at hdisk
        exact hdisk ▸ hup₁
    cases herr : err.or cerr with
    | some e => exact Or.inl ⟨n, e, s₂, f₁, rfl, hup₂⟩
    | none =>
      obtain ⟨rfl, rfl⟩ := Option.or_eq_none_iff.1 herr
      obtain ⟨hdata, hwrite, hfailure⟩ := hread rfl
      obtain ⟨f₂, hup₃, hdata₂⟩ := hup₂.keepAttributes hdir existing
      rcases hup₃.renameInto hdir hne with ⟨e, s₃, hrename, hup₄⟩ |
        ⟨err, s₃, hrename, hend, hrep, -, hnodir, hrenames⟩
      · exact Or.inl ⟨n, e, s₃, f₂, by simp [place, hrename], hup₄⟩
      · exact Or.inr ⟨n, err, s₃, f₂, by simp [place, hrename], hend, hrep, hdata₂.trans hdata,
          hwrite, hfailure, (perform_none hclose).2.1, hnodir, hrenames⟩

theorem upload_ends (env : Environment) (q : Request) (dir : List Name) (base : Name)
    (existing : Option File) (s : Session) :
    Ends env q dir base s (upload env q dir base existing s).session := by
  unfold upload
  cases hopen : perform env env.openFile (createFile env dir (tmpName base env.token)) s with
  | mk err s₁ =>
    cases err with
    | some e =>
      simp only [hopen]
      rcases perform_some hopen with rfl | ⟨-, hdisk⟩ | ⟨hlost, -, -, hok⟩
      · exact .unchanged rfl
      · exact .unchanged (by rw [hdisk])
      · obtain ⟨parent, f, hdir, hup⟩ := createFile_ok hok
        exact .left parent f hdir hup (fun hc => absurd hc (by simp [hlost]))
    | none =>
      simp only [hopen]
      obtain ⟨hc, hserved, hok, -⟩ := perform_none hopen
      obtain ⟨parent, f₁, hdir, hup₁⟩ := createFile_ok hok
      rcases hup₁.transfer hdir (tmpName_ne base env.token) q existing with
        ⟨n, e, s₂, f₂, htransfer, hup₂⟩ |
        ⟨n, err, s₂, f₂, htransfer, hend, hrep, hdata, hwrite, hfailure, hclose, hnodir, hrenames⟩
      · simp only [htransfer]
        rcases hup₂.remove_session hdir with hnode | ⟨hup₃, hremove⟩
        · exact .unchanged hnode
        · exact .left parent f₂ hdir hup₃ hremove
      · have hcompletes : Completes env q s parent base :=
          ⟨hc, hserved, hup₁.free, hwrite, hfailure, hclose, hnodir, hrenames⟩
        simp only [htransfer]
        cases err with
        | none => exact .replaced parent f₂ hdir hrep hdata hcompletes
        | some e =>
          have hlost : s₂.connected = false := by simpa using hend
          simp only [perform_disconnected hlost]
          exact .replaced parent f₂ hdir hrep hdata hcompletes

theorem Uploading.renameInto_of_renames {d₀ : Disk} {dir : List Name} {parent : Loc}
    {tmp base : Name} {f : File} {s : Session} (h : Uploading d₀ s.disk (parent ++ [tmp]) f)
    (hdir : folder env.limit d₀.node dir = .ok parent) (hne : tmp ≠ base) (hc : s.connected)
    (hnodir : isDir d₀.node (parent ++ [base]) = false) (hrenames : Renames env) :
    ∃ err s', Upload.renameInto env dir tmp base s = (err, s') ∧
      (err = none ∨ s'.connected = false) ∧ Replaced d₀ s'.disk (parent ++ [base]) f := by
  obtain ⟨hdir', -⟩ | ⟨-, d', hact, hrep⟩ := h.rename hdir base hne
  · rw [hnodir] at hdir'
    cases hdir'
  · rcases hrenames with (hposix | hposix) | ⟨⟨e, hposix⟩, hrename | hrename⟩
    · exact ⟨none, ⟨d', true⟩, by simp [Upload.renameInto, perform, hposix, hc, hact], Or.inl rfl, hrep⟩
    · exact ⟨_, ⟨d', false⟩, by simp [Upload.renameInto, perform, hposix, hc, hact]; rfl,
        Or.inr rfl, hrep⟩
    · exact ⟨none, ⟨d', true⟩, by simp [Upload.renameInto, perform, hposix, hrename, hc, hact],
        Or.inl rfl, hrep⟩
    · exact ⟨_, ⟨d', false⟩, by simp [Upload.renameInto, perform, hposix, hrename, hc, hact]; rfl,
        Or.inr rfl, hrep⟩

/-- Without a file to replace, whatever stands at the path is replaced once all requests that
this depends on are served. -/
theorem upload_replaces {q : Request} {dir : List Name} {base : Name} {s : Session} {parent : Loc}
    (hdir : folder env.limit s.disk.node dir = .ok parent) (h : Completes env q s parent base) :
    ∃ f, (upload env q dir base none s).session.disk.node (parent ++ [base]) = some (.file f) ∧
      f.inode = s.disk.next := by
  obtain ⟨d₁, hcreate⟩ : ∃ d₁, createFile env dir (tmpName base env.token) s.disk = .ok d₁ :=
    ⟨_, createFile_of_free hdir h.free⟩
  obtain ⟨parent', f₁, hdir', hup₁⟩ := createFile_ok hcreate
  obtain rfl : parent = parent' := by
    rw [hdir, Except.ok.injEq] at hdir'
    exact hdir'
  obtain ⟨d₂, hwrite, hup₂⟩ := hup₁.edit hdir (.write q.content)
  obtain ⟨err, s₃, hrename, hend, hrep⟩ := Uploading.renameInto_of_renames (s := ⟨d₂, true⟩) hup₂ hdir
    (tmpName_ne base env.token) rfl h.noDir h.renamed
  have hopen : perform env env.openFile (createFile env dir (tmpName base env.token)) s =
      (none, ⟨d₁, true⟩) := by
    simp [perform, h.connected, h.opened, hcreate]
  have htransfer : transfer env q dir (tmpName base env.token) base none ⟨d₁, true⟩ =
      (q.content.length, err, s₃) := by
    simp [transfer, readFrom, h.written, h.read, hwrite, h.closed, perform, place, keepAttributes,
      hrename]
  refine ⟨_, ?_, hrep.inode⟩
  unfold upload
  simp only [hopen, htransfer]
  cases err with
  | none => exact hrep.file
  | some e =>
    have hlost : s₃.connected = false := by simpa using hend
    simp only [perform_disconnected hlost]
    exact hrep.file

end Lotse.Upload
