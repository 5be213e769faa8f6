import Lotse.RemoteMachine
import Lotse.JsonStrings
import Lotse.NetAddr

set_option autoImplicit false

/-!
# The paths of the file browser

A listed name goes to the browser in JSON, is joined to the path of the folder there and
comes back as a path for `remotePath`. A string is the list of its bytes, since a file name
need not be UTF-8.
-/
namespace Lotse.FileBrowser
open Utf8 (Bytes Valid)
open Json (ascii literal ofBytes coerce)
open Remote (cleanPath)

structure FileName where
  bytes : Bytes
  ne_nil : bytes ≠ []
  slash : ascii '/' ∉ bytes
  nul : 0 ∉ bytes
  dot : bytes ≠ literal "."
  dots : bytes ≠ literal ".."

def pathBytes (segments : List Bytes) : Bytes := ascii '/' :: [ascii '/'].intercalate segments

def pathText (segments : List (List Char)) : String :=
  String.ofList ('/' :: ['/'].intercalate segments)

def remotePath (p : String) : Option String := (Remote.remotePath p).map pathText

def join (dir name : String) : String := (if dir = "/" then "/" else dir ++ "/") ++ name

/-- What the page gets of a string: JSON has no place for bytes that are not UTF-8. -/
def shown (s : Bytes) : String := ofBytes (coerce s)

def listedPath (dir : List FileName) (n : FileName) : String :=
  join (shown (pathBytes (dir.map FileName.bytes))) (shown n.bytes)

def entryPath (dir : List FileName) (n : FileName) : String :=
  ofBytes (pathBytes ((dir ++ [n]).map FileName.bytes))

inductive Command where
  | open (p : String)
  | mkdir (p : String)
  | lstat (p : String)
  | posixRename (p q : String)
  | rename (p q : String)
  | remove (p : String)
  | removeAll (p : String)
  | removeDirectory (p : String)
  deriving DecidableEq

/-- What the server answers: whether there is something and whether it is a folder. -/
structure Answers where
  folder : String → Option Bool
  posixRename : Bool

structure Action where
  action : String
  path : String
  newPath : String
  recursive : Bool
  deriving DecidableEq

def renameCommands (a : Answers) (p q : String) : List Command :=
  .lstat q :: if (a.folder q).isSome then []
    else .posixRename p q :: if a.posixRename then [] else [.rename p q]

def deleteCommands (a : Answers) (recursive : Bool) (p : String) : List Command :=
  .lstat p ::
    match a.folder p with
    | none => []
    | some false => [.remove p]
    | some true => if recursive then [.removeAll p] else [.removeDirectory p]

def named (message p : String) : Except String String :=
  match remotePath p with
  | none => .error message
  | some q => if q = "/" then .error message else .ok q

def postFileAction (a : Answers) (body : Action) : Except String (List Command) := do
  let p ← named "missing path" body.path
  if body.action = "rename" then
    let q ← named "missing new name" body.newPath
    return renameCommands a p q
  else if body.action = "mkdir" then return [.mkdir p]
  else if body.action = "delete" then return deleteCommands a body.recursive p
  else throw "action must be mkdir, rename or delete"

def downloadFile (p : String) : Except String (List Command) :=
  match remotePath p with
  | none => .error "missing path"
  | some p => .ok [.open p]

/-- The page and `remotePath` keep the name. -/
def Addressable (f : FileName) : Prop := ascii '\\' ∉ f.bytes ∧ Valid f.bytes

structure Clean (s : List Char) : Prop where
  ne_nil : s ≠ []
  slash : '/' ∉ s
  backslash : '\\' ∉ s
  nul : Char.ofNat 0 ∉ s
  dot : s ≠ ['.']
  dots : s ≠ ['.', '.']

section clean
variable {segments : List (List Char)} {s : List Char} {c : Char}

def cleanStep (path : List (List Char)) (s : List Char) : List (List Char) :=
  if s = [] ∨ s = ['.'] then path else if s = ['.', '.'] then path.dropLast else path ++ [s]

theorem cleanPath_eq (segments : List (List Char)) : cleanPath segments = segments.foldl cleanStep [] :=
  rfl

theorem foldl_cleanStep (h : ∀ s ∈ segments, Clean s) (path : List (List Char)) :
    segments.foldl cleanStep path = path ++ segments := by
  induction segments generalizing path with
  | nil => simp
  | cons s segments ih =>
    obtain ⟨hne, -, -, -, hdot, hdots⟩ := h s List.mem_cons_self
    have hstep : cleanStep path s = path ++ [s] := by simp [cleanStep, hne, hdot, hdots]
    rw [List.foldl_cons, hstep, ih fun s hs => h s (List.mem_cons_of_mem _ hs)]
    simp

theorem mem_foldl_cleanStep {path : List (List Char)} (h : s ∈ segments.foldl cleanStep path) :
    s ∈ path ∨ s ∈ segments ∧ s ≠ [] ∧ s ≠ ['.'] ∧ s ≠ ['.', '.'] := by
  induction segments generalizing path with
  | nil => exact .inl h
  | cons t segments ih =>
    rcases ih h with hpath | ⟨hmem, hrest⟩
    · unfold cleanStep at hpath
      split_ifs at hpath with hempty hdots
      · exact .inl hpath
      · exact .inl (List.mem_of_mem_dropLast hpath)
      · rcases List.mem_append.1 hpath with hpath | hlast
        · exact .inl hpath
        · rw [List.mem_singleton.1 hlast]
          rw [not_or] at hempty
          exact .inr ⟨List.mem_cons_self, hempty.1, hempty.2, hdots⟩
    · exact .inr ⟨List.mem_cons_of_mem _ hmem, hrest⟩

theorem mem_splitOn {l : List Char} (h : s ∈ l.splitOn '/') : '/' ∉ s ∧ ∀ c ∈ s, c ∈ l := by
  induction l generalizing s with
  | nil => simp_all
  | cons d l ih =>
    rw [List.splitOn_cons_eq_if_modifyHead] at h
    split_ifs at h with hd
    · rcases List.mem_cons.1 h with rfl | h
      · simp
      · exact ⟨(ih h).1, fun c hc => List.mem_cons_of_mem _ ((ih h).2 c hc)⟩
    · obtain ⟨t, ts, hsplit⟩ := List.exists_cons_of_ne_nil (List.splitOn_ne_nil '/' l)
      rw [hsplit, List.modifyHead_cons] at h
      rcases List.mem_cons.1 h with rfl | h
      · obtain ⟨hslash, hmem⟩ := ih (hsplit ▸ List.mem_cons_self)
        have hd' : '/' ≠ d := fun heq => hd (beq_iff_eq.2 heq.symm)
        refine ⟨by simp [hd', hslash], fun c hc => ?_⟩
        rcases List.mem_cons.1 hc with rfl | hc
        · exact List.mem_cons_self
        · exact List.mem_cons_of_mem _ (hmem c hc)
      · obtain ⟨hslash, hmem⟩ := ih (hsplit ▸ List.mem_cons_of_mem _ h)
        exact ⟨hslash, fun c hc => List.mem_cons_of_mem _ (hmem c hc)⟩

theorem clean_of_remotePath {p : String} (h : Remote.remotePath p = some segments) :
    ∀ s ∈ segments, Clean s := by
  unfold Remote.remotePath at h
  split_ifs at h with hp
  cases h
  rw [not_or] at hp
  intro s hs
  rw [cleanPath_eq] at hs
  obtain ⟨hmem, hne, hdot, hdots⟩ := (mem_foldl_cleanStep hs).resolve_left List.not_mem_nil
  obtain ⟨hslash, hchars⟩ := mem_splitOn hmem
  refine ⟨hne, hslash, fun hc => ?_, fun hc => ?_, hdot, hdots⟩
  · obtain ⟨d, -, hd⟩ := List.mem_map.1 (hchars _ hc)
    split_ifs at hd with hback
    · exact absurd hd (by decide)
    · exact hback hd
  · obtain ⟨d, hmem, hd⟩ := List.mem_map.1 (hchars _ hc)
    split_ifs at hd with hback
    · exact absurd hd (by decide)
    · exact hp.2 (hd ▸ hmem)

theorem splitOn_pathText (hne : segments ≠ []) (h : ∀ s ∈ segments, '/' ∉ s) :
    (pathText segments).toList.splitOn '/' = [] :: segments := by
  rw [pathText, String.toList_ofList, List.splitOn_cons_eq_if_modifyHead, if_pos (by decide),
    List.splitOn_intercalate '/' h hne]

theorem mem_pathText (hc : c ∈ (pathText segments).toList) : c = '/' ∨ ∃ s ∈ segments, c ∈ s := by
  rw [pathText, String.toList_ofList] at hc
  rcases List.mem_cons.1 hc with rfl | hc
  · exact .inl rfl
  · exact Netip.mem_intercalate hc

theorem remotePath_pathText (h : ∀ s ∈ segments, Clean s) :
    Remote.remotePath (pathText segments) = some segments := by
  have hne : pathText segments ≠ "" := by
    intro heq
    have := congrArg String.toList heq
    simp [pathText] at this
  have hnul : Char.ofNat 0 ∉ (pathText segments).toList := by
    intro hc
    rcases mem_pathText hc with heq | ⟨s, hs, hc⟩
    · exact absurd heq (by decide)
    · exact (h s hs).nul hc
  have hmap : (pathText segments).toList.map (fun c => if c = '\\' then '/' else c) =
      (pathText segments).toList := by
    conv_rhs => rw [← List.map_id (pathText segments).toList]
    refine List.map_congr_left fun c hc => if_neg ?_
    rintro rfl
    rcases mem_pathText hc with heq | ⟨s, hs, hc⟩
    · exact absurd heq (by decide)
    · exact (h s hs).backslash hc
  rw [Remote.remotePath, if_neg (not_or.2 ⟨hne, hnul⟩), hmap]
  by_cases hnil : segments = []
  · subst hnil
    rfl
  · rw [splitOn_pathText hnil fun s hs => (h s hs).slash, cleanPath_eq, List.foldl_cons]
    exact congrArg some (foldl_cleanStep h [])

theorem pathText_inj {xs ys : List (List Char)} (hxs : xs ≠ []) (hys : ys ≠ [])
    (hx : ∀ s ∈ xs, '/' ∉ s) (hy : ∀ s ∈ ys, '/' ∉ s) (h : pathText xs = pathText ys) : xs = ys := by
  have hsplit := congrArg (fun s => s.toList.splitOn '/') h
  simp only [splitOn_pathText hxs hx, splitOn_pathText hys hy] at hsplit
  exact (List.cons.inj hsplit).2

end clean

section names

def FileName.chars (f : FileName) : List Char := (ofBytes f.bytes).toList

def FileName.shown (f : FileName) : List Char := (FileBrowser.shown f.bytes).toList

theorem toList_ofBytes (b : Bytes) : (ofBytes b).toList = b.map fun x => Char.ofNat x.toNat :=
  String.toList_ofList

theorem ofBytes_inj {a b : Bytes} (h : (ofBytes a).toList = (ofBytes b).toList) : a = b := by
  rw [toList_ofBytes, toList_ofBytes] at h
  refine List.map_injective_iff.2 (fun x y hxy => ?_) h
  have := congrArg Char.toNat hxy
  rw [Json.toNat_char, Json.toNat_char] at this
  exact UInt8.toNat_inj.1 this

theorem mem_ofBytes {c : Char} (hc : c.toNat < 0x80) {b : Bytes} (h : c ∈ (ofBytes b).toList) :
    ascii c ∈ b := by
  rw [toList_ofBytes] at h
  obtain ⟨x, hx, rfl⟩ := List.mem_map.1 h
  have hbyte : ascii (Char.ofNat x.toNat) = x := by
    apply UInt8.toNat_inj.1
    rw [Json.toNat_ascii (hc.trans (by decide)), Json.toNat_char]
  rwa [hbyte]

theorem cons_intercalate {α : Type*} (sep : α) {xs : List (List α)} (h : xs ≠ []) :
    sep :: [sep].intercalate xs = xs.flatMap (sep :: ·) := by
  induction xs with
  | nil => exact absurd rfl h
  | cons x xs ih =>
    cases xs with
    | nil => simp
    | cons y ys => simp [List.intercalate_cons_cons, ← ih (List.cons_ne_nil _ _)]

theorem ofBytes_pathBytes (segments : List Bytes) :
    ofBytes (pathBytes segments) = pathText (segments.map fun s => (ofBytes s).toList) := by
  apply String.toList_inj.1
  rw [toList_ofBytes, pathBytes, pathText, String.toList_ofList]
  by_cases h : segments = []
  · subst h
    rfl
  · have hslash : Char.ofNat (ascii '/').toNat = '/' := by decide
    rw [cons_intercalate _ h, cons_intercalate _ (by simpa using h), List.map_flatMap,
      List.flatMap_map]
    simp only [List.map_cons, hslash, toList_ofBytes]

theorem coerce_flatMap (s : Bytes) (segments : List Bytes) :
    coerce (s ++ segments.flatMap (ascii '/' :: ·)) =
      coerce s ++ (segments.map coerce).flatMap (ascii '/' :: ·) := by
  induction segments generalizing s with
  | nil => simp
  | cons t segments ih =>
    rw [List.flatMap_cons, List.map_cons, List.flatMap_cons, List.cons_append, List.cons_append,
      Json.coerce_append_ascii (by decide), ih]

theorem coerce_pathBytes (segments : List Bytes) :
    coerce (pathBytes segments) = pathBytes (segments.map coerce) := by
  unfold pathBytes
  by_cases h : segments = []
  · subst h
    decide
  · rw [cons_intercalate _ h, cons_intercalate _ (by simpa using h)]
    have hnil : coerce [] = [] := rfl
    simpa [hnil] using coerce_flatMap [] segments

theorem shown_pathBytes (segments : List Bytes) :
    shown (pathBytes segments) = pathText (segments.map fun s => (shown s).toList) := by
  rw [shown, coerce_pathBytes, ofBytes_pathBytes, List.map_map]
  rfl

theorem pathText_ne_root {x : List Char} (h : x ≠ []) (xs : List (List Char)) :
    pathText (x :: xs) ≠ "/" := by
  intro heq
  have hlist := congrArg String.toList heq
  obtain ⟨c, t, hx⟩ := List.exists_cons_of_ne_nil h
  rw [pathText, String.toList_ofList, cons_intercalate _ (List.cons_ne_nil _ _), hx] at hlist
  simp at hlist

theorem join_pathText {xs : List (List Char)} (h : ∀ x ∈ xs, x ≠ []) (y : String) :
    join (pathText xs) y = pathText (xs ++ [y.toList]) := by
  apply String.toList_inj.1
  cases xs with
  | nil => simp [join, pathText]
  | cons x xs =>
    rw [join, if_neg (pathText_ne_root (h x List.mem_cons_self) xs)]
    simp only [pathText, String.toList_append, String.toList_ofList]
    rw [cons_intercalate _ (List.cons_ne_nil _ _), cons_intercalate _ (by simp), List.flatMap_append]
    simp

theorem coerce_ne_nil {s : Bytes} (h : s ≠ []) : coerce s ≠ [] := by
  intro hnil
  apply h
  rw [← Json.coerce_eq_of_ascii (s := s) (by simp [hnil]), hnil]

theorem shown_ne_nil (f : FileName) : f.shown ≠ [] := by
  intro h
  rw [FileName.shown, FileBrowser.shown, toList_ofBytes, List.map_eq_nil_iff] at h
  exact coerce_ne_nil f.ne_nil h

theorem listedPath_eq (dir : List FileName) (n : FileName) :
    listedPath dir n = pathText ((dir ++ [n]).map FileName.shown) := by
  have hne : ∀ x ∈ dir.map FileName.shown, x ≠ [] := by
    intro x hx
    obtain ⟨f, -, rfl⟩ := List.mem_map.1 hx
    exact shown_ne_nil f
  rw [listedPath, shown_pathBytes, List.map_map, List.map_append]
  exact join_pathText hne _

theorem entryPath_eq (dir : List FileName) (n : FileName) :
    entryPath dir n = pathText ((dir ++ [n]).map FileName.chars) := by
  rw [entryPath, ofBytes_pathBytes, List.map_map]
  rfl

theorem mem_shown {c : Char} (hc : c.toNat < 0x80) {f : FileName} (h : c ∈ f.shown) :
    ascii c ∈ f.bytes :=
  Json.mem_of_mem_coerce (by rw [Json.toNat_ascii (hc.trans (by decide))]; exact hc) (mem_ofBytes hc h)

theorem shown_ne_literal {f : FileName} {s : String} (hs : Json.Ascii s) (h : f.bytes ≠ literal s) :
    f.shown ≠ s.toList := by
  intro heq
  have hcoerce : coerce f.bytes = literal s := by
    apply ofBytes_inj
    rw [Json.ofBytes_literal hs.narrow]
    exact heq
  apply h
  rw [← hcoerce, Json.coerce_eq_of_ascii]
  intro x hx
  rw [hcoerce] at hx
  obtain ⟨c, hc, rfl⟩ := List.mem_map.1 hx
  rw [Json.toNat_ascii (hs.narrow c hc)]
  exact hs c hc

theorem clean_shown {f : FileName} (h : ascii '\\' ∉ f.bytes) : Clean f.shown where
  ne_nil := shown_ne_nil f
  slash := fun hc => f.slash (mem_shown (by decide) hc)
  backslash := fun hc => h (mem_shown (by decide) hc)
  nul := fun hc => f.nul (mem_shown (by decide) hc)
  dot := shown_ne_literal (s := ".") (by simp [Json.Ascii]) f.dot
  dots := shown_ne_literal (s := "..") (by simp [Json.Ascii]) f.dots

theorem shown_eq_chars {f : FileName} : f.shown = f.chars ↔ Valid f.bytes := by
  rw [← Json.coerce_eq_iff]
  constructor
  · exact fun h => ofBytes_inj h
  · intro h
    rw [FileName.shown, FileBrowser.shown, h]
    rfl

end names

theorem remotePath_listed {dir : List FileName} {n : FileName}
    (h : ∀ f ∈ dir ++ [n], Addressable f) : remotePath (listedPath dir n) = some (entryPath dir n) := by
  have hclean : ∀ s ∈ (dir ++ [n]).map FileName.shown, Clean s := by
    intro s hs
    obtain ⟨f, hf, rfl⟩ := List.mem_map.1 hs
    exact clean_shown (h f hf).1
  have hsame : (dir ++ [n]).map FileName.shown = (dir ++ [n]).map FileName.chars :=
    List.map_congr_left fun f hf => shown_eq_chars.2 (h f hf).2
  rw [remotePath, listedPath_eq, remotePath_pathText hclean, Option.map_some, hsame, entryPath_eq]

/-- The result of `remotePath` has no backslash, so a name with one is not reached. -/
theorem no_backslash_of_remotePath {dir : List FileName} {n : FileName} {p : String}
    (h : remotePath p = some (entryPath dir n)) {f : FileName} (hf : f ∈ dir ++ [n]) :
    ascii '\\' ∉ f.bytes := by
  obtain ⟨segments, hsegments, htext⟩ := Option.map_eq_some_iff.1 h
  have hclean := clean_of_remotePath hsegments
  intro hmem
  have hback : '\\' ∈ (pathText segments).toList := by
    have hchars : '\\' ∈ f.chars := by
      rw [FileName.chars, toList_ofBytes]
      exact List.mem_map.2 ⟨_, hmem, by decide⟩
    rw [htext, entryPath_eq, pathText, String.toList_ofList, cons_intercalate _ (by simp)]
    exact List.mem_flatMap.2 ⟨_, List.mem_map_of_mem hf, List.mem_cons_of_mem _ hchars⟩
  rcases mem_pathText hback with heq | ⟨s, hs, hc⟩
  · exact absurd heq (by decide)
  · exact (hclean s hs).backslash hc

theorem slash_notMem_chars (fs : List FileName) : ∀ s ∈ fs.map FileName.chars, '/' ∉ s := by
  intro s hs
  obtain ⟨f, -, rfl⟩ := List.mem_map.1 hs
  exact fun hc => f.slash (mem_ofBytes (by decide) hc)

theorem addressable_of_remotePath {dir : List FileName} {n : FileName}
    (h : remotePath (listedPath dir n) = some (entryPath dir n)) :
    ∀ f ∈ dir ++ [n], Addressable f := by
  have hback : ∀ f ∈ dir ++ [n], ascii '\\' ∉ f.bytes := fun f hf => no_backslash_of_remotePath h hf
  have hclean : ∀ s ∈ (dir ++ [n]).map FileName.shown, Clean s := by
    intro s hs
    obtain ⟨f, hf, rfl⟩ := List.mem_map.1 hs
    exact clean_shown (hback f hf)
  rw [remotePath, listedPath_eq, remotePath_pathText hclean, Option.map_some, entryPath_eq,
    Option.some.injEq] at h
  have hsame := pathText_inj (by simp) (by simp) (fun s hs => (hclean s hs).slash)
    (slash_notMem_chars _) h
  intro f hf
  exact ⟨hback f hf, shown_eq_chars.1 (List.map_inj_left.1 hsame f hf)⟩

theorem chars_injective : Function.Injective FileName.chars := by
  intro f g h
  have hbytes := ofBytes_inj h
  cases f
  cases g
  cases hbytes
  rfl

theorem entryPath_inj {dir dir' : List FileName} {n n' : FileName}
    (h : entryPath dir n = entryPath dir' n') : dir = dir' ∧ n = n' := by
  rw [entryPath_eq, entryPath_eq] at h
  have hsame := pathText_inj (by simp) (by simp) (slash_notMem_chars _) (slash_notMem_chars _) h
  obtain ⟨hdir, hn⟩ := List.append_inj' (List.map_injective_iff.2 chars_injective hsame) rfl
  exact ⟨hdir, List.singleton_inj.1 hn⟩

theorem entryPath_ne_root (dir : List FileName) (n : FileName) : entryPath dir n ≠ "/" := by
  have hne : ∀ f : FileName, f.chars ≠ [] := by
    intro f h
    rw [FileName.chars, toList_ofBytes, List.map_eq_nil_iff] at h
    exact f.ne_nil h
  rw [entryPath_eq]
  cases dir with
  | nil => exact pathText_ne_root (hne n) []
  | cons f dir => exact pathText_ne_root (hne f) _

theorem named_listed {dir : List FileName} {n : FileName} (h : ∀ f ∈ dir ++ [n], Addressable f)
    (message : String) : named message (listedPath dir n) = .ok (entryPath dir n) := by
  rw [named, remotePath_listed h]
  exact if_neg (entryPath_ne_root dir n)

theorem remotePath_idem {p q : String} (h : remotePath p = some q) : remotePath q = some q := by
  obtain ⟨segments, hsegments, rfl⟩ := Option.map_eq_some_iff.1 h
  rw [remotePath, remotePath_pathText (clean_of_remotePath hsegments)]
  rfl

theorem remotePath_absolute {p q : String} (h : remotePath p = some q) :
    q.toList.head? = some '/' ∧ ∀ s ∈ q.toList.splitOn '/', s ≠ ['.'] ∧ s ≠ ['.', '.'] := by
  obtain ⟨segments, hsegments, rfl⟩ := Option.map_eq_some_iff.1 h
  have hclean := clean_of_remotePath hsegments
  refine ⟨by simp [pathText], ?_⟩
  by_cases hnil : segments = []
  · subst hnil
    decide +kernel
  · rw [splitOn_pathText hnil fun s hs => (hclean s hs).slash]
    intro s hs
    rcases List.mem_cons.1 hs with rfl | hs
    · decide
    · exact ⟨(hclean s hs).dot, (hclean s hs).dots⟩

/-- The page's path of the entry `n` of `dir` is mapped to this entry, and downloading, deleting
and renaming act on it, whatever the agent answers. -/
structure Addressed (dir : List FileName) (n : FileName) : Prop where
  mapped : remotePath (listedPath dir n) = some (entryPath dir n)
  downloaded : downloadFile (listedPath dir n) = .ok [.open (entryPath dir n)]
  deleted : ∀ (a : Answers) (recursive : Bool),
    postFileAction a ⟨"delete", listedPath dir n, "", recursive⟩ =
      .ok (deleteCommands a recursive (entryPath dir n))
  renamed : ∀ (a : Answers) (n' : FileName), Addressable n' →
    postFileAction a ⟨"rename", listedPath dir n, listedPath dir n', false⟩ =
      .ok (renameCommands a (entryPath dir n) (entryPath dir n'))

theorem addressed {dir : List FileName} {n : FileName} (h : ∀ f ∈ dir ++ [n], Addressable f) :
    Addressed dir n where
  mapped := remotePath_listed h
  downloaded := by rw [downloadFile, remotePath_listed h]
  deleted a recursive := by
    rw [postFileAction, named_listed h]
    rfl
  renamed a n' hn' := by
    have h' : ∀ f ∈ dir ++ [n'], Addressable f := by
      intro f hf
      rcases List.mem_append.1 hf with hf | hf
      · exact h f (List.mem_append_left _ hf)
      · rw [List.mem_singleton.1 hf]
        exact hn'
    rw [postFileAction, named_listed h]
    simp only [bind, Except.bind, if_true, named_listed h']
    rfl

/-- A listed entry is addressed exactly if no name on its path has a backslash and all are
UTF-8, and then no other entry has its path. -/
theorem listed_entries_addressed (dir : List FileName) (n : FileName) (p : String) :
    (Addressed dir n ↔ ∀ f ∈ dir ++ [n], Addressable f) ∧
    (Addressed dir n → ∀ dir' n', Addressed dir' n' →
      remotePath (listedPath dir n) = remotePath (listedPath dir' n') → dir = dir' ∧ n = n') ∧
    ∀ q, remotePath p = some q → remotePath q = some q ∧ q.toList.head? = some '/' ∧
      ∀ s ∈ q.toList.splitOn '/', s ≠ ['.'] ∧ s ≠ ['.', '.'] := by
  refine ⟨⟨fun h => addressable_of_remotePath h.mapped, addressed⟩, ?_,
    fun q h => ⟨remotePath_idem h, remotePath_absolute h⟩⟩
  intro h dir' n' h' heq
  rw [h.mapped, h'.mapped, Option.some.injEq] at heq
  exact entryPath_inj heq

def folder : FileName := ⟨literal "a", by decide, by decide, by decide, by decide, by decide⟩

def backslashed : FileName := ⟨literal "\\a", by decide, by decide, by decide, by decide, by decide⟩

theorem listed_entries_addressed_nested :
    Addressable folder ∧ remotePath (listedPath [folder] folder) = some "/a/a" := by
  have hfolder : Addressable folder :=
    ⟨by decide, Json.Ascii.valid (s := "a") (by simp [Json.Ascii])⟩
  obtain ⟨haddressed, -⟩ := listed_entries_addressed [folder] folder ""
  refine ⟨hfolder, (haddressed.2 ?_).mapped⟩
  intro f hf
  rcases List.mem_append.1 hf with hf | hf
  · rw [List.mem_singleton.1 hf]
    exact hfolder
  · rw [List.mem_singleton.1 hf]
    exact hfolder

/-- Deleting the second folder deletes the first with its contents. -/
theorem backslash_deletes_other :
    remotePath (listedPath [] backslashed) = some "/a" ∧ entryPath [] backslashed = "/\\a" ∧
      remotePath (listedPath [] backslashed) = remotePath (listedPath [] folder) ∧
      backslashed ≠ folder ∧
      postFileAction ⟨fun _ => some true, true⟩ ⟨"delete", listedPath [] backslashed, "", true⟩ =
        .ok [.lstat "/a", .removeAll "/a"] := by
  refine ⟨by decide +kernel, by decide +kernel, by decide +kernel, ?_, by decide +kernel⟩
  intro h
  exact absurd (congrArg FileName.bytes h) (by decide)

end Lotse.FileBrowser
