import Mathlib.Logic.Function.Basic
import Mathlib.Tactic

set_option autoImplicit false

namespace Lotse.FileTree

abbrev Bytes := List UInt8

abbrev Name := List Char

abbrev Loc := List Name

structure File where
  inode : ℕ
  mode : ℕ
  uid : ℕ
  gid : ℕ
  data : Bytes
  deriving DecidableEq

inductive Node where
  | file (f : File)
  | dir
  | link (absolute : Bool) (target : List Name)
  deriving DecidableEq

abbrev Tree := Loc → Option Node

structure Disk where
  node : Tree
  next : ℕ
  fresh : ∀ loc f, node loc = some (.file f) → f.inode < next

inductive Failure where
  | notExist
  | notDir
  | loop
  | exist
  | isDir
  deriving DecidableEq

def isDir (t : Tree) (loc : Loc) : Bool := loc = [] || t loc = some .dir

/-- Follow every link, from the folder `cur`. -/
def follow (t : Tree) : ℕ → Loc → List Name → Except Failure Loc
  | _, cur, [] => .ok cur
  | 0, _, _ :: _ => .error .loop
  | k + 1, cur, n :: rest =>
    if n = [] ∨ n = ['.'] then follow t k cur rest
    else if n = ['.', '.'] then follow t k cur.dropLast rest
    else match t (cur ++ [n]) with
      | none => .error .notExist
      | some .dir => follow t k (cur ++ [n]) rest
      | some (.link absolute target) =>
        follow t k (if absolute then [] else cur) (target ++ rest)
      | some (.file _) => if rest = [] then .ok (cur ++ [n]) else .error .notDir

variable (limit : ℕ)

def folder (t : Tree) (dir : List Name) : Except Failure Loc :=
  match follow t limit [] dir with
  | .error e => .error e
  | .ok d => if isDir t d then .ok d else .error .notDir

/-- The entry that a path names. The last name is not followed. -/
def locate (t : Tree) (dir : List Name) (base : Name) : Except Failure Loc :=
  (folder limit t dir).map (· ++ [base])

/-- What a path leads to when the last name is followed too. -/
def resolve (t : Tree) (dir : List Name) (base : Name) : Except Failure Loc :=
  match locate limit t dir base with
  | .error e => .error e
  | .ok loc =>
    match t loc with
    | none => .error .notExist
    | some (.link absolute target) => follow t limit (if absolute then [] else loc.dropLast) target
    | some _ => .ok loc

def isPlain : Option Node → Bool
  | none => true
  | some (.file _) => true
  | some _ => false

def SameShape (t t' : Tree) : Prop := ∀ loc, t' loc = t loc ∨ (isPlain (t loc) ∧ isPlain (t' loc))

theorem not_isDir_of_isPlain {t : Tree} {loc : Loc} (hne : loc ≠ []) (h : isPlain (t loc)) :
    isDir t loc = false := by
  cases ht : t loc with
  | none => simp [isDir, hne, ht]
  | some n =>
    cases n with
    | file f => simp [isDir, hne, ht]
    | dir => simp [ht, isPlain] at h
    | link absolute target => simp [ht, isPlain] at h

theorem SameShape.isDir_eq {t t' : Tree} (h : SameShape t t') (loc : Loc) :
    isDir t' loc = isDir t loc := by
  by_cases hne : loc = []
  · simp [isDir, hne]
  · rcases h loc with heq | ⟨hplain, hplain'⟩
    · simp [isDir, heq]
    · rw [not_isDir_of_isPlain hne hplain, not_isDir_of_isPlain hne hplain']

theorem SameShape.follow_dir {t t' : Tree} (h : SameShape t t') {k : ℕ} {cur d : Loc}
    {segs : List Name} (hfollow : follow t k cur segs = .ok d) (hd : isDir t d) :
    follow t' k cur segs = .ok d := by
  induction k generalizing cur segs with
  | zero =>
    cases segs with
    | nil => exact hfollow
    | cons n rest => cases hfollow
  | succ k ih =>
    cases segs with
    | nil => exact hfollow
    | cons n rest =>
      unfold follow at hfollow ⊢
      by_cases hdot : n = [] ∨ n = ['.']
      · rw [if_pos hdot] at hfollow ⊢
        exact ih hfollow
      rw [if_neg hdot] at hfollow ⊢
      by_cases hdots : n = ['.', '.']
      · rw [if_pos hdots] at hfollow ⊢
        exact ih hfollow
      rw [if_neg hdots] at hfollow ⊢
      rcases h (cur ++ [n]) with heq | ⟨hplain, -⟩
      · rw [heq]
        cases ht : t (cur ++ [n]) with
        | none => simp [ht] at hfollow
        | some node =>
          simp only [ht] at hfollow ⊢
          cases node with
          | file f => exact hfollow
          | dir => exact ih hfollow
          | link absolute target => exact ih hfollow
      · -- at a file the lookup ends, and not at a folder
        exfalso
        have hfile := not_isDir_of_isPlain (by simp) hplain
        cases ht : t (cur ++ [n]) with
        | none => simp [ht] at hfollow
        | some node =>
          simp only [ht] at hfollow
          cases node with
          | file f =>
            simp only at hfollow
            split_ifs at hfollow with hrest
            cases hfollow
            rw [hfile] at hd
            cases hd
          | dir => simp [ht, isPlain] at hplain
          | link absolute target => simp [ht, isPlain] at hplain

theorem folder_ok_iff {t : Tree} {dir : List Name} {d : Loc} :
    folder limit t dir = .ok d ↔ follow t limit [] dir = .ok d ∧ isDir t d := by
  unfold folder
  cases hf : follow t limit [] dir with
  | error e => simp
  | ok d' =>
    by_cases hd : isDir t d'
    · simp only [hd, if_true, Except.ok.injEq]
      constructor
      · rintro rfl
        exact ⟨rfl, hd⟩
      · exact And.left
    · simp only [hd, Bool.false_eq_true, if_false, reduceCtorEq, Except.ok.injEq, false_iff]
      rintro ⟨rfl, hd'⟩
      exact hd hd'

variable {limit}

theorem SameShape.folder {t t' : Tree} (h : SameShape t t') {dir : List Name} {d : Loc}
    (hd : folder limit t dir = .ok d) : folder limit t' dir = .ok d := by
  rw [folder_ok_iff] at hd ⊢
  rw [h.isDir_eq]
  exact ⟨h.follow_dir hd.1 hd.2, hd.2⟩

theorem locate_ok_iff {t : Tree} {dir : List Name} {base : Name} {loc : Loc} :
    locate limit t dir base = .ok loc ↔ ∃ d, folder limit t dir = .ok d ∧ loc = d ++ [base] := by
  unfold locate
  cases folder limit t dir with
  | error e => simp [Except.map]
  | ok d => simp [Except.map, eq_comm]

/-- A change of a file that leaves it the same file. -/
inductive Edit where
  | write (data : Bytes)
  | chmod (mode : ℕ)
  | chown (uid gid : ℕ)

def Edit.apply : Edit → File → File
  | .write data, f => { f with data := data }
  | .chmod mode, f => { f with mode := mode }
  | .chown uid gid, f => { f with uid := uid, gid := gid }

@[simp] theorem Edit.apply_inode (e : Edit) (f : File) : (e.apply f).inode = f.inode := by
  cases e <;> rfl

def Edit.node (e : Edit) : Node → Node
  | .file f => .file (e.apply f)
  | n => n

namespace Disk

def create (d : Disk) (loc : Loc) (mode uid gid : ℕ) : Disk where
  node := Function.update d.node loc (some (.file ⟨d.next, mode, uid, gid, []⟩))
  next := d.next + 1
  fresh := by
    intro x f hx
    by_cases hloc : x = loc
    · rw [hloc, Function.update_self] at hx
      cases hx
      exact Nat.lt_succ_self _
    · rw [Function.update_of_ne hloc] at hx
      exact (d.fresh x f hx).trans (Nat.lt_succ_self _)

def edit (d : Disk) (loc : Loc) (e : Edit) : Disk where
  node := Function.update d.node loc ((d.node loc).map e.node)
  next := d.next
  fresh := by
    intro x f hx
    by_cases hloc : x = loc
    · rw [hloc, Function.update_self, Option.map_eq_some_iff] at hx
      obtain ⟨n, hn, hf⟩ := hx
      cases n with
      | file g =>
        cases hf
        rw [Edit.apply_inode]
        exact d.fresh loc g hn
      | dir => cases hf
      | link absolute target => cases hf
    · rw [Function.update_of_ne hloc] at hx
      exact d.fresh x f hx

def remove (d : Disk) (loc : Loc) : Disk where
  node := Function.update d.node loc none
  next := d.next
  fresh := by
    intro x f hx
    by_cases hloc : x = loc
    · rw [hloc, Function.update_self] at hx
      cases hx
    · rw [Function.update_of_ne hloc] at hx
      exact d.fresh x f hx

/-- The entry `src` takes the place of `dst`. -/
def move (d : Disk) (src dst : Loc) : Disk where
  node := Function.update (Function.update d.node dst (d.node src)) src none
  next := d.next
  fresh := by
    intro x f hx
    by_cases hsrc : x = src
    · rw [hsrc, Function.update_self] at hx
      cases hx
    · rw [Function.update_of_ne hsrc] at hx
      by_cases hdst : x = dst
      · rw [hdst, Function.update_self] at hx
        exact d.fresh src f hx
      · rw [Function.update_of_ne hdst] at hx
        exact d.fresh x f hx

end Disk

end Lotse.FileTree
