import Lotse.Comparators

set_option autoImplicit false

namespace Lotse.Versions
open Comparators

structure Semver where
  core : Fin 3 → ℤ
  pre : List (List Char)

/-- `strings.Cut`: the text before and after the first separator, and whether there is one. -/
def cut (sep : Char) (s : List Char) : List Char × List Char × Bool :=
  match s.span (· != sep) with
  | (before, _ :: after) => (before, after, true)
  | (before, []) => (before, [], false)

def trimPrefixV : List Char → List Char
  | 'v' :: s => s
  | s => s

def digitsValue (s : List Char) : ℕ := s.foldl (fun n c => 10 * n + (c.toNat - '0'.toNat)) 0

def parseDigits (s : List Char) : Option ℕ :=
  if s ≠ [] ∧ s.all Char.isDigit then some (digitsValue s) else none

def maxInt : ℕ := 2 ^ 63 - 1

/-- `strconv.Atoi` with a 64-bit int: a sign is allowed, a value out of range is an error. -/
def atoi : List Char → Option ℤ
  | '-' :: s => (parseDigits s).bind fun n => if n ≤ maxInt + 1 then some (-n) else none
  | '+' :: s => (parseDigits s).bind fun n => if n ≤ maxInt then some n else none
  | s => (parseDigits s).bind fun n => if n ≤ maxInt then some n else none

def parsePart (p : List Char) : Option ℤ :=
  (atoi p).bind fun n => if n < 0 ∨ 1 < p.length ∧ p.head? = some '0' then none else some n

def parseCore (core : List Char) : Option (Fin 3 → ℤ) :=
  match core.splitOn '.' with
  | [major, minor, patch] => do
    let a ← parsePart major
    let b ← parsePart minor
    let c ← parsePart patch
    return ![a, b, c]
  | _ => none

def parseVersion (s : String) : Option Semver :=
  let s := (cut '+' (trimPrefixV s.toList)).1
  let (core, pre, hasPre) := cut '-' s
  (parseCore core).bind fun v =>
    if hasPre then if pre = [] then none else some ⟨v, pre.splitOn '.'⟩ else some ⟨v, []⟩

/-- Numeric identifiers sort before alphanumeric ones. -/
def compareIdentifier : List Char → List Char → Ordering :=
  keyedFirst atoi Ord.compare Ord.compare

/-- The first difference decides, and of two lists that agree the shorter is less; a
release is newer than its pre-releases. -/
def comparePre : List (List Char) → List (List Char) → Ordering :=
  nilLast (List.compareLex compareIdentifier)

def compare : Semver → Semver → Ordering :=
  compareLex (compareOn fun v => List.ofFn v.core) (compareBy Semver.pre comparePre)

def newer (candidate current : String) : Bool :=
  match parseVersion candidate, parseVersion current with
  | none, _ => false
  | some _, none => true
  | some c, some cur => compare c cur == .gt

instance : Std.TransCmp compareIdentifier := inferInstanceAs (Std.TransCmp (keyedFirst _ _ _))

instance : Std.TransCmp comparePre := inferInstanceAs (Std.TransCmp (nilLast _))

instance : Std.TransCmp compare := inferInstanceAs (Std.TransCmp (compareLex _ _))

/-- Development builds count as older than every release. -/
theorem newer_iff {candidate current : String} : newer candidate current ↔
    ∃ c, parseVersion candidate = some c ∧
      ∀ cur, parseVersion current = some cur → compare c cur = .gt := by
  unfold newer
  cases parseVersion candidate <;> cases parseVersion current <;> simp

theorem newer_trans {a b c : String} (hcb : newer c b) (hba : newer b a) : newer c a := by
  obtain ⟨vc, hc, hcb⟩ := newer_iff.1 hcb
  obtain ⟨vb, hb, hba⟩ := newer_iff.1 hba
  exact newer_iff.2 ⟨vc, hc, fun va ha => Std.TransCmp.gt_trans (hcb vb hb) (hba va ha)⟩

example : newer "1.0.0-rc.10" "v1.0.0-rc.9" ∧ ¬ newer "01.2.3" "1.2.2" ∧ newer "0.4.0" "dev" := by
  decide +kernel

end Lotse.Versions
