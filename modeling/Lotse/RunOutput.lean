import Mathlib.Data.List.GetD
import Mathlib.Data.List.Sort
import Lotse.Runs
import Lotse.Utf8
import Lotse.TailBuffer

set_option autoImplicit false

/-!
# The output of a script run

An `activeRun` with its targets, the viewers that subscribed to it and the result that
`execute` stores. Every operation holds the run's mutex, so that a run of the system is a
sequence of operations: chunks of output in any order, changes of a target, viewers that
come and go, and the end.
-/
namespace Lotse.RunOutput
open Utf8

def maxRunOutput : ℕ := 128 * 1024

def utfMax : ℕ := 4

inductive Status where
  | pending
  | running
  | done
  | failed
  | skipped
  | canceled
  deriving DecidableEq

structure RunTarget where
  systemID : ℤ
  status : Status
  exitCode : Option ℤ
  error : String
  output : Bytes
  truncated : Bool
  deriving DecidableEq

inductive RunEvent where
  | target (t : RunTarget)
  | output (systemID : ℤ) (data : Bytes)
  | done
  deriving DecidableEq

def startsAt (b : Bytes) (i : ℕ) : Bool := i < b.length && runeStart (b.getD i 0)

/-- The byte `j` places before the last one starts a character. -/
def startsBack (b : Bytes) (j : ℕ) : Bool := j < b.length && runeStart (b.getD (b.length - 1 - j) 0)

/-- The length of `b` without an incomplete character at its end. -/
def completeUTF8 (b : Bytes) : ℕ :=
  match (List.range utfMax).find? (startsBack b) with
  | some j =>
    let i := b.length - 1 - j
    if fullRune (b.drop i) then b.length else i
  | none => b.length

def dropCut (out : Bytes) : Bytes :=
  match (List.range utfMax).find? (startsAt out) with
  | some i => out.drop i
  | none => out

def tailBytes (t : TailBuffer UInt8) : Bytes := if t.dropped then dropCut t.toList else t.toList

/-- A target with its entries of `output` and `partial`. `written` is all output so far,
which no code reads. -/
structure Slot where
  target : RunTarget
  output : TailBuffer UInt8
  held : Bytes
  written : Bytes

/-- A viewer with the state it was sent first and the events after it. `sizes` is how much
each target had written by then, which no code reads. -/
structure Viewer where
  snapshot : List RunTarget
  sizes : List ℕ
  events : List RunEvent
  subscribed : Bool

/-- `stored` is what `FinishRun` writes. -/
structure State where
  slots : List Slot
  viewers : List Viewer
  stored : Option (List RunTarget)
  done : Bool

namespace Slot

def snapshot (s : Slot) : RunTarget :=
  let b := tailBytes s.output
  { s.target with output := b.take (b.length - min b.length s.held.length) }

def live (s : Slot) (p : Bytes) : Bytes := s.held ++ p

def write (s : Slot) (p : Bytes) : Slot where
  target := { s.target with truncated := (s.output.write p).dropped }
  output := s.output.write p
  held := (s.live p).drop (completeUTF8 (s.live p))
  written := s.written ++ p

end Slot

def snapshot (g : State) : List RunTarget := g.slots.map Slot.snapshot

def Viewer.send (ev : RunEvent) (v : Viewer) : Viewer :=
  if v.subscribed then { v with events := v.events ++ [ev] } else v

def publish (ev : RunEvent) (g : State) : State := { g with viewers := g.viewers.map (·.send ev) }

def write (g : State) (i : ℕ) (s : Slot) (p : Bytes) : State :=
  let n := completeUTF8 (s.live p)
  let g := { g with slots := g.slots.set i (s.write p) }
  if 0 < n && g.viewers.any (·.subscribed) then
    publish (.output s.target.systemID ((s.live p).take n)) g
  else g

def update (g : State) (i : ℕ) (s : Slot) (status : Status) (error : String)
    (exitCode : Option ℤ) : State :=
  let t := { s.target with status, error, exitCode }
  publish (.target { t with output := [] }) { g with slots := g.slots.set i { s with target := t } }

/-- `getRunEvents` subscribes, unless the run is done, and takes the snapshot at once. -/
def subscribe (g : State) : State :=
  { g with
    viewers := g.viewers ++ [⟨snapshot g, g.slots.map (·.written.length), [], !g.done⟩] }

def close (g : State) : State :=
  let g := publish .done g
  { g with viewers := g.viewers.map ({ · with subscribed := false }), done := true }

inductive Op where
  | write (i : ℕ) (p : Bytes)
  | update (i : ℕ) (status : Status) (error : String) (exitCode : Option ℤ)
  | subscribe
  | unsubscribe (v : ℕ)
  | finish
  | close

/-- `execute` waits for every target before it stores the result, and closes the run
afterwards. -/
def step (g : State) : Op → Option State
  | .write i p =>
    if g.stored.isSome then none else (g.slots[i]?).map fun s => write g i s p
  | .update i status error exitCode =>
    if g.stored.isSome then none
    else (g.slots[i]?).map fun s => update g i s status error exitCode
  | .subscribe => some (subscribe g)
  | .unsubscribe v =>
    some { g with viewers := g.viewers.modify v ({ · with subscribed := false }) }
  | .finish => if g.stored.isSome then none else some { g with stored := some (snapshot g) }
  | .close => if g.stored.isSome && !g.done then some (close g) else none

def newSlot (systemID : ℤ) : Slot where
  target := ⟨systemID, .pending, none, "", [], false⟩
  output := .empty maxRunOutput
  held := []
  written := []

/-- `postRun` sorts the requested systems and drops repeated ones. -/
def newRun (systems : List ℤ) : State where
  slots := (systems.insertionSort (· ≤ ·)).dedup.map newSlot
  viewers := []
  stored := none
  done := false

def dataOf (systemID : ℤ) : List RunEvent → List Bytes
  | [] => []
  | .output id data :: events =>
    if id = systemID then data :: dataOf systemID events else dataOf systemID events
  | _ :: events => dataOf systemID events

theorem startsBack_led {x t : Bytes} {b : UInt8} (hb : runeStart b = true) :
    startsBack (x ++ b :: t) t.length = true := by
  have hi : (x ++ b :: t).length - 1 - t.length = x.length := by
    rw [List.length_append, List.length_cons]
    omega
  have hget : (x ++ b :: t).getD x.length 0 = b := by
    rw [List.getD_append_right _ _ _ _ le_rfl, Nat.sub_self, List.getD_cons_zero]
  rw [startsBack, hi, hget, hb]
  simp only [Bool.and_true, decide_eq_true_eq, List.length_append, List.length_cons]
  omega

theorem startsBack_cont {x t : Bytes} {b : UInt8} (ht : ∀ c ∈ t, isCont c = true) {j : ℕ}
    (hj : j < t.length) : startsBack (x ++ b :: t) j = false := by
  have hi : (x ++ b :: t).length - 1 - j = x.length + (t.length - 1 - j + 1) := by
    rw [List.length_append, List.length_cons]
    omega
  have hget : (x ++ b :: t).getD (x.length + (t.length - 1 - j + 1)) 0 =
      t.getD (t.length - 1 - j) 0 := by
    rw [List.getD_append_right _ _ _ _ (by omega), Nat.add_sub_cancel_left, List.getD_cons_succ]
  have hmem : t.getD (t.length - 1 - j) 0 ∈ t := by
    rw [List.getD_eq_getElem _ _ (by omega)]
    exact List.getElem_mem _
  rw [startsBack, hi, hget, runeStart, ht _ hmem]
  simp

theorem find_led {x t : Bytes} {b : UInt8} (hb : runeStart b = true)
    (ht : ∀ c ∈ t, isCont c = true) (hlen : t.length < utfMax) :
    (List.range utfMax).find? (startsBack (x ++ b :: t)) = some t.length := by
  rw [List.find?_range_eq_some]
  refine ⟨startsBack_led hb, List.mem_range.2 hlen, fun j hj => ?_⟩
  rw [startsBack_cont ht hj]
  rfl

theorem completeUTF8_led {x p : Bytes} (hp : Led p) (hlen : p.length ≤ utfMax) :
    completeUTF8 (x ++ p) = if fullRune p then (x ++ p).length else x.length := by
  obtain ⟨b, t, rfl, hb, ht⟩ := hp
  have hi : (x ++ b :: t).length - 1 - t.length = x.length := by
    rw [List.length_append, List.length_cons]
    omega
  simp only [completeUTF8, find_led hb ht hlen, hi, List.drop_left]

theorem exists_led_of_find {b : Bytes} {j : ℕ}
    (h : (List.range utfMax).find? (startsBack b) = some j) :
    ∃ x p, b = x ++ p ∧ Led p ∧ p.length ≤ utfMax := by
  rw [List.find?_range_eq_some] at h
  obtain ⟨hj, hmem, hmin⟩ := h
  simp only [startsBack, Bool.and_eq_true, decide_eq_true_eq] at hj
  obtain ⟨hlt, hstart⟩ := hj
  have hi : b.length - 1 - j < b.length := by omega
  rw [List.getD_eq_getElem _ _ hi] at hstart
  have hcut : b.drop (b.length - 1 - j) = b[b.length - 1 - j] :: b.drop (b.length - 1 - j + 1) :=
    List.drop_eq_getElem_cons hi
  refine ⟨b.take (b.length - 1 - j), b.drop (b.length - 1 - j), (List.take_append_drop _ _).symm,
    ⟨_, _, hcut, hstart, fun c hc => ?_⟩, ?_⟩
  · obtain ⟨k, hk, rfl⟩ := List.mem_iff_getElem.1 hc
    rw [List.length_drop] at hk
    rw [List.getElem_drop]
    have hback := hmin (j - 1 - k) (by omega)
    have hidx : b.length - 1 - (j - 1 - k) = b.length - 1 - j + 1 + k := by omega
    rw [startsBack, hidx, List.getD_eq_getElem _ _ (by omega)] at hback
    have hdec : decide (j - 1 - k < b.length) = true := by
      rw [decide_eq_true_eq]
      omega
    simpa [runeStart, hdec] using hback
  · rw [List.length_drop]
    have := List.mem_range.1 hmem
    omega

/-- `completeUTF8` cuts off the part of a character that the bytes end in. -/
theorem completeUTF8_tail (b : Bytes) : Tail b (b.drop (completeUTF8 b)) := by
  cases hfind : (List.range utfMax).find? (startsBack b) with
  | some j =>
    obtain ⟨x, p, rfl, hled, hlen⟩ := exists_led_of_find hfind
    rw [completeUTF8_led hled hlen]
    cases hfull : fullRune p with
    | true =>
      rw [if_pos rfl, List.drop_length]
      refine ⟨List.nil_suffix, .inr ⟨rfl, fun q hq hpart => ?_⟩⟩
      rw [hpart.led.eq_of_suffix hled hq (List.suffix_append x p)] at hpart
      rw [hpart.2] at hfull
      cases hfull
    | false =>
      rw [if_neg (by simp), List.drop_left]
      obtain ⟨c, t, rfl, -⟩ := hled
      exact ⟨List.suffix_append x _, .inl ⟨by simp, hfull⟩⟩
  | none =>
    have hall : completeUTF8 b = b.length := by simp only [completeUTF8, hfind]
    rw [hall, List.drop_length]
    refine ⟨List.nil_suffix, .inr ⟨rfl, fun q hq hpart => ?_⟩⟩
    have hlen := hpart.length_le
    obtain ⟨c, t, rfl, hc, ht⟩ := hpart.led
    obtain ⟨x, rfl⟩ := hq
    rw [find_led hc ht (by rw [utfMax]; simp at hlen; omega)] at hfind
    cases hfind

end Lotse.RunOutput
