import Lotse.RunViewers

set_option autoImplicit false

namespace Lotse.TailBuffer

section loop

variable {α : Type*}

def copyRound (t : TailBuffer α) (p : List α) : TailBuffer α × List α :=
  let n := min (t.buf.length - t.start) p.length
  ({ t with
      dropped := true
      buf := t.buf.take t.start ++ p.take n ++ t.buf.drop (t.start + n)
      start := (t.start + n) % t.max }, p.drop n)

/-- The loop, or `none` if it has not ended after `fuel` rounds. -/
def copyLoop : ℕ → TailBuffer α → List α → Option (TailBuffer α)
  | _, t, [] => some t
  | 0, _, _ :: _ => none
  | fuel + 1, t, a :: p => copyLoop fuel (t.copyRound (a :: p)).1 (t.copyRound (a :: p)).2

def writeWithin (fuel : ℕ) (t : TailBuffer α) (p : List α) : Option (TailBuffer α) :=
  if t.max ≤ p.length then
    some { t with
      dropped := t.dropped || !t.buf.isEmpty || t.max < p.length
      buf := p.drop (p.length - t.max)
      start := 0 }
  else
    let n := min (t.max - t.buf.length) p.length
    copyLoop fuel { t with buf := t.buf ++ p.take n } (p.drop n)

variable {t : TailBuffer α} {p w : List α}

theorem copyLoop_eq {fuel : ℕ} (hwf : t.WellFormed) (hfull : t.buf.length = t.max)
    (hp : p.length ≤ fuel) : copyLoop fuel t p = some (overwrite fuel t p) := by
  induction fuel generalizing t p with
  | zero =>
    obtain rfl : p = [] := List.length_eq_zero_iff.1 (by omega)
    rfl
  | succ fuel ih =>
    cases p with
    | nil => rfl
    | cons a p =>
      have hstart := hwf.start_lt
      set n := min (t.buf.length - t.start) (a :: p).length with hn
      have hpos : 1 ≤ n := by
        rw [hn, List.length_cons]
        omega
      have hq : ((a :: p).take n).length = n := by
        rw [List.length_take]
        omega
      obtain ⟨hwf', hfull', -⟩ := copy_toList hwf hfull (by omega : n ≤ t.max - t.start) hq true
      have hrest : ((a :: p).drop n).length ≤ fuel := by
        rw [List.length_drop]
        omega
      exact ih hwf' hfull' hrest

theorem copyLoop_nil (fuel : ℕ) (t : TailBuffer α) : copyLoop fuel t [] = some t := by
  cases fuel <;> rfl

theorem overwrite_nil (fuel : ℕ) (t : TailBuffer α) : overwrite fuel t [] = t := by
  cases fuel <;> rfl

theorem Holds.writeWithin_eq (h : t.Holds w) (p : List α) :
    writeWithin p.length t p = some (t.write p) := by
  unfold writeWithin TailBuffer.write
  dsimp only
  split_ifs with hlong
  · rfl
  · set n := min (t.max - t.buf.length) p.length with hn
    obtain ⟨hwf, -, hfull⟩ := fill h hn
    by_cases hrest : p.drop n = []
    · rw [hrest, copyLoop_nil, overwrite_nil]
    · exact copyLoop_eq hwf (hfull hrest) (by rw [List.length_drop]; omega)

def written (max : ℕ) (ps : List (List α)) : TailBuffer α := ps.foldl TailBuffer.write (empty max)

theorem Holds.foldl (h : t.Holds w) (ps : List (List α)) :
    (ps.foldl TailBuffer.write t).Holds (w ++ ps.flatten) ∧
      (ps.foldl TailBuffer.write t).max = t.max := by
  induction ps generalizing t w with
  | nil => exact ⟨by simpa using h, rfl⟩
  | cons p ps ih =>
    obtain ⟨hholds, hmax⟩ := ih (h.write p)
    rw [List.append_assoc, ← List.flatten_cons] at hholds
    exact ⟨hholds, hmax.trans (write_max t p)⟩

theorem written_holds {max : ℕ} (h : 1 ≤ max) (ps : List (List α)) :
    (written max ps).Holds ps.flatten ∧ (written max ps).max = max :=
  (holds_empty h).foldl ps

end loop

open Utf8 RunOutput

inductive FromStart (out : Bytes) : Bytes → Prop where
  | start (cut : Bytes) (b : UInt8) (rest : Bytes) (split : out = cut ++ b :: rest)
      (among : cut.length < 4) (starts : runeStart b = true)
      (first : ∀ c ∈ cut, runeStart c = false) : FromStart out (b :: rest)
  | none (no : ∀ c ∈ out.take 4, runeStart c = false) : FromStart out out

theorem dropCut_fromStart (out : Bytes) : FromStart out (dropCut out) := by
  rcases dropCut_cases out with ⟨cut, b, rest, hsplit, hdrop, hb, hcut, hlen⟩ | ⟨hdrop, hno⟩
  · rw [hdrop]
    refine .start cut b rest hsplit hlen hb fun c hc => ?_
    simp [runeStart, hcut c hc]
  · rw [hdrop]
    refine .none fun c hc => ?_
    obtain ⟨i, hi, rfl⟩ := List.mem_iff_getElem.1 hc
    rw [List.length_take] at hi
    have hget : out[i]? = some (out.take 4)[i] := by
      rw [List.getElem_take, List.getElem?_eq_getElem]
    have hlt : i < utfMax := lt_of_lt_of_le hi (Nat.min_le_left ..)
    rw [runeStart, startsAt_false (hno i hlt) hget, Bool.not_true]

/-- For every limit and all writes: `Write` ends, the ring read from `start` is the end of the
stream, and `Bytes` is that end, from its first character on if anything was dropped. -/
theorem tail_is_end_of_stream (max : ℕ) (hmax : 1 ≤ max) (ps : List Bytes) :
    ((written max ps).buf.length < max → (written max ps).start = 0) ∧
      (written max ps).start < max ∧
      (∀ p, ∃ fuel, writeWithin fuel (written max ps) p = some (written max (ps ++ [p]))) ∧
      (written max ps).toList = ps.flatten.rtake max ∧
      (written max ps).toList.length = min ps.flatten.length max ∧
      ((written max ps).dropped = true ↔ max < ps.flatten.length) ∧
      ((written max ps).dropped = false → tailBytes (written max ps) = ps.flatten.rtake max) ∧
      ((written max ps).dropped = true →
        FromStart (ps.flatten.rtake max) (tailBytes (written max ps))) := by
  obtain ⟨hholds, hlimit⟩ := written_holds hmax ps
  have hlist := hholds.toList_eq
  have hdropped := hholds.dropped_iff
  rw [hlimit] at hlist hdropped
  refine ⟨?_, ?_, ?_, hlist, ?_, hdropped, ?_, ?_⟩
  · intro hshort
    exact hholds.wellFormed.unwrapped (by rwa [hlimit])
  · have hstart := hholds.wellFormed.start_lt
    rwa [hlimit] at hstart
  · intro p
    refine ⟨p.length, ?_⟩
    rw [hholds.writeWithin_eq, written, written, List.foldl_append, List.foldl_cons, List.foldl_nil]
  · rw [hlist, length_rtake, Nat.min_comm]
  · intro hnone
    rw [tailBytes, hnone, if_neg Bool.false_ne_true, hlist]
  · intro hsome
    rw [tailBytes, hsome, if_pos rfl, hlist]
    exact dropCut_fromStart _

/-- The bytes of `"xüabc"` in two writes, of which the second wraps around. -/
def cutCharacter : List Bytes := [[0x78, 0xC3, 0xBC], [0x61, 0x62, 0x63]]

theorem tail_is_end_of_stream_cut_character :
    (written 4 cutCharacter).toList = cutCharacter.flatten.rtake 4 ∧
      FromStart (cutCharacter.flatten.rtake 4) (tailBytes (written 4 cutCharacter)) ∧
      tailBytes (written 4 cutCharacter) = [0x61, 0x62, 0x63] := by
  have h := tail_is_end_of_stream 4 (by decide) cutCharacter
  exact ⟨h.2.2.2.1, h.2.2.2.2.2.2.2 (by decide), by decide⟩

end Lotse.TailBuffer
