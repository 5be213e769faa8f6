import Lotse.RunViewers

set_option autoImplicit false

namespace Lotse.RunOutput
open Utf8

/-- `cut` belongs to a character that starts at the end of `before`. -/
def CutOff (before cut : Bytes) : Prop :=
  ∃ u, u ≠ [] ∧ u <:+ before ∧ (IsChar (u ++ cut) ∨ Partial (u ++ cut))

/-- `out` is the end of `w`, less only continuation bytes of a character that the limit cut
off. -/
def KeepsEnd (w out : Bytes) : Prop := ∃ cut, w.rtake maxRunOutput = cut ++ out ∧
  (cut = [] ∨ (∀ c ∈ cut, isCont c = true) ∧ CutOff (w.rdrop maxRunOutput) cut)

/-- The stream does not end in the first bytes of a character. -/
def EndsWhole (w : Bytes) : Prop :=
  ∀ p, p <:+ w → p ≠ [] → ∀ q, q ≠ [] → ¬ IsChar (p ++ q)

/-- If the stream is longer than the limit, up to three continuation bytes at the limit, with a new
character right after them, belong to a character that starts before the limit. -/
def StartsInCharacter (w : Bytes) : Prop := maxRunOutput < w.length →
  ∀ cut b t, w.rtake maxRunOutput = cut ++ b :: t → cut ≠ [] → cut.length ≤ 3 →
    (∀ c ∈ cut, isCont c = true) → runeStart b = true → CutOff (w.rdrop maxRunOutput) cut

theorem endsWhole_iff {w : Bytes} : EndsWhole w ↔ Tail w [] := by
  constructor
  · intro h
    refine ⟨List.nil_suffix, .inr ⟨rfl, fun p hp hpart => ?_⟩⟩
    obtain ⟨hne, q, hq, hc⟩ := partial_iff.1 hpart
    exact h p hp hne q hq hc
  · rintro ⟨-, hpart | ⟨-, hnone⟩⟩ p hp hne q hq hc
    · exact hpart.1 rfl
    · exact hnone p hp (partial_iff.2 ⟨hne, q, hq, hc⟩)

theorem endsWhole_of_valid {w : Bytes} (h : Valid w) : EndsWhole w := endsWhole_iff.2 h.tail_nil

theorem cut_unique {cut cut' t t' : Bytes} {b b' : UInt8} (hcut : ∀ c ∈ cut, isCont c = true)
    (hb : runeStart b = true) (hcut' : ∀ c ∈ cut', isCont c = true) (hb' : runeStart b' = true)
    (h : cut ++ b :: t = cut' ++ b' :: t') : cut = cut' := by
  have htake := congrArg (List.takeWhile isCont) h
  rwa [List.takeWhile_append_of_pos hcut, List.takeWhile_append_of_pos hcut',
    List.takeWhile_cons_of_neg (by simpa using runeStart_iff.1 hb),
    List.takeWhile_cons_of_neg (by simpa using runeStart_iff.1 hb'), List.append_nil,
    List.append_nil] at htake

theorem cut_of_kept {w cut t : Bytes} {b : UInt8} (hlong : maxRunOutput < w.length)
    (hw : w.rtake maxRunOutput = cut ++ b :: t) (hlen : cut.length ≤ 3)
    (hcont : ∀ c ∈ cut, isCont c = true) (hb : runeStart b = true) : kept w = b :: t := by
  rw [kept, if_pos hlong]
  rcases dropCut_cases (w.rtake maxRunOutput) with
    ⟨cut', b', t', hout, hdrop, hb', hcont', -⟩ | ⟨-, hnone⟩
  · have heq := hw.symm.trans hout
    have hsame := cut_unique hcont hb hcont' hb' heq
    rw [hsame] at heq
    rw [hdrop, List.append_cancel_left heq]
  · have hstart : startsAt (w.rtake maxRunOutput) cut.length = true := by
      rw [hw, startsAt, List.getD_append_right _ _ _ _ le_rfl, Nat.sub_self, List.getD_cons_zero, hb]
      simp
    rw [hnone cut.length (by rw [utfMax]; omega)] at hstart
    cases hstart

theorem keepsEnd_kept_iff {w : Bytes} : KeepsEnd w (kept w) ↔ StartsInCharacter w := by
  constructor
  · rintro ⟨cut', hcut', hkeeps⟩ hlong cut b t hcut hne hlen hcont hb
    rw [cut_of_kept hlong hcut hlen hcont hb, hcut] at hcut'
    obtain rfl := List.append_cancel_right hcut'
    exact (hkeeps.resolve_left hne).2
  · intro h
    obtain ⟨cut, hcut, hcont, hlen, hstart⟩ := rtake_eq_cut_kept w
    refine ⟨cut, hcut, ?_⟩
    by_cases hnil : cut = []
    · exact .inl hnil
    · obtain ⟨hlong, b, t, hkept, hb⟩ := hstart hnil
      refine .inr ⟨hcont, h hlong cut b t (hkept ▸ hcut) hnil ?_ hcont hb⟩
      rw [utfMax] at hlen
      omega

/-- Bytes that are held back are missing at the end: they start a character, and what is missing
at the beginning does not. -/
theorem held_eq_nil {w out held : Bytes} (htail : Tail w held) (hout : out ++ held = kept w)
    (h : KeepsEnd w out) : held = [] := by
  rcases htail.2 with hpart | ⟨hnil, -⟩
  swap
  · exact hnil
  obtain ⟨b, t, rfl, hb, -⟩ := hpart.led
  obtain ⟨cut, hcut, hkeeps⟩ := h
  obtain ⟨cut', hcut', -⟩ := rtake_eq_cut_kept w
  rw [← hout, hcut] at hcut'
  have hstarts := congrArg (List.countP runeStart) hcut'
  have hnone : cut.countP runeStart = 0 := by
    refine List.countP_eq_zero.2 fun c hc => ?_
    rcases hkeeps with rfl | ⟨hcont, -⟩
    · cases hc
    · simp [runeStart, hcont c hc]
  rw [List.countP_append, List.countP_append, List.countP_append, List.countP_cons_of_pos hb] at hstarts
  omega

theorem stored_output {systems : List ℤ} {ops : List Op} {g : State} {out : List RunTarget}
    (run : Runs.exec step (newRun systems) ops = some g) (hstored : g.stored = some out) {i : ℕ}
    {s : Slot} (hs : g.slots[i]? = some s) :
    ∃ t, out[i]? = some t ∧ t.output ++ s.held = kept s.written := by
  have hg := inv_run run
  have hslot := hg.slots s (List.mem_of_getElem? hs)
  obtain rfl := hg.stored out hstored
  refine ⟨s.snapshot, ?_, ?_⟩
  · rw [snapshot, List.getElem?_map, hs]
    rfl
  · rw [hslot.snapshot_output]
    exact visible_append hslot.tail

/-- The stored output keeps the end of the stream exactly if the stream does not end inside a
character, and what the limit cuts off belongs to one. -/
theorem stored_output_keeps_end {systems : List ℤ} {ops : List Op} {g : State}
    {out : List RunTarget} (run : Runs.exec step (newRun systems) ops = some g)
    (hstored : g.stored = some out) {i : ℕ} {s : Slot} (hs : g.slots[i]? = some s) :
    ∃ t, out[i]? = some t ∧
      (KeepsEnd s.written t.output ↔ EndsWhole s.written ∧ StartsInCharacter s.written) := by
  obtain ⟨t, ht, happend⟩ := stored_output run hstored hs
  have htail := ((inv_run run).slots s (List.mem_of_getElem? hs)).tail
  refine ⟨t, ht, ?_⟩
  constructor
  · intro hkeeps
    have hheld := held_eq_nil htail happend hkeeps
    rw [hheld, List.append_nil] at happend
    rw [happend] at hkeeps
    exact ⟨endsWhole_iff.2 (hheld ▸ htail), keepsEnd_kept_iff.1 hkeeps⟩
  · rintro ⟨hend, hstart⟩
    have hheld : s.held = [] := htail.unique (endsWhole_iff.1 hend)
    rw [hheld, List.append_nil] at happend
    rw [happend]
    exact keepsEnd_kept_iff.2 hstart

theorem stored_a : ∃ g out s t, Runs.exec step (newRun [7]) [.write 0 [0x61], .finish] = some g ∧
    g.stored = some out ∧ g.slots[0]? = some s ∧ s.written = [0x61] ∧ out[0]? = some t ∧
    KeepsEnd s.written t.output := by
  have hfinal : (Runs.exec step (newRun [7]) [.write 0 [0x61], .finish]).map (fun g =>
      (g.stored.isSome, g.slots.map (·.written))) = some (true, [[0x61]]) := by
    decide +kernel
  obtain ⟨g, hg, hview⟩ := Option.map_eq_some_iff.1 hfinal
  obtain ⟨hsome, hslots⟩ := Prod.mk.inj hview
  obtain ⟨out, hout⟩ := Option.isSome_iff_exists.1 hsome
  obtain ⟨s, hs, hwritten⟩ := List.map_eq_singleton_iff.1 hslots
  have hs0 : g.slots[0]? = some s := by simp [hs]
  have hvalid : Valid s.written := by
    rw [hwritten]
    exact .cons (c := [0x61]) (by decide : (0x61 : UInt8).toNat < 0x80) .nil
  have hstart : StartsInCharacter s.written := by
    intro hlong
    rw [hwritten] at hlong
    exact absurd hlong (by decide)
  obtain ⟨t, ht, hkeeps⟩ := stored_output_keeps_end hg hout hs0
  exact ⟨g, out, s, t, hg, hout, hs0, hwritten, ht,
    hkeeps.2 ⟨endsWhole_of_valid hvalid, hstart⟩⟩

/-- A target that writes "a" and is killed inside "€": the two bytes are not stored. -/
theorem stored_output_misses_end : ∃ g out s t,
    Runs.exec step (newRun [7]) [.write 0 [0x61, 0xE2, 0x82], .finish] = some g ∧
    g.stored = some out ∧ g.slots[0]? = some s ∧ s.written = [0x61, 0xE2, 0x82] ∧
    out[0]? = some t ∧ t.output = [0x61] ∧ ¬ KeepsEnd s.written t.output := by
  have hfinal : (Runs.exec step (newRun [7]) [.write 0 [0x61, 0xE2, 0x82], .finish]).map (fun g =>
      (g.stored.map (·.map (·.output)), g.slots.map (·.written))) =
      some (some [[0x61]], [[0x61, 0xE2, 0x82]]) := by
    decide +kernel
  obtain ⟨g, hg, hview⟩ := Option.map_eq_some_iff.1 hfinal
  obtain ⟨hstored, hslots⟩ := Prod.mk.inj hview
  obtain ⟨out, hout, houtputs⟩ := Option.map_eq_some_iff.1 hstored
  obtain ⟨t, ht, houtput⟩ := List.map_eq_singleton_iff.1 houtputs
  obtain ⟨s, hs, hwritten⟩ := List.map_eq_singleton_iff.1 hslots
  refine ⟨g, out, s, t, hg, hout, by simp [hs], hwritten, by simp [ht], houtput, ?_⟩
  rintro ⟨cut, hcut, -⟩
  rw [hwritten, houtput, rtake_of_length_le (by decide)] at hcut
  have hlast := congrArg List.getLast? hcut
  rw [List.getLast?_append] at hlast
  simp at hlast

end Lotse.RunOutput
