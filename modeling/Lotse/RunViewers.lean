import Lotse.RunOutput

set_option autoImplicit false

namespace Lotse.RunOutput
open Utf8

def kept (w : Bytes) : Bytes :=
  if maxRunOutput < w.length then dropCut (w.rtake maxRunOutput) else w

def visible (w h : Bytes) : Bytes := (kept w).take ((kept w).length - min (kept w).length h.length)

theorem tailBytes_eq {t : TailBuffer UInt8} {w : Bytes} (h : t.Holds w)
    (hmax : t.max = maxRunOutput) : tailBytes t = kept w := by
  have hdropped := h.dropped_iff
  rw [tailBytes, kept, h.toList_eq, hmax]
  rw [hmax] at hdropped
  by_cases hlong : maxRunOutput < w.length
  · rw [if_pos (hdropped.2 hlong), if_pos hlong]
  · rw [if_neg (fun hd => hlong (hdropped.1 hd)), if_neg hlong, rtake_of_length_le (by omega)]

theorem startsAt_false {out : Bytes} {i : ℕ} (h : startsAt out i = false) {c : UInt8}
    (hc : out[i]? = some c) : isCont c = true := by
  obtain ⟨hi, rfl⟩ := List.getElem?_eq_some_iff.1 hc
  rw [startsAt, List.getD_eq_getElem _ _ hi] at h
  simpa [hi, runeStart] using h

theorem dropCut_cases (out : Bytes) :
    (∃ cut b t, out = cut ++ b :: t ∧ dropCut out = b :: t ∧ runeStart b = true ∧
      (∀ c ∈ cut, isCont c = true) ∧ cut.length < utfMax) ∨
    dropCut out = out ∧ ∀ i < utfMax, startsAt out i = false := by
  rw [dropCut]
  cases hfind : (List.range utfMax).find? (startsAt out) with
  | none =>
    right
    refine ⟨rfl, fun i hi => ?_⟩
    have := List.find?_eq_none.1 hfind i (List.mem_range.2 hi)
    simpa using this
  | some i =>
    left
    obtain ⟨hi, hmem, hmin⟩ := List.find?_range_eq_some.1 hfind
    have hlt : i < out.length := by
      simp only [startsAt, Bool.and_eq_true, decide_eq_true_eq] at hi
      exact hi.1
    have hstart : runeStart out[i] = true := by
      rw [startsAt, List.getD_eq_getElem _ _ hlt] at hi
      simpa [hlt] using hi
    have hcut : out.drop i = out[i] :: out.drop (i + 1) := List.drop_eq_getElem_cons hlt
    refine ⟨out.take i, out[i], out.drop (i + 1), ?_, hcut, hstart, fun c hc => ?_, ?_⟩
    · rw [← hcut, List.take_append_drop]
    · obtain ⟨k, hk, rfl⟩ := List.mem_iff_getElem.1 hc
      rw [List.length_take] at hk
      rw [List.getElem_take]
      refine startsAt_false (i := k) ?_ (List.getElem?_eq_getElem (by omega))
      simpa using hmin k (by omega)
    · rw [List.length_take]
      have := List.mem_range.1 hmem
      omega

section kept
variable {w h : Bytes}

theorem kept_short (hw : w.length ≤ maxRunOutput) : kept w = w := if_neg (by omega)

theorem rtake_eq_cut_kept (w : Bytes) : ∃ cut, w.rtake maxRunOutput = cut ++ kept w ∧
    (∀ c ∈ cut, isCont c = true) ∧ cut.length < utfMax ∧
    (cut ≠ [] → maxRunOutput < w.length ∧ ∃ b t, kept w = b :: t ∧ runeStart b = true) := by
  rcases Nat.lt_or_ge maxRunOutput w.length with hlong | hshort
  · rw [kept, if_pos hlong]
    rcases dropCut_cases (w.rtake maxRunOutput) with
      ⟨cut, b, t, hout, hdrop, hb, hcont, hlen⟩ | ⟨hdrop, -⟩
    · exact ⟨cut, by rw [hdrop, hout], hcont, hlen, fun _ => ⟨hlong, b, t, hdrop, hb⟩⟩
    · exact ⟨[], by rw [hdrop, List.nil_append], by simp, by simp [utfMax], by simp⟩
  · rw [kept_short hshort, rtake_of_length_le hshort]
    exact ⟨[], rfl, by simp, by simp [utfMax], by simp⟩

theorem kept_suffix (w : Bytes) : kept w <:+ w := by
  obtain ⟨cut, hcut, -⟩ := rtake_eq_cut_kept w
  exact (hcut ▸ List.suffix_append cut (kept w)).trans (rtake_suffix w maxRunOutput)

theorem le_length_kept (w : Bytes) : min w.length 3 ≤ (kept w).length := by
  obtain ⟨cut, hcut, -, hlen, -⟩ := rtake_eq_cut_kept w
  have hlength := congrArg List.length hcut
  rw [length_rtake, List.length_append] at hlength
  rcases Nat.lt_or_ge maxRunOutput w.length with hlong | hshort
  · simp only [maxRunOutput, utfMax] at *
    omega
  · rw [kept_short hshort]
    omega

theorem held_suffix_kept (ht : Tail w h) : h <:+ kept w := by
  refine List.suffix_of_suffix_length_le ht.1 (kept_suffix w) ?_
  have hlen := ht.length_le
  have hle := ht.1.length_le
  have hkept := le_length_kept w
  omega

theorem visible_append (ht : Tail w h) : visible w h ++ h = kept w := by
  obtain ⟨x, hx⟩ := held_suffix_kept ht
  rw [visible, ← hx, List.length_append, Nat.min_eq_right (by omega), Nat.add_sub_cancel,
    List.take_left]

theorem visible_suffix {x : Bytes} (ht : Tail (x ++ h) h) : visible (x ++ h) h <:+ x := by
  obtain ⟨y, hy⟩ := kept_suffix (x ++ h)
  rw [← visible_append ht, ← List.append_assoc] at hy
  exact ⟨y, List.append_cancel_right hy⟩

theorem visible_eq {x : Bytes} (ht : Tail (x ++ h) h) (hlen : (x ++ h).length ≤ maxRunOutput) :
    visible (x ++ h) h = x := by
  have happend := visible_append ht
  rw [kept_short hlen] at happend
  exact List.append_cancel_right happend

theorem kept_valid {r : Bytes} (hv : Valid (w ++ r)) : Valid (kept w ++ r) := by
  rcases Nat.lt_or_ge maxRunOutput w.length with hlong | hshort
  · obtain ⟨x, hx⟩ := rtake_suffix w maxRunOutput
    rw [← hx, List.append_assoc] at hv
    rw [kept, if_pos hlong]
    rcases dropCut_cases (w.rtake maxRunOutput) with
      ⟨cut, b, t, hout, hdrop, hb, -⟩ | ⟨-, hnone⟩
    · rw [hdrop]
      rw [hout, List.append_assoc, ← List.append_assoc x] at hv
      exact hv.of_start hb
    · have hlen : (w.rtake maxRunOutput).length = maxRunOutput := by
        rw [length_rtake]
        omega
      have hfour : 4 ≤ maxRunOutput := by decide
      obtain ⟨i, hi, b, hb, hstart⟩ := hv.exists_start (by rw [List.length_append]; omega)
      rw [List.getElem?_append_left (by omega)] at hb
      have hcont := startsAt_false (hnone i hi) hb
      rw [runeStart_iff.1 hstart] at hcont
      cases hcont
  · rwa [kept_short hshort]

theorem visible_valid {r : Bytes} (hv : Valid (w ++ r)) (ht : Tail w h) : Valid (visible w h) := by
  obtain ⟨v, p, hkept, hvalid, htail⟩ := (kept_valid hv).tail_of_cut
  have hp : p = h := by
    refine htail.unique ⟨held_suffix_kept ht, ?_⟩
    rcases ht.2 with hpart | ⟨hnil, hnone⟩
    · exact .inl hpart
    · exact .inr ⟨hnil, fun q hq => hnone q (hq.trans (kept_suffix w))⟩
  subst hp
  have happend := visible_append ht
  rw [hkept] at happend
  rwa [List.append_cancel_right happend]

end kept

def Slot.shown (s : Slot) : Bytes := s.written.take (s.written.length - s.held.length)

structure SlotOk (s : Slot) : Prop where
  holds : s.output.Holds s.written
  max_eq : s.output.max = maxRunOutput
  tail : Tail s.written s.held

namespace SlotOk
variable {s : Slot}

theorem split (h : SlotOk s) : s.written = s.shown ++ s.held := by
  obtain ⟨x, hx⟩ := h.tail.1
  rw [Slot.shown, ← hx, List.length_append, Nat.add_sub_cancel, List.take_left]

theorem snapshot_output (h : SlotOk s) : s.snapshot.output = visible s.written s.held := by
  simp only [Slot.snapshot, visible, tailBytes_eq h.holds h.max_eq]

theorem write (h : SlotOk s) (p : Bytes) : SlotOk (s.write p) where
  holds := h.holds.write p
  max_eq := by
    rw [Slot.write, TailBuffer.write_max]
    exact h.max_eq
  tail := h.tail.append (completeUTF8_tail (s.live p))

theorem shown_write (h : SlotOk s) (p : Bytes) :
    (s.write p).shown = s.shown ++ (s.live p).take (completeUTF8 (s.live p)) := by
  have hsplit := (h.write p).split
  have hlive : s.written ++ p = s.shown ++ s.live p := by
    rw [h.split, List.append_assoc, Slot.live]
  have hcut : s.shown ++ s.live p =
      (s.shown ++ (s.live p).take (completeUTF8 (s.live p))) ++ (s.write p).held := by
    rw [List.append_assoc]
    simp only [Slot.write, List.take_append_drop]
  exact List.append_cancel_right (hsplit.symm.trans (hlive.trans hcut))

end SlotOk

theorem slotOk_new (systemID : ℤ) : SlotOk (newSlot systemID) where
  holds := TailBuffer.holds_empty (by decide)
  max_eq := rfl
  tail := Valid.nil.tail_nil

/-- `d` is what came to be shown between two moments of a stream that has reached `w`. -/
def Piece (w d : Bytes) : Prop := ∃ x p q, x ++ p <+: w ∧ Tail (x ++ p) p ∧
  x ++ d ++ q <+: w ∧ Tail (x ++ d ++ q) q

/-- `o` is a snapshot's output from some moment of a stream that has reached `w`. -/
def Shot (w o : Bytes) : Prop := ∃ u h, u <+: w ∧ Tail u h ∧ o = visible u h

theorem Piece.mono {w w' d : Bytes} (h : Piece w d) (hw : w <+: w') : Piece w' d := by
  obtain ⟨x, p, q, hx, hp, hd, hq⟩ := h
  exact ⟨x, p, q, hx.trans hw, hp, hd.trans hw, hq⟩

theorem Shot.mono {w w' o : Bytes} (h : Shot w o) (hw : w <+: w') : Shot w' o := by
  obtain ⟨u, p, hu, hp, ho⟩ := h
  exact ⟨u, p, hu.trans hw, hp, ho⟩

theorem valid_shown {x p r : Bytes} (hv : Valid (x ++ p ++ r)) (ht : Tail (x ++ p) p) :
    Valid x := by
  obtain ⟨v, q, hxp, hvalid, htail⟩ := hv.tail_of_cut
  obtain rfl := ht.unique htail
  rwa [List.append_cancel_right hxp]

theorem Piece.valid {w d : Bytes} (h : Piece w d) (hv : Valid w) : Valid d := by
  obtain ⟨x, p, q, ⟨r, hr⟩, hp, ⟨r', hr'⟩, hq⟩ := h
  have hx : Valid x := valid_shown (hr ▸ hv) hp
  have hxd : Valid (x ++ d) := valid_shown (hr' ▸ hv) hq
  exact hx.tail_of_append hxd

theorem Shot.valid {w o : Bytes} (h : Shot w o) (hv : Valid w) : Valid o := by
  obtain ⟨u, p, ⟨r, hr⟩, hp, rfl⟩ := h
  exact visible_valid (hr ▸ hv) hp

/-- What a viewer has of a target: the snapshot `t`, taken after `n` bytes, and the data of
the events since. -/
structure Seen (s : Slot) (t : RunTarget) (n : ℕ) (subscribed : Bool) (data : List Bytes) :
    Prop where
  suffix : subscribed = true → t.output ++ data.flatten <:+ s.shown
  all : subscribed = true → n ≤ maxRunOutput → t.output ++ data.flatten = s.shown
  pieces : ∀ d ∈ data, Piece s.written d
  shot : Shot s.written t.output

namespace Seen
variable {s : Slot} {t : RunTarget} {n : ℕ} {subscribed : Bool} {data : List Bytes}

theorem start (h : SlotOk s) (subscribed : Bool) :
    Seen s s.snapshot s.written.length subscribed [] := by
  have htail := h.tail
  have hsplit := h.split
  refine ⟨fun _ => ?_, fun _ hn => ?_, by simp, ?_⟩
  · rw [List.flatten_nil, List.append_nil, h.snapshot_output, hsplit]
    exact visible_suffix (hsplit ▸ htail)
  · rw [List.flatten_nil, List.append_nil, h.snapshot_output, hsplit]
    exact visible_eq (hsplit ▸ htail) (hsplit ▸ hn)
  · exact ⟨s.written, s.held, List.prefix_rfl, htail, h.snapshot_output⟩

theorem write (h : Seen s t n subscribed data) (hs : SlotOk s) (p : Bytes) {more : List Bytes}
    (hmore : more = [] ∨ more = [(s.live p).take (completeUTF8 (s.live p))])
    (hflat : subscribed = true → more.flatten = (s.live p).take (completeUTF8 (s.live p))) :
    Seen (s.write p) t n subscribed (data ++ more) := by
  have hprefix : s.written <+: (s.write p).written := List.prefix_append _ _
  refine ⟨fun hsub => ?_, fun hsub hn => ?_, fun d hd => ?_, h.shot.mono hprefix⟩
  · rw [hs.shown_write, List.flatten_append, hflat hsub, ← List.append_assoc]
    obtain ⟨x, hx⟩ := h.suffix hsub
    exact ⟨x, by rw [← hx, List.append_assoc x]⟩
  · rw [hs.shown_write, List.flatten_append, hflat hsub, ← List.append_assoc, h.all hsub hn]
  · rcases List.mem_append.1 hd with hd | hd
    · exact (h.pieces d hd).mono hprefix
    · rcases hmore with rfl | rfl
      · exact absurd hd List.not_mem_nil
      · obtain rfl := List.mem_singleton.1 hd
        have hsplit := (hs.write p).split
        rw [hs.shown_write] at hsplit
        refine ⟨s.shown, s.held, (s.write p).held, ?_, ?_, ?_, ?_⟩
        · rwa [← hs.split]
        · rw [← hs.split]
          exact hs.tail
        · rw [← hsplit]
        · rw [← hsplit]
          exact (hs.write p).tail

theorem unsubscribe (h : Seen s t n subscribed data) : Seen s t n false data :=
  ⟨fun hsub => (by cases hsub), fun hsub => (by cases hsub), h.pieces, h.shot⟩

theorem congr {s' : Slot} (h : Seen s t n subscribed data) (hw : s'.written = s.written)
    (hh : s'.held = s.held) : Seen s' t n subscribed data := by
  have hshown : s'.shown = s.shown := by rw [Slot.shown, Slot.shown, hw, hh]
  exact ⟨by rw [hshown]; exact h.suffix, by rw [hshown]; exact h.all, by rw [hw]; exact h.pieces,
    by rw [hw]; exact h.shot⟩

end Seen

theorem dataOf_append (id : ℤ) (es fs : List RunEvent) :
    dataOf id (es ++ fs) = dataOf id es ++ dataOf id fs := by
  induction es with
  | nil => rfl
  | cons e es ih =>
    cases e with
    | output id' data =>
      simp only [List.cons_append, dataOf]
      split_ifs
      · rw [ih, List.cons_append]
      · exact ih
    | target t => exact ih
    | done => exact ih

theorem dataOf_output (id systemID : ℤ) (d : Bytes) :
    dataOf id [.output systemID d] = if id = systemID then [d] else [] := by
  simp [dataOf, eq_comm]

def Viewed (slots : List Slot) (v : Viewer) : Prop := ∀ (i : ℕ) (s : Slot), slots[i]? = some s →
  ∃ t n, v.snapshot[i]? = some t ∧ v.sizes[i]? = some n ∧
    Seen s t n v.subscribed (dataOf s.target.systemID v.events)

structure Inv (g : State) : Prop where
  systems : (g.slots.map (·.target.systemID)).Nodup
  slots : ∀ s ∈ g.slots, SlotOk s
  viewers : ∀ v ∈ g.viewers, Viewed g.slots v
  stored : ∀ out ∈ g.stored, out = snapshot g

theorem inv_newRun (systems : List ℤ) : Inv (newRun systems) where
  systems := by
    have hmap : (newRun systems).slots.map (·.target.systemID) =
        (systems.insertionSort (· ≤ ·)).dedup := by
      simp [newRun, List.map_map, Function.comp_def, newSlot]
    rw [hmap]
    exact List.nodup_dedup _
  slots s hs := by
    obtain ⟨id, -, rfl⟩ := List.mem_map.1 hs
    exact slotOk_new id
  viewers v hv := absurd hv List.not_mem_nil
  stored out hout := by cases hout

theorem send_subscribed (ev : RunEvent) (v : Viewer) : (v.send ev).subscribed = v.subscribed := by
  rw [Viewer.send]
  split_ifs <;> rfl

theorem send_snapshot (ev : RunEvent) (v : Viewer) :
    (v.send ev).snapshot = v.snapshot ∧ (v.send ev).sizes = v.sizes := by
  rw [Viewer.send]
  split_ifs <;> exact ⟨rfl, rfl⟩

theorem dataOf_send (ev : RunEvent) (v : Viewer) (id : ℤ) : dataOf id (v.send ev).events =
    dataOf id v.events ++ if v.subscribed then dataOf id [ev] else [] := by
  rw [Viewer.send]
  split_ifs
  · exact dataOf_append id v.events [ev]
  · simp

theorem Viewed.send {slots : List Slot} {v : Viewer} (h : Viewed slots v) {ev : RunEvent}
    (hev : ∀ id, dataOf id [ev] = []) : Viewed slots (v.send ev) := by
  intro i s hs
  obtain ⟨t, n, ht, hn, hseen⟩ := h i s hs
  obtain ⟨hsnapshot, hsizes⟩ := send_snapshot ev v
  refine ⟨t, n, by rw [hsnapshot, ht], by rw [hsizes, hn], ?_⟩
  rw [send_subscribed, dataOf_send, hev, ite_self, List.append_nil]
  exact hseen

theorem Viewed.unsubscribe {slots : List Slot} {v : Viewer} (h : Viewed slots v) :
    Viewed slots { v with subscribed := false } := by
  intro i s hs
  obtain ⟨t, n, ht, hn, hseen⟩ := h i s hs
  exact ⟨t, n, ht, hn, hseen.unsubscribe⟩

theorem Viewed.write {g : State} (hg : Inv g) {v v' : Viewer} (h : Viewed g.slots v) {i : ℕ}
    {s : Slot} (hs : g.slots[i]? = some s) (p : Bytes) (hsnapshot : v'.snapshot = v.snapshot)
    (hsizes : v'.sizes = v.sizes) (hsub : v'.subscribed = v.subscribed) (more : List Bytes)
    (hmore : more = [] ∨ more = [(s.live p).take (completeUTF8 (s.live p))])
    (hflat : v.subscribed = true → more.flatten = (s.live p).take (completeUTF8 (s.live p)))
    (hdata : ∀ id, dataOf id v'.events =
      dataOf id v.events ++ if id = s.target.systemID then more else []) :
    Viewed (g.slots.set i (s.write p)) v' := by
  intro j u hu
  obtain ⟨hi, -⟩ := List.getElem?_eq_some_iff.1 hs
  by_cases hij : i = j
  · subst hij
    rw [List.getElem?_set_self hi] at hu
    cases hu
    obtain ⟨t, n, ht, hn, hseen⟩ := h i s hs
    refine ⟨t, n, by rw [hsnapshot, ht], by rw [hsizes, hn], ?_⟩
    have hid : (s.write p).target.systemID = s.target.systemID := rfl
    rw [hsub, hid, hdata, if_pos rfl]
    exact hseen.write (hg.slots s (List.mem_of_getElem? hs)) p hmore hflat
  · rw [List.getElem?_set_ne hij] at hu
    obtain ⟨t, n, ht, hn, hseen⟩ := h j u hu
    have hne : u.target.systemID ≠ s.target.systemID := by
      intro heq
      have hju := congrArg (Option.map (·.target.systemID)) hu
      have his := congrArg (Option.map (·.target.systemID)) hs
      rw [← List.getElem?_map] at hju his
      refine hij ((List.getElem?_inj (by simpa using hi) hg.systems).1 ?_)
      rw [his, hju, Option.map_some, Option.map_some, heq]
    refine ⟨t, n, by rw [hsnapshot, ht], by rw [hsizes, hn], ?_⟩
    rw [hsub, hdata, if_neg hne, List.append_nil]
    exact hseen

theorem systems_set {slots : List Slot} {i : ℕ} {s s' : Slot} (hs : slots[i]? = some s)
    (hid : s'.target.systemID = s.target.systemID) :
    (slots.set i s').map (·.target.systemID) = slots.map (·.target.systemID) := by
  rw [List.map_set, hid]
  have hsame : (slots.map (·.target.systemID))[i]? = some s.target.systemID := by
    rw [List.getElem?_map, hs]
    rfl
  obtain ⟨hi, hget⟩ := List.getElem?_eq_some_iff.1 hsame
  rw [← hget]
  exact List.set_getElem_self hi

theorem slots_set {slots : List Slot} (h : ∀ s ∈ slots, SlotOk s) {i : ℕ} {s' : Slot}
    (hs' : SlotOk s') : ∀ s ∈ slots.set i s', SlotOk s := by
  intro s hs
  rcases List.mem_or_eq_of_mem_set hs with hs | rfl
  · exact h s hs
  · exact hs'

theorem inv_write {g : State} (hg : Inv g) (hopen : g.stored = none) {i : ℕ} {s : Slot}
    (hs : g.slots[i]? = some s) (p : Bytes) : Inv (write g i s p) := by
  have hslot := hg.slots s (List.mem_of_getElem? hs)
  have hsystems : ((g.slots.set i (s.write p)).map (·.target.systemID)).Nodup := by
    rw [systems_set hs]
    · exact hg.systems
    · rfl
  have hslots := slots_set (i := i) hg.slots (hslot.write p)
  rw [write]
  simp only
  split_ifs with hsend
  · refine ⟨hsystems, hslots, fun v' hv' => ?_, fun out hout => ?_⟩
    · obtain ⟨v, hv, rfl⟩ := List.mem_map.1 hv'
      obtain ⟨hsnapshot, hsizes⟩ := send_snapshot
        (.output s.target.systemID ((s.live p).take (completeUTF8 (s.live p)))) v
      refine Viewed.write hg (hg.viewers v hv) hs p hsnapshot hsizes (send_subscribed _ v)
        (if v.subscribed then [(s.live p).take (completeUTF8 (s.live p))] else []) ?_
        (fun hsub => by simp [hsub]) fun id => ?_
      · split_ifs
        · exact .inr rfl
        · exact .inl rfl
      · rw [dataOf_send, dataOf_output]
        by_cases hsub : v.subscribed <;> by_cases hid : id = s.target.systemID <;> simp [hsub, hid]
    · change out ∈ g.stored at hout
      rw [hopen] at hout
      cases hout
  · refine ⟨hsystems, hslots, fun v hv => ?_, fun out hout => ?_⟩
    · refine Viewed.write hg (hg.viewers v hv) hs p rfl rfl rfl [] (.inl rfl)
        (fun hsub => ?_) fun id => by simp
      have hany : g.viewers.any (·.subscribed) = true := List.any_eq_true.2 ⟨v, hv, hsub⟩
      have hzero : completeUTF8 (s.live p) = 0 := by
        simpa [hany] using hsend
      rw [hzero, List.take_zero, List.flatten_nil]
    · change out ∈ g.stored at hout
      rw [hopen] at hout
      cases hout

theorem inv_update {g : State} (hg : Inv g) (hopen : g.stored = none) {i : ℕ} {s : Slot}
    (hs : g.slots[i]? = some s) (status : Status) (error : String) (exitCode : Option ℤ) :
    Inv (update g i s status error exitCode) := by
  obtain ⟨hi, -⟩ := List.getElem?_eq_some_iff.1 hs
  have hslot := hg.slots s (List.mem_of_getElem? hs)
  refine ⟨?_, slots_set hg.slots ⟨hslot.holds, hslot.max_eq, hslot.tail⟩, fun v' hv' => ?_,
    fun out hout => ?_⟩
  · change ((g.slots.set i _).map (·.target.systemID)).Nodup
    rw [systems_set hs]
    · exact hg.systems
    · rfl
  · obtain ⟨v, hv, rfl⟩ := List.mem_map.1 hv'
    refine Viewed.send (fun j u hu => ?_) fun id => rfl
    by_cases hij : i = j
    · subst hij
      change (g.slots.set i _)[i]? = some u at hu
      rw [List.getElem?_set_self hi] at hu
      cases hu
      obtain ⟨t, n, ht, hn, hseen⟩ := hg.viewers v hv i s hs
      exact ⟨t, n, ht, hn, hseen.congr rfl rfl⟩
    · change (g.slots.set i _)[j]? = some u at hu
      rw [List.getElem?_set_ne hij] at hu
      exact hg.viewers v hv j u hu
  · change out ∈ g.stored at hout
    rw [hopen] at hout
    cases hout

theorem inv_subscribe {g : State} (hg : Inv g) : Inv (subscribe g) where
  systems := hg.systems
  slots := hg.slots
  stored := hg.stored
  viewers v hv := by
    rcases List.mem_append.1 hv with hv | hv
    · exact hg.viewers v hv
    · obtain rfl := List.mem_singleton.1 hv
      intro i s hs
      change g.slots[i]? = some s at hs
      refine ⟨s.snapshot, s.written.length, ?_, ?_,
        Seen.start (hg.slots s (List.mem_of_getElem? hs)) _⟩
      · rw [snapshot, List.getElem?_map, hs]
        rfl
      · rw [List.getElem?_map, hs]
        rfl

theorem inv_unsubscribe {g : State} (hg : Inv g) (i : ℕ) :
    Inv { g with viewers := g.viewers.modify i ({ · with subscribed := false }) } where
  systems := hg.systems
  slots := hg.slots
  stored := hg.stored
  viewers v' hv' := by
    obtain ⟨j, hj, rfl⟩ := List.mem_iff_getElem.1 hv'
    have hv := hg.viewers _ (List.getElem_mem (l := g.viewers) (n := j) (by simpa using hj))
    rw [List.getElem_modify]
    split_ifs
    · exact hv.unsubscribe
    · exact hv

theorem inv_close {g : State} (hg : Inv g) : Inv (close g) where
  systems := hg.systems
  slots := hg.slots
  stored := hg.stored
  viewers v' hv' := by
    obtain ⟨u, hu, rfl⟩ := List.mem_map.1 hv'
    obtain ⟨v, hv, rfl⟩ := List.mem_map.1 hu
    exact ((hg.viewers v hv).send fun id => rfl).unsubscribe

theorem inv_step {g g' : State} {op : Op} (hg : Inv g) (h : step g op = some g') : Inv g' := by
  cases op with
  | write i p =>
    simp only [step, Option.ite_none_left_eq_some, Option.map_eq_some_iff] at h
    obtain ⟨hopen, s, hs, rfl⟩ := h
    exact inv_write hg (by simpa using hopen) hs p
  | update i status error exitCode =>
    simp only [step, Option.ite_none_left_eq_some, Option.map_eq_some_iff] at h
    obtain ⟨hopen, s, hs, rfl⟩ := h
    exact inv_update hg (by simpa using hopen) hs status error exitCode
  | subscribe =>
    cases h
    exact inv_subscribe hg
  | unsubscribe v =>
    cases h
    exact inv_unsubscribe hg v
  | finish =>
    simp only [step, Option.ite_none_left_eq_some, Option.some.injEq] at h
    obtain ⟨-, rfl⟩ := h
    refine ⟨hg.systems, hg.slots, hg.viewers, fun out hout => ?_⟩
    cases hout
    rfl
  | close =>
    simp only [step, Option.ite_none_right_eq_some, Option.some.injEq] at h
    obtain ⟨-, rfl⟩ := h
    exact inv_close hg

theorem inv_run {systems : List ℤ} {ops : List Op} {g : State}
    (run : Runs.exec step (newRun systems) ops = some g) : Inv g :=
  Runs.exec_invariant (fun _ _ _ hs ht => inv_step hs ht) (inv_newRun systems) run

/-- A viewer's snapshot and the output events after it are the end of everything that is
not held back, and all of it if nothing had been dropped by the time of the snapshot. At
most three bytes are held back. Of valid text every event and every snapshot is valid, and
nothing is held back at its end. -/
theorem viewer_sees_every_byte_once {systems : List ℤ} {ops : List Op} {g : State}
    (run : Runs.exec step (newRun systems) ops = some g) {i : ℕ} {s : Slot}
    (hs : g.slots[i]? = some s) :
    s.written = s.shown ++ s.held ∧ s.held.length ≤ 3 ∧ (Valid s.written → s.held = []) ∧
    ∀ v ∈ g.viewers, ∃ t n, v.snapshot[i]? = some t ∧ v.sizes[i]? = some n ∧
      (v.subscribed = true →
        t.output ++ (dataOf s.target.systemID v.events).flatten <:+ s.shown ∧
        (n ≤ maxRunOutput →
          t.output ++ (dataOf s.target.systemID v.events).flatten = s.shown)) ∧
      (Valid s.written →
        Valid t.output ∧ ∀ d ∈ dataOf s.target.systemID v.events, Valid d) := by
  have hg := inv_run run
  have hslot := hg.slots s (List.mem_of_getElem? hs)
  refine ⟨hslot.split, hslot.tail.length_le, fun hv => hslot.tail.unique hv.tail_nil,
    fun v hv => ?_⟩
  obtain ⟨t, n, ht, hn, hseen⟩ := hg.viewers v hv i s hs
  refine ⟨t, n, ht, hn, fun hsub => ⟨hseen.suffix hsub, hseen.all hsub⟩, fun hv => ?_⟩
  exact ⟨hseen.shot.valid hv, fun d hd => (hseen.pieces d hd).valid hv⟩

def splitEuro : List Op := [.write 0 [0x61, 0xE2], .subscribe, .write 0 [0x82, 0xAC]]

theorem split_euro_seen_once : ∃ g s, Runs.exec step (newRun [7]) splitEuro = some g ∧
    g.slots[0]? = some s ∧ s.written = [0x61, 0xE2, 0x82, 0xAC] ∧ s.held = [] ∧
    ∃ v ∈ g.viewers, ∃ t, v.snapshot[0]? = some t ∧ t.output = [0x61] ∧
      t.output ++ (dataOf 7 v.events).flatten = s.shown := by
  have hfinal : (Runs.exec step (newRun [7]) splitEuro).map (·.slots.map fun s =>
      (s.written, s.held, s.target.systemID)) = some [([0x61, 0xE2, 0x82, 0xAC], [], 7)] := by
    decide +kernel
  have hviews : (Runs.exec step (newRun [7]) splitEuro).map (·.viewers.map fun v =>
      (v.snapshot.map (·.output), v.sizes, v.subscribed)) = some [([[0x61]], [2], true)] := by
    decide +kernel
  obtain ⟨g, hg, hslots⟩ := Option.map_eq_some_iff.1 hfinal
  rw [hg, Option.map_some, Option.some.injEq] at hviews
  obtain ⟨s, hs, hfields⟩ := List.map_eq_singleton_iff.1 hslots
  obtain ⟨v, hv, hseen⟩ := List.map_eq_singleton_iff.1 hviews
  simp only [Prod.mk.injEq] at hfields hseen
  obtain ⟨hwritten, hheld, hid⟩ := hfields
  obtain ⟨hsnapshot, hsizes, hsub⟩ := hseen
  have hs0 : g.slots[0]? = some s := by simp [hs]
  have hmem : v ∈ g.viewers := by simp [hv]
  obtain ⟨-, -, -, hall⟩ := viewer_sees_every_byte_once hg hs0
  obtain ⟨t, n, ht, hn, hlive, -⟩ := hall v hmem
  have hout : t.output = [0x61] := by
    have := congrArg (·[0]?) hsnapshot
    simpa [List.getElem?_map, ht] using this
  have hsize : n = 2 := by
    rw [hsizes] at hn
    simpa [eq_comm] using hn
  rw [hid] at hlive
  exact ⟨g, s, hg, hs0, hwritten, hheld, v, hmem, t, ht, hout,
    (hlive hsub).2 (by rw [hsize]; decide)⟩

end Lotse.RunOutput
