import Mathlib.Tactic

set_option autoImplicit false

namespace Lotse.Utf8

abbrev Bytes := List UInt8

def isCont (b : UInt8) : Bool := 0x80 ≤ b.toNat && b.toNat ≤ 0xBF

def runeStart (b : UInt8) : Bool := !isCont b

/-- The length of a character by its first byte; a byte that cannot be one stands alone. -/
def runeSize (b : UInt8) : ℕ :=
  if b.toNat < 0xC2 then 1
  else if b.toNat < 0xE0 then 2
  else if b.toNat < 0xF0 then 3
  else if b.toNat < 0xF5 then 4
  else 1

/-- The second bytes that are allowed: no overlong forms, no surrogates, nothing above
U+10FFFF. -/
def secondRange (b : UInt8) : ℕ × ℕ :=
  if b.toNat = 0xE0 then (0xA0, 0xBF)
  else if b.toNat = 0xED then (0x80, 0x9F)
  else if b.toNat = 0xF0 then (0x90, 0xBF)
  else if b.toNat = 0xF4 then (0x80, 0x8F)
  else (0x80, 0xBF)

def isSecond (b c : UInt8) : Bool := (secondRange b).1 ≤ c.toNat && c.toNat ≤ (secondRange b).2

def fullRune : Bytes → Bool
  | [] => false
  | [b] => runeSize b ≤ 1
  | [b, c] => runeSize b ≤ 2 || !isSecond b c
  | b :: c :: d :: rest => runeSize b ≤ rest.length + 3 || !isSecond b c || !isCont d

def IsChar : Bytes → Prop
  | [b] => b.toNat < 0x80
  | [b, c] => runeSize b = 2 ∧ isSecond b c
  | [b, c, d] => runeSize b = 3 ∧ isSecond b c ∧ isCont d
  | [b, c, d, e] => runeSize b = 4 ∧ isSecond b c ∧ isCont d ∧ isCont e
  | _ => False

inductive Valid : Bytes → Prop where
  | nil : Valid []
  | cons {c s : Bytes} (hc : IsChar c) (hs : Valid s) : Valid (c ++ s)

/-- The first bytes of a character, not all of them. -/
def Partial (p : Bytes) : Prop := p ≠ [] ∧ fullRune p = false

instance (p : Bytes) : Decidable (Partial p) := inferInstanceAs (Decidable (_ ∧ _))

section bytes
variable {b c : UInt8}

theorem isCont_iff : isCont b = true ↔ 0x80 ≤ b.toNat ∧ b.toNat ≤ 0xBF := by simp [isCont]

theorem runeStart_iff : runeStart b = true ↔ isCont b = false := by simp [runeStart]

theorem isCont_of_isSecond (h : isSecond b c = true) : isCont c = true := by
  simp only [isSecond, Bool.and_eq_true, decide_eq_true_eq] at h
  rw [isCont_iff]
  unfold secondRange at h
  split_ifs at h <;> constructor <;> omega

theorem runeSize_le : runeSize b ≤ 4 := by
  unfold runeSize
  split_ifs <;> omega

theorem runeStart_of_ascii (h : b.toNat < 0x80) : runeStart b = true := by
  rw [runeStart_iff, Bool.eq_false_iff, Ne, isCont_iff]
  omega

theorem runeStart_of_runeSize (h : 1 < runeSize b) : runeStart b = true := by
  rw [runeStart_iff, Bool.eq_false_iff, Ne, isCont_iff]
  unfold runeSize at h
  split_ifs at h <;> omega

theorem runeSize_of_ascii (h : b.toNat < 0x80) : runeSize b = 1 := by
  unfold runeSize
  rw [if_pos (by omega)]

theorem exists_isSecond (b : UInt8) : ∃ c, isSecond b c = true := by
  unfold isSecond secondRange
  split_ifs
  · exact ⟨0xA0, by decide⟩
  · exact ⟨0x80, by decide⟩
  · exact ⟨0x90, by decide⟩
  · exact ⟨0x80, by decide⟩
  · exact ⟨0x80, by decide⟩

end bytes

/-- A first byte and continuation bytes after it. -/
def Led (p : Bytes) : Prop := ∃ b t, p = b :: t ∧ runeStart b = true ∧ ∀ c ∈ t, isCont c = true

theorem IsChar.length_eq {b : UInt8} {t : Bytes} (h : IsChar (b :: t)) :
    (b :: t).length = runeSize b := by
  match t, h with
  | [], h => exact (runeSize_of_ascii h).symm
  | [_], h => exact h.1.symm
  | [_, _], h => exact h.1.symm
  | [_, _, _], h => exact h.1.symm

theorem IsChar.ne_nil {c : Bytes} (h : IsChar c) : c ≠ [] := by
  rintro rfl
  exact h

theorem IsChar.led {c : Bytes} (h : IsChar c) : Led c := by
  match c, h with
  | [b], h => exact ⟨b, [], rfl, runeStart_of_ascii h, by simp⟩
  | [b, c], h =>
    exact ⟨b, [c], rfl, runeStart_of_runeSize (by rw [h.1]; omega), by
      simpa using isCont_of_isSecond h.2⟩
  | [b, c, d], h =>
    exact ⟨b, [c, d], rfl, runeStart_of_runeSize (by rw [h.1]; omega), by
      simpa using ⟨isCont_of_isSecond h.2.1, h.2.2⟩⟩
  | [b, c, d, e], h =>
    exact ⟨b, [c, d, e], rfl, runeStart_of_runeSize (by rw [h.1]; omega), by
      simpa using ⟨isCont_of_isSecond h.2.1, h.2.2⟩⟩

theorem IsChar.fullRune {c : Bytes} (h : IsChar c) : fullRune c = true := by
  match c, h with
  | [b], h => simp [Utf8.fullRune, runeSize_of_ascii h]
  | [b, c], h => simp [Utf8.fullRune, h.1]
  | [b, c, d], h => simp [Utf8.fullRune, h.1]
  | [b, c, d, e], h => simp [Utf8.fullRune, h.1]

theorem IsChar.whole {c : Bytes} (h : IsChar c) : ¬ Partial c := by
  rintro ⟨-, hp⟩
  rw [h.fullRune] at hp
  cases hp

theorem Partial.cases {p : Bytes} (h : Partial p) :
    (∃ b, p = [b] ∧ 1 < runeSize b) ∨
    (∃ b c, p = [b, c] ∧ 2 < runeSize b ∧ isSecond b c = true) ∨
    ∃ b c d, p = [b, c, d] ∧ runeSize b = 4 ∧ isSecond b c = true ∧ isCont d = true := by
  obtain ⟨hne, hp⟩ := h
  match p, hne, hp with
  | [b], _, hp =>
    simp only [Utf8.fullRune, decide_eq_false_iff_not, not_le] at hp
    exact .inl ⟨b, rfl, hp⟩
  | [b, c], _, hp =>
    simp only [Utf8.fullRune, Bool.or_eq_false_iff, decide_eq_false_iff_not, not_le,
      Bool.not_eq_false'] at hp
    exact .inr (.inl ⟨b, c, rfl, hp.1, hp.2⟩)
  | b :: c :: d :: rest, _, hp =>
    simp only [Utf8.fullRune, Bool.or_eq_false_iff, decide_eq_false_iff_not, not_le,
      Bool.not_eq_false'] at hp
    have hsize := runeSize_le (b := b)
    obtain rfl : rest = [] := List.length_eq_zero_iff.1 (by omega)
    have hfour : runeSize b = 4 := by
      have := hp.1.1
      simp only [List.length_nil] at this
      omega
    exact .inr (.inr ⟨b, c, d, rfl, hfour, hp.1.2, hp.2⟩)

theorem Partial.length_le {p : Bytes} (h : Partial p) : p.length ≤ 3 := by
  rcases h.cases with ⟨b, rfl, -⟩ | ⟨b, c, rfl, -⟩ | ⟨b, c, d, rfl, -⟩ <;> simp

theorem Partial.led {p : Bytes} (h : Partial p) : Led p := by
  rcases h.cases with ⟨b, rfl, hb⟩ | ⟨b, c, rfl, hb, hc⟩ | ⟨b, c, d, rfl, hb, hc, hd⟩
  · exact ⟨b, [], rfl, runeStart_of_runeSize hb, by simp⟩
  · exact ⟨b, [c], rfl, runeStart_of_runeSize (by omega), by simpa using isCont_of_isSecond hc⟩
  · exact ⟨b, [c, d], rfl, runeStart_of_runeSize (by omega), by
      simpa using ⟨isCont_of_isSecond hc, hd⟩⟩

theorem Partial.completes {p : Bytes} (h : Partial p) : ∃ q, q ≠ [] ∧ IsChar (p ++ q) := by
  have h80 : isCont 0x80 = true := by decide
  rcases h.cases with ⟨b, rfl, hb⟩ | ⟨b, c, rfl, hb, hc⟩ | ⟨b, c, d, rfl, hb, hc, hd⟩
  · obtain ⟨c, hc⟩ := exists_isSecond b
    have hle := runeSize_le (b := b)
    obtain h2 | h3 | h4 : runeSize b = 2 ∨ runeSize b = 3 ∨ runeSize b = 4 := by omega
    · exact ⟨[c], by simp, h2, hc⟩
    · exact ⟨[c, 0x80], by simp, h3, hc, h80⟩
    · exact ⟨[c, 0x80, 0x80], by simp, h4, hc, h80, h80⟩
  · have hle := runeSize_le (b := b)
    obtain h3 | h4 : runeSize b = 3 ∨ runeSize b = 4 := by omega
    · exact ⟨[0x80], by simp, h3, hc, h80⟩
    · exact ⟨[0x80, 0x80], by simp, h4, hc, h80, h80⟩
  · exact ⟨[0x80], by simp, hb, hc, hd, h80⟩

theorem IsChar.partial_of_append {p q : Bytes} (h : IsChar (p ++ q)) (hp : p ≠ []) (hq : q ≠ []) :
    Partial p := by
  refine ⟨hp, ?_⟩
  match p, hp, q, hq, h with
  | [b], _, [c], _, h => simp [Utf8.fullRune, h.1]
  | [b], _, [c, d], _, h => simp [Utf8.fullRune, h.1]
  | [b], _, [c, d, e], _, h => simp [Utf8.fullRune, h.1]
  | [b, c], _, [d], _, h => simp [Utf8.fullRune, h.1, h.2.1]
  | [b, c], _, [d, e], _, h => simp [Utf8.fullRune, h.1, h.2.1]
  | [b, c, d], _, [e], _, h => simp [Utf8.fullRune, h.1, h.2.1, h.2.2.1]
  | _ :: _ :: _ :: _ :: _, _, _ :: _, _, h => simp [IsChar] at h

theorem Partial.of_append {p q : Bytes} (h : Partial (p ++ q)) (hp : p ≠ []) : Partial p := by
  obtain ⟨r, hr, hc⟩ := h.completes
  rw [List.append_assoc] at hc
  exact hc.partial_of_append hp (by simp [hr])

theorem partial_iff {p : Bytes} : Partial p ↔ p ≠ [] ∧ ∃ q, q ≠ [] ∧ IsChar (p ++ q) := by
  constructor
  · intro h
    exact ⟨h.1, h.completes⟩
  · rintro ⟨hp, q, hq, hc⟩
    exact hc.partial_of_append hp hq

section led
variable {x y p q : Bytes}

theorem takeWhile_led {b : UInt8} {t : Bytes} (hb : runeStart b = true)
    (ht : ∀ c ∈ t, isCont c = true) : (x ++ b :: t).reverse.takeWhile isCont = t.reverse := by
  have hr : (x ++ b :: t).reverse = t.reverse ++ b :: x.reverse := by simp
  rw [hr, List.takeWhile_append_of_pos (by simpa using ht),
    List.takeWhile_cons_of_neg (by simpa using runeStart_iff.1 hb), List.append_nil]

/-- The last first byte of a text is where its last character starts. -/
theorem Led.eq_of_append_eq (hp : Led p) (hq : Led q) (h : x ++ p = y ++ q) : p = q := by
  obtain ⟨b, t, rfl, hb, ht⟩ := hp
  obtain ⟨b', t', rfl, hb', ht'⟩ := hq
  have hrev : t.reverse = t'.reverse := by
    rw [← takeWhile_led (x := x) hb ht, h, takeWhile_led hb' ht']
  have htail : t = t' := List.reverse_injective hrev
  subst htail
  have hlen : (b :: t).length = (b' :: t).length := rfl
  exact (List.append_inj_right' h hlen)

theorem Led.eq_of_suffix {s : Bytes} (hp : Led p) (hq : Led q) (hps : p <:+ s) (hqs : q <:+ s) :
    p = q := by
  obtain ⟨x, hx⟩ := hps
  obtain ⟨y, hy⟩ := hqs
  exact hp.eq_of_append_eq hq (hx.trans hy.symm)

end led

/-- `p` is the part of a character that `s` ends in, empty when `s` ends in none. -/
def Tail (s p : Bytes) : Prop := p <:+ s ∧ (Partial p ∨ p = [] ∧ ∀ q, q <:+ s → ¬ Partial q)

section tail
variable {s p q w : Bytes}

theorem Tail.unique (hp : Tail s p) (hq : Tail s q) : p = q := by
  rcases hp.2 with hpp | ⟨rfl, hnone⟩
  · rcases hq.2 with hqp | ⟨-, hnone⟩
    · exact hpp.led.eq_of_suffix hqp.led hp.1 hq.1
    · exact absurd hpp (hnone p hp.1)
  · rcases hq.2 with hqp | ⟨rfl, -⟩
    · exact absurd hqp (hnone q hq.1)
    · rfl

theorem Tail.length_le (h : Tail s p) : p.length ≤ 3 := by
  rcases h.2 with hp | ⟨rfl, -⟩
  · exact hp.length_le
  · simp

/-- A part of a character that ends after more bytes starts in them, or was the part that
the text before them ended in. -/
theorem Tail.suffix_of_append (h : Tail s p) (hq : q <:+ s ++ w) (hpart : Partial q) :
    q <:+ p ++ w := by
  obtain ⟨x, hx⟩ := hq
  rcases List.append_eq_append_iff.1 hx with ⟨t, rfl, rfl⟩ | ⟨t, rfl, rfl⟩
  · by_cases ht : t = []
    · subst ht
      exact List.suffix_append p w
    · have htp : Partial t := hpart.of_append ht
      have : Tail (x ++ t) t := ⟨List.suffix_append x t, .inl htp⟩
      rw [h.unique this]
  · exact (List.suffix_append t q).trans (List.suffix_append p _)

/-- Reading on from the part that was left is reading on from the whole text. -/
theorem Tail.append (h : Tail s p) (hq : Tail (p ++ w) q) : Tail (s ++ w) q := by
  have hsuffix : p ++ w <:+ s ++ w := by
    obtain ⟨x, rfl⟩ := h.1
    exact ⟨x, by simp⟩
  refine ⟨hq.1.trans hsuffix, ?_⟩
  rcases hq.2 with hpart | ⟨rfl, hnone⟩
  · exact .inl hpart
  · refine .inr ⟨rfl, fun r hr hpart => ?_⟩
    exact hnone r (h.suffix_of_append hr hpart) hpart

end tail

section valid
variable {s t v w : Bytes}

theorem IsChar.eq_of_append_eq {c d : Bytes} (hc : IsChar c) (hd : IsChar d)
    (h : c ++ s = d ++ t) : c = d ∧ s = t := by
  obtain ⟨b, c, rfl, -⟩ := hc.led
  obtain ⟨b', d, rfl, -⟩ := hd.led
  have hb : b = b' := (List.cons.inj h).1
  subst hb
  exact List.append_inj h (hc.length_eq.trans hd.length_eq.symm)

theorem Valid.tail_of_append (hs : Valid s) (h : Valid (s ++ t)) : Valid t := by
  induction hs with
  | nil => exact h
  | @cons c s hc _ ih =>
    rw [List.append_assoc] at h
    apply ih
    generalize hr : c ++ (s ++ t) = r at h
    cases h with
    | nil =>
      have := hc.ne_nil
      simp_all
    | @cons d r hd hr' =>
      rw [(hc.eq_of_append_eq hd hr).2]
      exact hr'

/-- Valid text that is cut anywhere is valid text and a part of the next character. -/
theorem Valid.cut (h : Valid (s ++ t)) : ∃ v p, s = v ++ p ∧ Valid v ∧ (p = [] ∨ Partial p) := by
  generalize hr : s ++ t = r at h
  induction h generalizing s with
  | nil =>
    obtain ⟨rfl, rfl⟩ := List.append_eq_nil_iff.1 hr
    exact ⟨[], [], rfl, .nil, .inl rfl⟩
  | @cons c r hc _ ih =>
    rcases List.append_eq_append_iff.1 hr with ⟨u, rfl, rfl⟩ | ⟨u, rfl, hu⟩
    · by_cases hs : s = []
      · exact ⟨[], s, rfl, .nil, .inl hs⟩
      by_cases hu : u = []
      · subst hu
        rw [List.append_nil] at hc
        exact ⟨s, [], by simp, by simpa using Valid.cons hc .nil, .inl rfl⟩
      · exact ⟨[], s, rfl, .nil, .inr (hc.partial_of_append hs hu)⟩
    · obtain ⟨v, p, rfl, hv, hp⟩ := ih hu.symm
      exact ⟨c ++ v, p, by simp, .cons hc hv, hp⟩

theorem Valid.eq_nil_of_led_append (hs : Valid s) (h : Led (t ++ s)) (ht : t ≠ []) : s = [] := by
  cases hs with
  | nil => rfl
  | @cons c s hc _ =>
    obtain ⟨b, c, rfl, hb, -⟩ := hc.led
    obtain ⟨b', t', he, -, hcont⟩ := h
    obtain ⟨a, t, rfl⟩ := List.exists_cons_of_ne_nil ht
    have hmem : b ∈ t' := by
      rw [← (List.cons.inj he).2]
      simp
    have hstart := runeStart_iff.1 hb
    rw [hcont b hmem] at hstart
    cases hstart

theorem Valid.tail_nil (h : Valid s) : Tail s [] := by
  refine ⟨List.nil_suffix, .inr ⟨rfl, ?_⟩⟩
  induction h with
  | nil =>
    intro q hq hpart
    exact hpart.1 (List.suffix_nil.1 hq)
  | @cons c s hc hs ih =>
    intro q hq hpart
    obtain ⟨x, hx⟩ := hq
    rcases List.append_eq_append_iff.1 hx with ⟨u, rfl, rfl⟩ | ⟨u, rfl, rfl⟩
    · by_cases hu : u = []
      · subst hu
        exact ih _ List.suffix_rfl hpart
      · obtain rfl := hs.eq_nil_of_led_append hpart.led hu
        rw [List.append_nil] at hpart
        have hxu : x ++ u = u := hc.led.eq_of_append_eq (x := []) hpart.led rfl
        exact hc.whole (hxu.symm ▸ hpart)
    · exact ih q (List.suffix_append u q) hpart

theorem Valid.exists_start (h : Valid (s ++ t)) (ht : 4 ≤ t.length) :
    ∃ i < 4, ∃ b, t[i]? = some b ∧ runeStart b = true := by
  generalize hr : s ++ t = r at h
  induction h generalizing s with
  | nil =>
    obtain ⟨rfl, rfl⟩ := List.append_eq_nil_iff.1 hr
    simp at ht
  | @cons c r hc hrest ih =>
    obtain ⟨b, c', hcb, hb, -⟩ := hc.led
    rcases List.append_eq_append_iff.1 hr with ⟨u, hu, rfl⟩ | ⟨u, rfl, hu⟩
    · by_cases hs : s = []
      · subst hs
        rw [List.nil_append] at hu
        subst hu
        exact ⟨0, by omega, b, by simp [hcb], hb⟩
      · have hlen : c.length ≤ 4 := by
          rw [hcb, IsChar.length_eq (hcb ▸ hc)]
          exact runeSize_le
        have hpos : 1 ≤ s.length := List.length_pos_iff.2 hs
        have hu3 : u.length < 4 := by
          rw [hu, List.length_append] at hlen
          omega
        cases hrest with
        | nil =>
          simp only [List.append_nil] at ht
          omega
        | @cons d r hd _ =>
          obtain ⟨b', d, rfl, hb', -⟩ := hd.led
          exact ⟨u.length, hu3, b', by simp, hb'⟩
    · exact ih hu.symm

theorem Valid.of_start {b : UInt8} (h : Valid (s ++ b :: t)) (hb : runeStart b = true) :
    Valid (b :: t) := by
  generalize hr : s ++ b :: t = r at h
  induction h generalizing s with
  | nil => simp at hr
  | @cons c r hc hrest ih =>
    rcases List.append_eq_append_iff.1 hr with ⟨u, hu, hbt⟩ | ⟨u, rfl, hu⟩
    · cases u with
      | nil =>
        rw [List.nil_append] at hbt
        rw [hbt]
        exact hrest
      | cons a u =>
        obtain rfl : b = a := (List.cons.inj hbt).1
        by_cases hs : s = []
        · subst hs
          rw [hbt, ← List.nil_append (b :: u), ← hu]
          exact .cons hc hrest
        · obtain ⟨b', c', hcb, -, hcont⟩ := hc.led
          obtain ⟨a, s, rfl⟩ := List.exists_cons_of_ne_nil hs
          have hmem : b ∈ c' := by
            rw [← (List.cons.inj (hu.symm.trans hcb)).2]
            simp
          have hstart := runeStart_iff.1 hb
          rw [hcont b hmem] at hstart
          cases hstart
    · exact ih hu.symm

theorem Valid.tail_of_cut (h : Valid (s ++ t)) : ∃ v p, s = v ++ p ∧ Valid v ∧ Tail s p := by
  obtain ⟨v, p, rfl, hv, rfl | hp⟩ := h.cut
  · exact ⟨v, [], rfl, hv, by simpa using hv.tail_nil⟩
  · exact ⟨v, p, rfl, hv, List.suffix_append v p, .inl hp⟩

end valid

end Lotse.Utf8
