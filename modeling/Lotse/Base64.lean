import Mathlib.Tactic

set_option autoImplicit false

namespace Lotse.Base64

abbrev Bytes := List UInt8

def alphabet : List Char :=
  "ABCDEFGHIJKLMNOPQRSTUVWXYZabcdefghijklmnopqrstuvwxyz0123456789+/".toList

def symbol (n : ℕ) : Char := alphabet.getD n '='

def value (c : Char) : Option ℕ := alphabet.idxOf? c

def encodeToString : Bytes → List Char
  | [] => []
  | [a] => [symbol (a.toNat / 4), symbol (a.toNat % 4 * 16), '=', '=']
  | [a, b] =>
    [symbol (a.toNat / 4), symbol (a.toNat % 4 * 16 + b.toNat / 16), symbol (b.toNat % 16 * 4), '=']
  | a :: b :: c :: s =>
    symbol (a.toNat / 4) :: symbol (a.toNat % 4 * 16 + b.toNat / 16) ::
      symbol (b.toNat % 16 * 4 + c.toNat / 64) :: symbol (c.toNat % 64) :: encodeToString s

def decodeQuanta : List Char → Option Bytes
  | [] => some []
  | a :: b :: c :: d :: s => do
    let x ← value a
    let y ← value b
    if c = '=' then
      if d = '=' ∧ s = [] then some [(x * 4 + y / 16).toUInt8] else none
    else do
      let z ← value c
      if d = '=' then
        if s = [] then some [(x * 4 + y / 16).toUInt8, (y % 16 * 16 + z / 4).toUInt8] else none
      else do
        let w ← value d
        let rest ← decodeQuanta s
        some ((x * 4 + y / 16).toUInt8 :: (y % 16 * 16 + z / 4).toUInt8 ::
          (z % 4 * 64 + w).toUInt8 :: rest)
  | _ => none

def decodeString (s : List Char) : Option Bytes := decodeQuanta (s.filter fun c => c ≠ '\r' ∧ c ≠ '\n')

theorem symbol_spec : ∀ n < 64, value (symbol n) = some n ∧ symbol n ≠ '=' ∧ symbol n ≠ '\r' ∧
    symbol n ≠ '\n' := by
  decide +kernel

section quanta
variable {x y z w : ℕ}

theorem decodeQuanta_one (hx : x < 64) (hy : y < 64) :
    decodeQuanta [symbol x, symbol y, '=', '='] = some [(x * 4 + y / 16).toUInt8] := by
  simp only [decodeQuanta, (symbol_spec x hx).1, (symbol_spec y hy).1]
  rfl

theorem decodeQuanta_two (hx : x < 64) (hy : y < 64) (hz : z < 64) :
    decodeQuanta [symbol x, symbol y, symbol z, '='] =
      some [(x * 4 + y / 16).toUInt8, (y % 16 * 16 + z / 4).toUInt8] := by
  obtain ⟨hvalue, hpad, -⟩ := symbol_spec z hz
  simp only [decodeQuanta, (symbol_spec x hx).1, (symbol_spec y hy).1, hvalue, if_neg hpad]
  rfl

theorem decodeQuanta_three (hx : x < 64) (hy : y < 64) (hz : z < 64) (hw : w < 64) (s : List Char) :
    decodeQuanta (symbol x :: symbol y :: symbol z :: symbol w :: s) =
      (decodeQuanta s).map fun rest => (x * 4 + y / 16).toUInt8 :: (y % 16 * 16 + z / 4).toUInt8 ::
        (z % 4 * 64 + w).toUInt8 :: rest := by
  obtain ⟨hvalue, hpad, -⟩ := symbol_spec z hz
  obtain ⟨hvalue', hpad', -⟩ := symbol_spec w hw
  rw [decodeQuanta]
  simp only [(symbol_spec x hx).1, (symbol_spec y hy).1, hvalue, hvalue', if_neg hpad, if_neg hpad']
  cases decodeQuanta s <;> rfl

end quanta

theorem toUInt8_eq {n : ℕ} {a : UInt8} (h : n = a.toNat) : n.toUInt8 = a := by
  rw [h]
  exact UInt8.ofNat_toNat

theorem decodeQuanta_encode (s : Bytes) : decodeQuanta (encodeToString s) = some s := by
  fun_induction encodeToString s with
  | case1 => rfl
  | case2 a =>
    have ha := a.toNat_lt
    rw [decodeQuanta_one (by omega) (by omega), toUInt8_eq (a := a) (by omega)]
  | case3 a b =>
    have ha := a.toNat_lt
    have hb := b.toNat_lt
    rw [decodeQuanta_two (by omega) (by omega) (by omega), toUInt8_eq (a := a) (by omega),
      toUInt8_eq (a := b) (by omega)]
  | case4 a b c s ih =>
    have ha := a.toNat_lt
    have hb := b.toNat_lt
    have hc := c.toNat_lt
    rw [decodeQuanta_three (by omega) (by omega) (by omega) (by omega), ih,
      toUInt8_eq (a := a) (by omega), toUInt8_eq (a := b) (by omega), toUInt8_eq (a := c) (by omega)]
    rfl

theorem mem_encodeToString {s : Bytes} {c : Char} (h : c ∈ encodeToString s) :
    c = '=' ∨ ∃ n < 64, c = symbol n := by
  fun_induction encodeToString s with
  | case1 => cases h
  | case2 a =>
    have ha := a.toNat_lt
    simp only [List.mem_cons, List.not_mem_nil, or_false] at h
    rcases h with h | h | h | h
    · exact .inr ⟨_, by omega, h⟩
    · exact .inr ⟨_, by omega, h⟩
    · exact .inl h
    · exact .inl h
  | case3 a b =>
    have ha := a.toNat_lt
    have hb := b.toNat_lt
    simp only [List.mem_cons, List.not_mem_nil, or_false] at h
    rcases h with h | h | h | h
    · exact .inr ⟨_, by omega, h⟩
    · exact .inr ⟨_, by omega, h⟩
    · exact .inr ⟨_, by omega, h⟩
    · exact .inl h
  | case4 a b d s ih =>
    have ha := a.toNat_lt
    have hb := b.toNat_lt
    have hd := d.toNat_lt
    simp only [List.mem_cons] at h
    rcases h with h | h | h | h | h
    · exact .inr ⟨_, by omega, h⟩
    · exact .inr ⟨_, by omega, h⟩
    · exact .inr ⟨_, by omega, h⟩
    · exact .inr ⟨_, by omega, h⟩
    · exact ih h

theorem decodeString_encode (s : Bytes) : decodeString (encodeToString s) = some s := by
  have hbreaks : (encodeToString s).filter (fun c => c ≠ '\r' ∧ c ≠ '\n') = encodeToString s := by
    rw [List.filter_eq_self]
    intro c hc
    rcases mem_encodeToString hc with rfl | ⟨n, hn, rfl⟩
    · decide
    · exact decide_eq_true (symbol_spec n hn).2.2
  rw [decodeString, hbreaks, decodeQuanta_encode]

end Lotse.Base64
