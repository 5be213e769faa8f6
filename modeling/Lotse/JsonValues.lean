import Lotse.JsonStrings
import Mathlib.Data.List.TakeWhile

set_option autoImplicit false

namespace Lotse.Json
open Utf8

section values

/-- A value; a number is kept as it is written. -/
inductive Value where
  | null
  | bool (b : Bool)
  | number (text : Bytes)
  | string (s : Bytes)
  | array (elements : List Value)
  | object (members : List (Bytes × Value))

def isSpace (b : UInt8) : Bool := b ∈ literal " \t\n\r"

def skipSpace (s : Bytes) : Bytes := s.dropWhile isSpace

def isDigit (b : UInt8) : Bool := 0x30 ≤ b.toNat && b.toNat ≤ 0x39

def scanDigits (s : Bytes) : Option (Bytes × Bytes) :=
  if s.takeWhile isDigit = [] then none else some (s.takeWhile isDigit, s.dropWhile isDigit)

def scanSign (sign : Bytes) : Bytes → Bytes × Bytes
  | [] => ([], [])
  | b :: s => if b ∈ sign then ([b], s) else ([], b :: s)

def scanInt : Bytes → Option (Bytes × Bytes)
  | [] => none
  | b :: s => if b = ascii '0' then some ([b], s) else scanDigits (b :: s)

def scanFraction : Bytes → Option (Bytes × Bytes)
  | [] => some ([], [])
  | b :: s =>
    if b = ascii '.' then (scanDigits s).map (Prod.map (b :: ·) id) else some ([], b :: s)

def scanExponent : Bytes → Option (Bytes × Bytes)
  | [] => some ([], [])
  | b :: s =>
    if b ∈ literal "eE" then
      (scanDigits (scanSign (literal "+-") s).2).map
        (Prod.map (b :: (scanSign (literal "+-") s).1 ++ ·) id)
    else some ([], b :: s)

def scanNumber (s : Bytes) : Option (Bytes × Bytes) := do
  let (int, rest) ← scanInt (scanSign (literal "-") s).2
  let (fraction, rest) ← scanFraction rest
  let (exponent, rest) ← scanExponent rest
  return ((scanSign (literal "-") s).1 ++ int ++ fraction ++ exponent, rest)

def keyword (word : String) (v : Value) (s : Bytes) : Option (Value × Bytes) :=
  if s.take word.length = literal word then some (v, s.drop word.length) else none

def maxNestingDepth : ℕ := 10000

-- The first argument bounds the calls; each of them reads at least one byte.
mutual

def parseValue : ℕ → ℕ → Bytes → Option (Value × Bytes)
  | 0, _, _ => none
  | n + 1, depth, s =>
    match skipSpace s with
    | [] => none
    | b :: s =>
      if b = 0x7B then
        match depth, skipSpace s with
        | 0, _ => none
        | _, [] => none
        | depth + 1, c :: s =>
          if c = 0x7D then some (.object [], s)
          else (parseMembers n depth (c :: s)).map (Prod.map .object id)
      else if b = ascii '[' then
        match depth, skipSpace s with
        | 0, _ => none
        | _, [] => none
        | depth + 1, c :: s =>
          if c = ascii ']' then some (.array [], s)
          else (parseElements n depth (c :: s)).map (Prod.map .array id)
      else if b = ascii '"' then (unquote s).map (Prod.map .string id)
      else if b = ascii 'n' then keyword "null" .null (b :: s)
      else if b = ascii 't' then keyword "true" (.bool true) (b :: s)
      else if b = ascii 'f' then keyword "false" (.bool false) (b :: s)
      else (scanNumber (b :: s)).map (Prod.map .number id)

def parseMembers : ℕ → ℕ → Bytes → Option (List (Bytes × Value) × Bytes)
  | 0, _, _ => none
  | n + 1, depth, s =>
    match skipSpace s with
    | [] => none
    | b :: s =>
      if b = ascii '"' then do
        let (name, s) ← unquote s
        match skipSpace s with
        | [] => none
        | b :: s =>
          if b = ascii ':' then do
            let (value, s) ← parseValue n depth s
            match skipSpace s with
            | [] => none
            | b :: s =>
              if b = ascii ',' then
                (parseMembers n depth s).map (Prod.map ((name, value) :: ·) id)
              else if b = 0x7D then some ([(name, value)], s)
              else none
          else none
      else none

def parseElements : ℕ → ℕ → Bytes → Option (List Value × Bytes)
  | 0, _, _ => none
  | n + 1, depth, s => do
    let (value, s) ← parseValue n depth s
    match skipSpace s with
    | [] => none
    | b :: s =>
      if b = ascii ',' then (parseElements n depth s).map (Prod.map (value :: ·) id)
      else if b = ascii ']' then some ([value], s)
      else none

end

/-- A text is one value with nothing but space around it. -/
def parse (s : Bytes) : Option Value :=
  match parseValue (s.length + 1) maxNestingDepth s with
  | some (v, rest) => if skipSpace rest = [] then some v else none
  | none => none

inductive Scalar where
  | string (s : Bytes)
  | int (n : ℤ)

def Scalar.text : Scalar → Bytes
  | .string s => quote s
  | .int n => literal (toString n)

def Scalar.value : Scalar → Value
  | .string s => .string (coerce s)
  | .int n => .number (literal (toString n))

structure Layout where
  first : Bytes
  next : Bytes
  colon : Bytes
  last : Bytes
  after : Bytes
  space : ∀ b ∈ first ++ next ++ colon ++ last ++ after, isSpace b = true

def renderMember (l : Layout) (m : Bytes × Scalar) : Bytes :=
  quote m.1 ++ ascii ':' :: (l.colon ++ m.2.text)

def renderMembers (l : Layout) : List (Bytes × Scalar) → Bytes
  | [] => []
  | [m] => renderMember l m
  | m :: ms => renderMember l m ++ ascii ',' :: (l.next ++ renderMembers l ms)

def render (l : Layout) (ms : List (Bytes × Scalar)) : Bytes :=
  0x7B :: (l.first ++ renderMembers l ms ++ l.last ++ 0x7D :: l.after)

end values

section numbers
variable {ds rest : Bytes}

def Numeral (ds : Bytes) : Prop :=
  ds ≠ [] ∧ (∀ b ∈ ds, isDigit b = true) ∧ (ds.head? = some (ascii '0') → ds.length = 1)

def Stops (rest : Bytes) : Prop :=
  ∀ b ∈ rest.head?, isDigit b = false ∧ b ≠ ascii '.' ∧ b ∉ literal "eE"

theorem head_toDigits {k : ℕ} (hk : 0 < k) : (Nat.toDigits 10 k).head? ≠ some '0' := by
  induction k using Nat.strong_induction_on with
  | _ k ih =>
    by_cases hlt : k < 10
    · rw [Nat.toDigits_of_lt_base hlt]
      interval_cases k <;> decide
    · rw [Nat.toDigits_of_base_le (by decide) (not_lt.1 hlt), List.head?_append_of_ne_nil]
      · exact ih (k / 10) (by omega) (by omega)
      · exact Nat.toDigits_ne_nil

theorem toNat_of_isDigit {c : Char} (h : c.isDigit) : 48 ≤ c.toNat ∧ c.toNat ≤ 57 :=
  Char.isDigit_iff_toNat.1 h

theorem isDigit_ascii {c : Char} (h : c.isDigit) : isDigit (ascii c) = true := by
  obtain ⟨hlow, hhigh⟩ := toNat_of_isDigit h
  simp only [isDigit, toNat_ascii (show c.toNat < 256 by omega), Bool.and_eq_true, decide_eq_true_eq]
  omega

theorem numeral_toDigits (k : ℕ) : Numeral ((Nat.toDigits 10 k).map ascii) := by
  have hdigit : ∀ c ∈ Nat.toDigits 10 k, c.isDigit := fun c hc =>
    Nat.isDigit_of_mem_toDigits (by decide) (by decide) hc
  refine ⟨by simp [Nat.toDigits_ne_nil], ?_, ?_⟩
  · intro b hb
    obtain ⟨c, hc, rfl⟩ := List.mem_map.1 hb
    exact isDigit_ascii (hdigit c hc)
  · intro hhead
    rcases Nat.eq_zero_or_pos k with rfl | hk
    · rfl
    · rw [List.head?_map, Option.map_eq_some_iff] at hhead
      obtain ⟨c, hc, hzero⟩ := hhead
      have hc' := toNat_of_isDigit (hdigit c (List.mem_of_mem_head? hc))
      have hc0 : c = '0' := ascii_inj (by omega) (by decide) hzero
      exact absurd (hc0 ▸ hc) (head_toDigits hk)

theorem scanInt_numeral (h : Numeral ds) (hrest : Stops rest) :
    scanInt (ds ++ rest) = some (ds, rest) := by
  obtain ⟨hne, hdigits, hzero⟩ := h
  obtain ⟨d, t, rfl⟩ := List.exists_cons_of_ne_nil hne
  rw [List.cons_append, scanInt]
  split_ifs with hd
  · have ht : t = [] := by simpa using hzero (by simp [hd])
    rw [ht]
    rfl
  · rw [← List.cons_append, scanDigits, List.takeWhile_append_of_pos hdigits,
      List.dropWhile_append_of_pos hdigits]
    have hstop : rest.takeWhile isDigit = [] ∧ rest.dropWhile isDigit = rest := by
      cases rest with
      | nil => exact ⟨rfl, rfl⟩
      | cons b rest => simp [(hrest b rfl).1]
    rw [hstop.1, hstop.2, List.append_nil, if_neg hne]

theorem scanNumber_numeral {sign : Bytes} (hsign : sign = [] ∨ sign = literal "-") (h : Numeral ds)
    (hrest : Stops rest) : scanNumber (sign ++ (ds ++ rest)) = some (sign ++ ds, rest) := by
  have hscan : scanSign (literal "-") (sign ++ (ds ++ rest)) = (sign, ds ++ rest) := by
    rcases hsign with rfl | rfl
    · obtain ⟨d, t, rfl⟩ := List.exists_cons_of_ne_nil h.1
      have hd : d ∉ literal "-" := by
        intro hmem
        have hdigit := h.2.1 d List.mem_cons_self
        rw [show d = ascii '-' by simpa [literal] using hmem] at hdigit
        revert hdigit
        decide
      exact if_neg hd
    · rfl
  have hfraction : scanFraction rest = some ([], rest) := by
    cases rest with
    | nil => rfl
    | cons b rest => exact if_neg (hrest b rfl).2.1
  have hexponent : scanExponent rest = some ([], rest) := by
    cases rest with
    | nil => rfl
    | cons b rest => exact if_neg (hrest b rfl).2.2
  simp [scanNumber, hscan, scanInt_numeral h hrest, hfraction, hexponent]

theorem toString_int (n : ℤ) : ∃ sign ds, literal (toString n) = sign ++ ds ∧
    (sign = [] ∨ sign = literal "-") ∧ Numeral ds := by
  cases n with
  | ofNat k =>
    refine ⟨[], (Nat.toDigits 10 k).map ascii, ?_, .inl rfl, numeral_toDigits k⟩
    change (Nat.repr k).toList.map ascii = _
    rw [Nat.toList_repr]
    rfl
  | negSucc k =>
    refine ⟨literal "-", (Nat.toDigits 10 (k + 1)).map ascii, ?_, .inr rfl, numeral_toDigits (k + 1)⟩
    change ("-" ++ Nat.repr (k + 1)).toList.map ascii = _
    rw [String.toList_append, List.map_append, Nat.toList_repr]
    rfl

end numbers

section objects
variable {l : Layout} {ws rest : Bytes}

theorem skipSpace_append (hws : ∀ b ∈ ws, isSpace b = true) {b : UInt8} (hb : isSpace b = false)
    (s : Bytes) : skipSpace (ws ++ b :: s) = b :: s := by
  rw [skipSpace, List.dropWhile_append_of_pos hws, List.dropWhile_cons_of_neg (by simp [hb])]

theorem skipSpace_cons {b : UInt8} (hb : isSpace b = false) (s : Bytes) :
    skipSpace (b :: s) = b :: s :=
  List.dropWhile_cons_of_neg (by simp [hb])

theorem skipSpace_space (hws : ∀ b ∈ ws, isSpace b = true) : skipSpace ws = [] :=
  List.dropWhile_eq_nil_iff.2 hws

theorem numberStart {x : UInt8} (h : x = ascii '-' ∨ isDigit x = true) :
    isSpace x = false ∧ ∀ y ∈ 0x7B :: literal "[\"ntf", x ≠ y := by
  have hspecial : ∀ y ∈ literal " \t\n\r" ++ 0x7B :: literal "[\"ntf",
      ¬ (y = ascii '-' ∨ isDigit y = true) := List.all_iff_forall_prop.1 (by decide)
  have hx : x ∉ literal " \t\n\r" ++ 0x7B :: literal "[\"ntf" := fun hmem => hspecial x hmem h
  rw [List.mem_append, not_or] at hx
  exact ⟨decide_eq_false hx.1, fun y hy hxy => hx.2 (hxy ▸ hy)⟩

theorem parseValue_scalar (hws : ∀ b ∈ ws, isSpace b = true) (v : Scalar) (hrest : Stops rest)
    (n depth : ℕ) : parseValue (n + 1) depth (ws ++ (v.text ++ rest)) = some (v.value, rest) := by
  rw [parseValue]
  cases v with
  | string s =>
    obtain ⟨t, hquote, hunquote⟩ := unquote_quote s rest
    rw [Scalar.text, hquote, skipSpace_append hws (by decide)]
    have hopen : ascii '"' ≠ 0x7B ∧ ascii '"' ≠ ascii '[' := by decide
    simp [hopen, hunquote, Scalar.value]
  | int k =>
    obtain ⟨sign, ds, htext, hsign, hds⟩ := toString_int k
    rw [Scalar.text, Scalar.value, htext, List.append_assoc]
    have hnumber := scanNumber_numeral hsign hds hrest
    have hstart : ∃ x t, sign ++ (ds ++ rest) = x :: t ∧ (x = ascii '-' ∨ isDigit x = true) := by
      obtain ⟨d, t, rfl⟩ := List.exists_cons_of_ne_nil hds.1
      rcases hsign with rfl | rfl
      · exact ⟨d, t ++ rest, rfl, .inr (hds.2.1 d List.mem_cons_self)⟩
      · exact ⟨ascii '-', d :: (t ++ rest), rfl, .inl rfl⟩
    obtain ⟨x, t, hx, hnum⟩ := hstart
    obtain ⟨hspace, hne⟩ := numberStart hnum
    rw [hx, skipSpace_append hws hspace]
    rw [hx] at hnumber
    simp [hne 0x7B (by decide), hne (ascii '[') (by decide), hne (ascii '"') (by decide),
      hne (ascii 'n') (by decide), hne (ascii 't') (by decide), hne (ascii 'f') (by decide), hnumber]

theorem stops_of_mem {b : UInt8} (hb : b ∈ literal ",\t\n\r " ++ [0x7D]) (s : Bytes) :
    Stops (b :: s) := by
  intro x hx
  obtain rfl : b = x := Option.some.inj hx
  have htable : ∀ y ∈ literal ",\t\n\r " ++ [0x7D],
      isDigit y = false ∧ y ≠ ascii '.' ∧ y ∉ literal "eE" :=
    List.all_iff_forall_prop.1 (by decide)
  exact htable b hb

theorem stops_last (hws : ∀ b ∈ ws, isSpace b = true) : Stops (ws ++ 0x7D :: rest) := by
  cases ws with
  | nil => exact stops_of_mem (by decide) rest
  | cons b ws =>
    refine stops_of_mem ?_ _
    have htable : ∀ y ∈ literal " \t\n\r", y ∈ literal ",\t\n\r " ++ [0x7D] :=
      List.all_iff_forall_prop.1 (by decide)
    exact htable b (of_decide_eq_true (hws b List.mem_cons_self))

theorem parseMembers_member (hws : ∀ b ∈ ws, isSpace b = true) (m : Bytes × Scalar)
    (hrest : Stops rest) (n depth : ℕ) :
    parseMembers (n + 2) depth (ws ++ (renderMember l m ++ rest)) =
      match skipSpace rest with
      | [] => none
      | b :: s =>
        if b = ascii ',' then
          (parseMembers (n + 1) depth s).map (Prod.map ((coerce m.1, m.2.value) :: ·) id)
        else if b = 0x7D then some ([(coerce m.1, m.2.value)], s)
        else none := by
  obtain ⟨t, hquote, hunquote⟩ := unquote_quote m.1 (ascii ':' :: (l.colon ++ (m.2.text ++ rest)))
  have hmember : renderMember l m ++ rest =
      quote m.1 ++ ascii ':' :: (l.colon ++ (m.2.text ++ rest)) := by
    simp [renderMember, List.append_assoc]
  have hcolon : ∀ b ∈ l.colon, isSpace b = true := fun b hb => l.space b (by simp [hb])
  have hskip : skipSpace (ascii ':' :: (l.colon ++ (m.2.text ++ rest))) =
      ascii ':' :: (l.colon ++ (m.2.text ++ rest)) := skipSpace_cons (by decide) _
  rw [hmember, hquote, parseMembers, skipSpace_append hws (by decide)]
  simp only [if_true, hunquote, Option.bind_eq_bind, Option.bind_some, hskip,
    parseValue_scalar hcolon m.2 hrest]

def readMember (m : Bytes × Scalar) : Bytes × Value := (coerce m.1, m.2.value)

theorem parseMembers_render (hws : ∀ b ∈ ws, isSpace b = true) {ms : List (Bytes × Scalar)}
    (hms : ms ≠ []) (n depth : ℕ) :
    parseMembers (n + ms.length + 1) depth
        (ws ++ (renderMembers l ms ++ (l.last ++ 0x7D :: rest))) =
      some (ms.map readMember, rest) := by
  have hlast : ∀ b ∈ l.last, isSpace b = true := fun b hb => l.space b (by simp [hb])
  have hnext : ∀ b ∈ l.next, isSpace b = true := fun b hb => l.space b (by simp [hb])
  induction ms generalizing ws with
  | nil => exact absurd rfl hms
  | cons m ms ih =>
    cases ms with
    | nil =>
      have hbrace : (0x7D : UInt8) ≠ ascii ',' := by decide
      rw [renderMembers, List.length_singleton, parseMembers_member hws m (stops_last hlast),
        skipSpace_append hlast (by decide)]
      simp [hbrace, readMember]
    | cons m' ms =>
      have hrest : renderMembers l (m :: m' :: ms) ++ (l.last ++ 0x7D :: rest) =
          renderMember l m ++ ascii ',' ::
            (l.next ++ (renderMembers l (m' :: ms) ++ (l.last ++ 0x7D :: rest))) := by
        simp [renderMembers]
      rw [hrest, List.length_cons, ← Nat.add_assoc,
        parseMembers_member hws m (stops_of_mem (by decide) _), skipSpace_cons (by decide)]
      simp only [if_true, ih hnext (List.cons_ne_nil _ _)]
      rfl

theorem length_renderMembers (l : Layout) (ms : List (Bytes × Scalar)) :
    ms.length ≤ (renderMembers l ms).length := by
  induction ms with
  | nil => simp
  | cons m ms ih =>
    have hpos : 0 < (renderMember l m).length := by simp [renderMember]
    cases ms with
    | nil => exact hpos
    | cons m' ms =>
      simp only [renderMembers, List.length_append, List.length_cons] at ih ⊢
      omega

theorem renderMembers_start (l : Layout) {ms : List (Bytes × Scalar)} (hms : ms ≠ []) (rest : Bytes) :
    ∃ t, renderMembers l ms ++ rest = ascii '"' :: t := by
  have hmember : ∀ m rest, ∃ t, renderMember l m ++ rest = ascii '"' :: t := fun m rest =>
    ⟨_, by simp [renderMember, quote]; rfl⟩
  cases ms with
  | nil => exact absurd rfl hms
  | cons m ms =>
    cases ms with
    | nil => exact hmember m rest
    | cons m' ms =>
      simp only [renderMembers, List.append_assoc]
      exact hmember m _

/-- A flat object is read back, its strings coerced to valid UTF-8. -/
theorem parse_render (l : Layout) {ms : List (Bytes × Scalar)} (hms : ms ≠ []) :
    parse (render l ms) = some (.object (ms.map readMember)) := by
  have hfirst : ∀ b ∈ l.first, isSpace b = true := fun b hb => l.space b (by simp [hb])
  have hafter : ∀ b ∈ l.after, isSpace b = true := fun b hb => l.space b (by simp [hb])
  obtain ⟨t, ht⟩ := renderMembers_start l hms (l.last ++ 0x7D :: l.after)
  have hrender : render l ms = 0x7B :: (l.first ++ ascii '"' :: t) := by
    rw [← ht]
    simp [render]
  have hfuel : ∃ n, (render l ms).length = n + ms.length + 1 := by
    have hlen := length_renderMembers l ms
    refine ⟨(render l ms).length - ms.length - 1, ?_⟩
    simp only [render, List.length_cons, List.length_append]
    omega
  obtain ⟨n, hn⟩ := hfuel
  have hmembers : parseMembers (n + ms.length + 1) 9999 (ascii '"' :: t) =
      some (ms.map readMember, l.after) := by
    rw [← ht, ← List.nil_append (renderMembers l ms ++ _)]
    exact parseMembers_render (by simp) hms n 9999
  have hbrace : ascii '"' ≠ 0x7D := by decide
  rw [parse, hn, parseValue, hrender, skipSpace_cons (by decide)]
  simp only [if_true, maxNestingDepth, skipSpace_append hfirst (show isSpace (ascii '"') = false by decide),
    if_neg hbrace, hmembers]
  simp [skipSpace_space hafter]

end objects

end Lotse.Json
