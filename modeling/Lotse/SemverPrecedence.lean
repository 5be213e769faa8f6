import Lotse.VersionCompare
import Lotse.NetAddr
import Mathlib.Data.List.TakeWhile
import Mathlib.Data.Nat.Digits.Defs

set_option autoImplicit false

namespace Lotse.Versions

def digits (s : List Char) : Bool := s.all Char.isDigit

def identifierChar (c : Char) : Bool := c.isAlphanum || c == '-'

def NumericIdentifier (s : List Char) : Prop :=
  s ≠ [] ∧ digits s ∧ (s.head? = some '0' → s = ['0'])

/-- Letters, digits and hyphens, one of them no digit. -/
def AlphanumericIdentifier (s : List Char) : Prop := s.all identifierChar ∧ ¬ digits s

def BuildIdentifier (s : List Char) : Prop := s ≠ [] ∧ s.all identifierChar

instance (s : List Char) : Decidable (NumericIdentifier s) := inferInstanceAs (Decidable (_ ∧ _))

instance (s : List Char) : Decidable (AlphanumericIdentifier s) :=
  inferInstanceAs (Decidable (_ ∧ _))

instance (s : List Char) : Decidable (BuildIdentifier s) := inferInstanceAs (Decidable (_ ∧ _))

/-- A version of the grammar. A list is empty if its part is missing. -/
structure Version where
  major : List Char
  minor : List Char
  patch : List Char
  pre : List (List Char)
  build : List (List Char)
  numeric : ∀ s ∈ [major, minor, patch], NumericIdentifier s
  identifiers : ∀ s ∈ pre, NumericIdentifier s ∨ AlphanumericIdentifier s
  metadata : ∀ s ∈ build, BuildIdentifier s

namespace Version

def core (v : Version) : List (List Char) := [v.major, v.minor, v.patch]

def suffix (mark : Char) : List (List Char) → List Char
  | [] => []
  | ids => mark :: ['.'].intercalate ids

def text (v : Version) : List Char :=
  ['.'].intercalate v.core ++ suffix '-' v.pre ++ suffix '+' v.build

def Fits (v : Version) : Prop := ∀ s ∈ v.core ++ v.pre, digits s → digitsValue s ≤ maxInt

instance (v : Version) : Decidable v.Fits := inferInstanceAs (Decidable (∀ s ∈ _, _))

end Version

/-- The version as it is written, optionally with a leading v. -/
def Spells (s : String) (v : Version) : Prop := s.toList = v.text ∨ s.toList = 'v' :: v.text

instance (s : String) (v : Version) : Decidable (Spells s v) := inferInstanceAs (Decidable (_ ∨ _))

/-- Digits compare numerically and sort below other identifiers, these in ASCII order. -/
def identifierPrecedence (x y : List Char) : Ordering :=
  if digits x then
    if digits y then Ord.compare (digitsValue x) (digitsValue y) else .lt
  else if digits y then .gt else Ord.compare x y

/-- From left to right; a longer list wins if the common part is equal. -/
def prePrecedence : List (List Char) → List (List Char) → Ordering
  | [], [] => .eq
  | [], _ :: _ => .lt
  | _ :: _, [] => .gt
  | x :: xs, y :: ys => (identifierPrecedence x y).then (prePrecedence xs ys)

/-- A pre-release is below the release. -/
def releasePrecedence : List (List Char) → List (List Char) → Ordering
  | [], [] => .eq
  | [], _ :: _ => .gt
  | _ :: _, [] => .lt
  | xs, ys => prePrecedence xs ys

/-- Major, minor and patch compare numerically; build metadata is ignored. -/
def precedence (a b : Version) : Ordering :=
  (Ord.compare (a.core.map digitsValue) (b.core.map digitsValue)).then
    (releasePrecedence a.pre b.pre)

/-- A hyphen and digits, which `Atoi` takes for a number. -/
def signed (x : List Char) : Bool := x.head? = some '-' ∧ (atoi x).isSome

/-- The signed `x` is below `y` also in ASCII order, where `y` is not numeric. -/
def SignedBelow (x y : List Char) : Prop :=
  signed x ∧ ¬ digits y ∧ x < y ∧ ∀ n ∈ atoi x, ∀ m ∈ atoi y, n < m

def ReadBelow (x y : List Char) : Prop :=
  match atoi x, atoi y with
  | some n, some m => n < m
  | some _, none => True
  | none, some _ => False
  | none, none => x < y

def ReadAlike (x y : List Char) : Prop := atoi x = atoi y ∧ (atoi x = none → x = y)

def ReadBelowList : List (List Char) → List (List Char) → Prop
  | x :: xs, y :: ys => ReadBelow x y ∨ ReadAlike x y ∧ ReadBelowList xs ys
  | [], _ :: _ => True
  | _, [] => False

/-- The first identifiers that differ are not signed, or the sign does no harm: the order is
the same by chance, or both are read as one number (-01 and -1, or -0 and 0) and the
identifiers after them happen to be in the order of these two. -/
def Harmless : List (List Char) → List (List Char) → Prop
  | x :: xs, y :: ys =>
    if x = y then Harmless xs ys
    else ¬ (signed x ∨ signed y) ∨ SignedBelow x y ∨ SignedBelow y x ∨
      atoi x = atoi y ∧ (identifierPrecedence x y = .lt ∧ ReadBelowList xs ys ∨
        identifierPrecedence x y = .gt ∧ ReadBelowList ys xs)
  | _, _ => True

section cut
variable {sep : Char} {a b : List Char}

theorem cut_of_notMem (h : sep ∉ a) : cut sep a = (a, [], false) := by
  have hall : ∀ c ∈ a, (c != sep) = true := by
    intro c hc
    simpa using ne_of_mem_of_not_mem hc h
  rw [cut, List.span_eq_takeWhile_dropWhile, List.takeWhile_eq_self_iff.2 hall,
    List.dropWhile_eq_nil_iff.2 hall]

theorem cut_append (h : sep ∉ a) : cut sep (a ++ sep :: b) = (a, b, true) := by
  have hall : ∀ c ∈ a, (c != sep) = true := by
    intro c hc
    simpa using ne_of_mem_of_not_mem hc h
  rw [cut, List.span_eq_takeWhile_dropWhile, List.takeWhile_append_of_pos hall,
    List.dropWhile_append_of_pos hall]
  simp

end cut

section characters
variable {s : List Char} {c : Char}

theorem identifierChar_of_digit (h : c.isDigit) : identifierChar c := by
  simp [identifierChar, Char.isAlphanum, h]

theorem notMem_of_identifier (h : s.all identifierChar) (hc : identifierChar c = false) : c ∉ s := by
  intro hmem
  rw [List.all_eq_true.1 h c hmem] at hc
  cases hc

theorem identifier_of_digits (h : digits s) : s.all identifierChar :=
  List.all_eq_true.2 fun _ hc => identifierChar_of_digit (List.all_eq_true.1 h _ hc)

end characters

section numbers
variable {s x y : List Char}

theorem parseDigits_of_digits (hne : s ≠ []) (h : digits s) : parseDigits s = some (digitsValue s) :=
  if_pos ⟨hne, h⟩

theorem parseDigits_of_not_digits (h : ¬ digits s) : parseDigits s = none :=
  if_neg fun hs => h hs.2

theorem atoi_digits (hne : s ≠ []) (h : digits s) (hfits : digitsValue s ≤ maxInt) :
    atoi s = some (digitsValue s : ℤ) := by
  unfold atoi
  split
  · exact absurd (List.all_eq_true.1 h '-' List.mem_cons_self) (by decide)
  · exact absurd (List.all_eq_true.1 h '+' List.mem_cons_self) (by decide)
  · rw [parseDigits_of_digits hne h, Option.bind_some, if_pos hfits]

/-- Only a sign makes `Atoi` accept an identifier that is not numeric. -/
theorem atoi_alphanumeric (h : AlphanumericIdentifier s) (hs : signed s = false) : atoi s = none := by
  by_contra hsome
  obtain ⟨n, hn⟩ := Option.ne_none_iff_exists'.1 hsome
  unfold atoi at hn
  split at hn
  · simp [signed, hsome, Option.isSome_iff_ne_none] at hs
  · exact absurd (List.all_eq_true.1 h.1 '+' List.mem_cons_self) (by decide)
  · rw [parseDigits_of_not_digits h.2] at hn
    cases hn

def digitValue (c : Char) : ℕ := c.toNat - '0'.toNat

theorem digitValue_inj {c d : Char} (hc : c.isDigit) (hd : d.isDigit)
    (h : digitValue c = digitValue d) : c = d := by
  rw [Char.isDigit_iff_toNat] at hc hd
  unfold digitValue at h
  exact Char.toNat_inj.1 (by omega)

theorem digitsValue_eq (s : List Char) :
    digitsValue s = Nat.ofDigits 10 (s.map digitValue).reverse := by
  rw [Nat.ofDigits_eq_foldr, List.foldr_reverse, List.foldl_map, digitsValue]
  congr 1
  funext n c
  simp [digitValue, Nat.add_comm]

theorem digits_digitsValue (h : NumericIdentifier s) (hzero : s ≠ ['0']) :
    Nat.digits 10 (digitsValue s) = (s.map digitValue).reverse := by
  obtain ⟨hne, hdigits, hhead⟩ := h
  rw [digitsValue_eq]
  apply Nat.digits_ofDigits 10 (by decide)
  · intro d hd
    obtain ⟨c, hc, rfl⟩ := List.mem_map.1 (List.mem_reverse.1 hd)
    have hc := Char.isDigit_iff_toNat.1 (List.all_eq_true.1 hdigits c hc)
    change c.toNat - 48 < 10
    have : c.toNat ≤ 57 := hc.2
    omega
  · intro hne'
    cases s with
    | nil => exact absurd rfl hne
    | cons c t =>
      have hc : c.isDigit := List.all_eq_true.1 hdigits c List.mem_cons_self
      have hc0 : c ≠ '0' := by
        rintro rfl
        exact hzero (hhead rfl)
      intro hlast
      rw [List.getLast_reverse] at hlast
      change digitValue c = digitValue '0' at hlast
      exact hc0 (digitValue_inj hc (by decide) hlast)

theorem map_digitValue_inj (hx : digits x) (hy : digits y)
    (h : x.map digitValue = y.map digitValue) : x = y := by
  induction x generalizing y with
  | nil => exact (List.map_eq_nil_iff.1 h.symm).symm
  | cons c x ih =>
    cases y with
    | nil => cases h
    | cons d y =>
      rw [List.map_cons, List.map_cons, List.cons.injEq] at h
      simp only [digits, List.all_cons, Bool.and_eq_true] at hx hy
      rw [digitValue_inj hx.1 hy.1 h.1, ih hx.2 hy.2 h.2]

theorem digitsValue_inj (hx : NumericIdentifier x) (hy : NumericIdentifier y)
    (h : digitsValue x = digitsValue y) : x = y := by
  have hzero : ∀ s, NumericIdentifier s → digitsValue s = digitsValue ['0'] → s = ['0'] := by
    intro s hs heq
    by_contra hne
    have hdigits := digits_digitsValue hs hne
    rw [heq] at hdigits
    exact hs.1 (by simpa [digitsValue] using hdigits)
  by_cases hx0 : x = ['0']
  · subst hx0
    exact (hzero y hy h.symm).symm
  · have hy0 : y ≠ ['0'] := by
      rintro rfl
      exact hx0 (hzero x hx h)
    have hdigits := digits_digitsValue hx hx0
    rw [h, digits_digitsValue hy hy0] at hdigits
    exact map_digitValue_inj hx.2.1 hy.2.1 (List.reverse_injective hdigits.symm)

end numbers

def Identifier (s : List Char) : Prop :=
  (NumericIdentifier s ∨ AlphanumericIdentifier s) ∧ (digits s → digitsValue s ≤ maxInt)

section identifiers
variable {x y : List Char}

theorem Identifier.numeric (h : Identifier x) (hx : digits x) : NumericIdentifier x :=
  h.1.resolve_right fun halpha => halpha.2 hx

theorem Identifier.alphanumeric (h : Identifier x) (hx : ¬ digits x) : AlphanumericIdentifier x :=
  h.1.resolve_left fun hnumeric => hx hnumeric.2.1

theorem atoi_of_digits (h : Identifier x) (hx : digits x) : atoi x = some (digitsValue x : ℤ) :=
  atoi_digits (h.numeric hx).1 hx (h.2 hx)

theorem digits_of_unsigned (h : Identifier x) (hs : ¬ signed x) {n : ℤ} (hn : atoi x = some n) :
    digits x := by
  by_contra hx
  rw [atoi_alphanumeric (h.alphanumeric hx) (Bool.not_eq_true _ ▸ hs)] at hn
  cases hn

theorem not_digits_of_signed (hs : signed x) : ¬ digits x := by
  intro hx
  have hhead := (of_decide_eq_true hs).1
  have hmem := List.mem_of_mem_head? (Option.mem_def.2 hhead)
  exact absurd (List.all_eq_true.1 hx '-' hmem) (by decide)

theorem atoi_signed (hs : signed x) : ∃ n : ℤ, atoi x = some n ∧ n ≤ 0 := by
  obtain ⟨hhead, hsome⟩ := of_decide_eq_true hs
  obtain ⟨n, hn⟩ := Option.isSome_iff_exists.1 hsome
  refine ⟨n, hn, ?_⟩
  cases x with
  | nil => cases hhead
  | cons c t =>
    obtain rfl : c = '-' := Option.some.inj hhead
    simp only [atoi, Option.bind_eq_some_iff] at hn
    obtain ⟨k, -, hk⟩ := hn
    split_ifs at hk
    cases hk
    omega

theorem compare_natCast (n m : ℕ) : Ord.compare (n : ℤ) (m : ℤ) = Ord.compare n m := by
  rcases lt_trichotomy n m with h | rfl | h
  · rw [compare_lt_iff_lt.2 h, compare_lt_iff_lt.2 (Int.ofNat_lt.2 h)]
  · simp
  · rw [compare_gt_iff_gt.2 h, compare_gt_iff_gt.2 (Int.ofNat_lt.2 h)]

theorem identifierPrecedence_eq (hx : Identifier x) (hy : Identifier y) :
    identifierPrecedence x y = .eq ↔ x = y := by
  constructor
  · intro h
    unfold identifierPrecedence at h
    split_ifs at h with hdx hdy hdy
    · exact digitsValue_inj (hx.numeric hdx) (hy.numeric hdy) (Std.compare_eq_iff_eq.1 h)
    · exact Std.compare_eq_iff_eq.1 h
  · rintro rfl
    unfold identifierPrecedence
    split_ifs <;> simp

theorem identifierPrecedence_swap (x y : List Char) :
    identifierPrecedence y x = (identifierPrecedence x y).swap := by
  unfold identifierPrecedence
  split_ifs
  · exact Std.OrientedCmp.eq_swap
  · rfl
  · rfl
  · exact Std.OrientedCmp.eq_swap

theorem compareIdentifier_unsigned (hx : Identifier x) (hy : Identifier y) (hsx : ¬ signed x)
    (hsy : ¬ signed y) : compareIdentifier x y = identifierPrecedence x y := by
  have hread : ∀ s, Identifier s → ¬ signed s → ¬ digits s → atoi s = none := fun s h hs hd =>
    atoi_alphanumeric (h.alphanumeric hd) (Bool.not_eq_true _ ▸ hs)
  unfold compareIdentifier Comparators.keyedFirst identifierPrecedence
  by_cases hdx : digits x
  · by_cases hdy : digits y
    · rw [atoi_of_digits hx hdx, atoi_of_digits hy hdy, if_pos hdx, if_pos hdy]
      exact compare_natCast _ _
    · rw [atoi_of_digits hx hdx, hread y hy hsy hdy, if_pos hdx, if_neg hdy]
  · by_cases hdy : digits y
    · rw [hread x hx hsx hdx, atoi_of_digits hy hdy, if_neg hdx, if_pos hdy]
    · rw [hread x hx hsx hdx, hread y hy hsy hdy, if_neg hdx, if_neg hdy]

theorem compareIdentifier_lt : compareIdentifier x y = .lt ↔ ReadBelow x y := by
  unfold compareIdentifier Comparators.keyedFirst ReadBelow
  cases atoi x <;> cases atoi y <;> simp [compare_lt, compare_lt_iff_lt]

theorem compareIdentifier_gt : compareIdentifier x y = .gt ↔ ReadBelow y x := by
  rw [← compareIdentifier_lt, Std.OrientedCmp.gt_iff_lt]

theorem compareIdentifier_eq : compareIdentifier x y = .eq ↔ ReadAlike x y := by
  unfold compareIdentifier Comparators.keyedFirst ReadAlike
  cases atoi x <;> cases atoi y <;> simp

theorem not_signedBelow (h : ReadBelow x y) : ¬ SignedBelow y x := by
  rintro ⟨hs, -, -, hlt⟩
  obtain ⟨m, hm, -⟩ := atoi_signed hs
  unfold ReadBelow at h
  rw [hm] at h hlt
  cases hn : atoi x with
  | none => simp [hn] at h
  | some n =>
    simp only [hn, Option.mem_def, Option.some.injEq, forall_eq'] at h hlt
    omega

/-- Where a sign decides, it decides rightly only if the signed identifier is the lesser. -/
theorem identifierPrecedence_lt (hx : Identifier x) (hsigned : signed x ∨ signed y)
    (h : ReadBelow x y) : identifierPrecedence x y = .lt ↔ SignedBelow x y := by
  constructor
  · intro hlt
    have hsx : signed x := by
      by_contra hno
      obtain ⟨m, hm, hneg⟩ := atoi_signed (hsigned.resolve_left hno)
      unfold ReadBelow at h
      cases hn : atoi x with
      | none => simp [hn, hm] at h
      | some n =>
        have hread := atoi_of_digits hx (digits_of_unsigned hx hno hn)
        simp only [hn, Option.some.injEq] at hread
        simp only [hn, hm] at h
        omega
    have hdx := not_digits_of_signed hsx
    unfold identifierPrecedence at hlt
    rw [if_neg hdx] at hlt
    split_ifs at hlt with hdy
    refine ⟨hsx, hdy, (compare_lt x y).1 hlt, ?_⟩
    intro n hn m hm
    simpa [ReadBelow, Option.mem_def.1 hn, Option.mem_def.1 hm] using h
  · rintro ⟨hsx, hdy, hlt, -⟩
    unfold identifierPrecedence
    rw [if_neg (not_digits_of_signed hsx), if_neg hdy]
    exact (compare_lt x y).2 hlt

theorem not_signedBelow_alike (h : atoi x = atoi y) : ¬ SignedBelow x y := by
  rintro ⟨hs, -, -, hlt⟩
  obtain ⟨n, hn, -⟩ := atoi_signed hs
  exact lt_irrefl n (hlt n hn n (h ▸ hn))

theorem atoi_ne_of_readBelow (hsigned : signed x ∨ signed y) (h : ReadBelow x y) :
    atoi x ≠ atoi y := by
  intro heq
  have hsome : ∃ n, atoi y = some n := by
    rcases hsigned with hs | hs
    · obtain ⟨n, hn, -⟩ := atoi_signed hs
      exact ⟨n, heq ▸ hn⟩
    · obtain ⟨n, hn, -⟩ := atoi_signed hs
      exact ⟨n, hn⟩
  obtain ⟨n, hn⟩ := hsome
  simp [ReadBelow, heq, hn] at h

end identifiers

theorem readBelowList_iff (xs ys : List (List Char)) :
    List.compareLex compareIdentifier xs ys = .lt ↔ ReadBelowList xs ys := by
  induction xs generalizing ys with
  | nil => cases ys <;> simp [ReadBelowList, List.compareLex]
  | cons x xs ih =>
    cases ys with
    | nil => simp [ReadBelowList, List.compareLex]
    | cons y ys =>
      rw [List.compareLex_cons_cons, Ordering.then_eq_lt, compareIdentifier_lt, compareIdentifier_eq,
        ih, ReadBelowList]

theorem then_of_ne {o : Ordering} (h : o ≠ .eq) (o' : Ordering) : o.then o' = o := by
  cases o with
  | eq => exact absurd rfl h
  | lt | gt => rfl

theorem compare_signed {x y : List Char} (hx : Identifier x) (hy : Identifier y) (hxy : x ≠ y)
    (hsigned : signed x ∨ signed y) (xs ys : List (List Char)) :
    (compareIdentifier x y).then (List.compareLex compareIdentifier xs ys) =
        identifierPrecedence x y ↔
      SignedBelow x y ∨ SignedBelow y x ∨
        atoi x = atoi y ∧ (identifierPrecedence x y = .lt ∧ ReadBelowList xs ys ∨
          identifierPrecedence x y = .gt ∧ ReadBelowList ys xs) := by
  cases hc : compareIdentifier x y with
  | lt =>
    have hbelow := compareIdentifier_lt.1 hc
    simp only [not_signedBelow hbelow, atoi_ne_of_readBelow hsigned hbelow, false_and, or_false]
    rw [← identifierPrecedence_lt hx hsigned hbelow]
    exact eq_comm
  | gt =>
    have hbelow := compareIdentifier_gt.1 hc
    simp only [not_signedBelow hbelow, (atoi_ne_of_readBelow hsigned.symm hbelow).symm, false_and,
      or_false, false_or]
    rw [← identifierPrecedence_lt hy hsigned.symm hbelow, identifierPrecedence_swap x y,
      then_of_ne (by decide)]
    cases identifierPrecedence x y <;> decide
  | eq =>
    have halike := (compareIdentifier_eq.1 hc).1
    have hne := mt (identifierPrecedence_eq hx hy).1 hxy
    simp only [not_signedBelow_alike halike, not_signedBelow_alike halike.symm, halike, true_and,
      false_or, ← readBelowList_iff]
    have hswap : List.compareLex compareIdentifier ys xs =
        (List.compareLex compareIdentifier xs ys).swap := Std.OrientedCmp.eq_swap
    rw [hswap]
    revert hne
    cases identifierPrecedence x y <;> cases List.compareLex compareIdentifier xs ys <;> decide

theorem compareLex_harmless {xs ys : List (List Char)} (hxs : ∀ s ∈ xs, Identifier s)
    (hys : ∀ s ∈ ys, Identifier s) :
    List.compareLex compareIdentifier xs ys = prePrecedence xs ys ↔ Harmless xs ys := by
  induction xs generalizing ys with
  | nil => cases ys <;> simp [List.compareLex, prePrecedence, Harmless]
  | cons x xs ih =>
    cases ys with
    | nil => simp [List.compareLex, prePrecedence, Harmless]
    | cons y ys =>
      have hx := hxs x List.mem_cons_self
      have hy := hys y List.mem_cons_self
      rw [List.compareLex_cons_cons, prePrecedence, Harmless]
      by_cases hxy : x = y
      · subst hxy
        have hself : compareIdentifier x x = .eq := Std.ReflCmp.compare_self
        rw [if_pos rfl, hself, (identifierPrecedence_eq hx hx).2 rfl]
        exact ih (fun s hs => hxs s (List.mem_cons_of_mem _ hs))
          fun s hs => hys s (List.mem_cons_of_mem _ hs)
      · have hne := mt (identifierPrecedence_eq hx hy).1 hxy
        rw [if_neg hxy, then_of_ne hne]
        by_cases hsigned : signed x ∨ signed y
        · rw [compare_signed hx hy hxy hsigned]
          simp only [hsigned, not_true, false_or]
        · have hsame := compareIdentifier_unsigned hx hy (fun h => hsigned (.inl h))
            fun h => hsigned (.inr h)
          rw [hsame, then_of_ne hne]
          exact iff_of_true rfl (.inl hsigned)

section text
variable {v : Version} {s : String}

theorem core_digits (v : Version) {c : Char} (hc : c ∈ ['.'].intercalate v.core) :
    c = '.' ∨ c.isDigit := by
  rcases Netip.mem_intercalate hc with rfl | ⟨part, hpart, hmem⟩
  · exact .inl rfl
  · exact .inr (List.all_eq_true.1 (v.numeric part hpart).2.1 c hmem)

theorem suffix_cons (mark : Char) (x : List Char) (xs : List (List Char)) :
    Version.suffix mark (x :: xs) = mark :: ['.'].intercalate (x :: xs) := rfl

theorem pre_chars (v : Version) : ∀ x ∈ v.pre, x.all identifierChar := by
  intro x hx
  rcases v.identifiers x hx with h | h
  · exact identifier_of_digits h.2.1
  · exact h.1

theorem plus_notMem_pre (v : Version) : '+' ∉ ['.'].intercalate v.core ++ Version.suffix '-' v.pre := by
  intro h
  rcases List.mem_append.1 h with hcore | hpre
  · exact absurd (core_digits v hcore) (by decide)
  · have hids := pre_chars v
    cases hv : v.pre with
    | nil => simp [hv, Version.suffix] at hpre
    | cons x xs =>
      rw [hv, suffix_cons] at hpre
      rw [hv] at hids
      rcases List.mem_cons.1 hpre with h | hmem
      · exact absurd h (by decide)
      · rcases Netip.mem_intercalate hmem with h | ⟨part, hpart, hc⟩
        · exact absurd h (by decide)
        · exact notMem_of_identifier (hids part hpart) (by decide) hc

theorem text_head (v : Version) : ∃ c rest, v.text = c :: rest ∧ c.isDigit := by
  obtain ⟨hne, hdigits, -⟩ := v.numeric v.major (by simp)
  obtain ⟨c, t, hmajor⟩ := List.exists_cons_of_ne_nil hne
  refine ⟨c, _, by simp [Version.text, Version.core, hmajor, List.intercalate_cons_cons]; rfl, ?_⟩
  exact List.all_eq_true.1 hdigits c (hmajor ▸ List.mem_cons_self)

theorem trimPrefixV_spelled (h : Spells s v) : trimPrefixV s.toList = v.text := by
  rcases h with h | h
  · obtain ⟨c, rest, htext, hc⟩ := text_head v
    rw [h, htext]
    unfold trimPrefixV
    split
    · rename_i heq
      cases heq
      exact absurd hc (by decide)
    · rfl
  · rw [h]
    rfl

theorem cut_plus (v : Version) :
    (cut '+' v.text).1 = ['.'].intercalate v.core ++ Version.suffix '-' v.pre := by
  have hplus := plus_notMem_pre v
  unfold Version.text
  cases v.build with
  | nil =>
    rw [Version.suffix, List.append_nil, cut_of_notMem hplus]
  | cons b bs =>
    rw [suffix_cons, cut_append hplus]

theorem parsePart_numeric {x : List Char} (h : NumericIdentifier x) (hfits : digitsValue x ≤ maxInt) :
    parsePart x = some (digitsValue x : ℤ) := by
  have hlead : ¬ ((digitsValue x : ℤ) < 0 ∨ 1 < x.length ∧ x.head? = some '0') := by
    rintro (hneg | ⟨hlen, hzero⟩)
    · omega
    · rw [h.2.2 hzero] at hlen
      simp at hlen
  rw [parsePart, atoi_digits h.1 h.2.1 hfits, Option.bind_some, if_neg hlead]

theorem parseCore_core (hf : v.Fits) : parseCore (['.'].intercalate v.core) =
    some ![(digitsValue v.major : ℤ), digitsValue v.minor, digitsValue v.patch] := by
  have hpart : ∀ x ∈ v.core, parsePart x = some (digitsValue x : ℤ) := by
    intro x hx
    have hnumeric := v.numeric x hx
    exact parsePart_numeric hnumeric (hf x (List.mem_append_left _ hx) hnumeric.2.1)
  have hdot : ∀ x ∈ v.core, '.' ∉ x := fun x hx hmem =>
    absurd (List.all_eq_true.1 (v.numeric x hx).2.1 '.' hmem) (by decide)
  unfold parseCore
  rw [List.splitOn_intercalate '.' hdot (by simp [Version.core])]
  simp [Version.core, hpart v.major (by simp [Version.core]), hpart v.minor (by simp [Version.core]),
    hpart v.patch (by simp [Version.core])]

theorem parseVersion_spelled (h : Spells s v) (hf : v.Fits) : parseVersion s =
    some ⟨![(digitsValue v.major : ℤ), digitsValue v.minor, digitsValue v.patch], v.pre⟩ := by
  have hhyphen : '-' ∉ ['.'].intercalate v.core := fun hmem =>
    absurd (core_digits v hmem) (by decide)
  have hids := pre_chars v
  simp only [parseVersion, trimPrefixV_spelled h, cut_plus]
  cases hv : v.pre with
  | nil =>
    simp only [Version.suffix, List.append_nil, cut_of_notMem hhyphen]
    simp [parseCore_core hf]
  | cons x xs =>
    have hne : ['.'].intercalate (x :: xs) ≠ [] := by
      intro hnil
      have hx : x = [] := by
        cases xs with
        | nil => simpa using hnil
        | cons y ys => simp [List.intercalate_cons_cons] at hnil
      have hid := v.identifiers x (hv ▸ List.mem_cons_self)
      subst hx
      rcases hid with h | h
      · exact h.1 rfl
      · exact h.2 rfl
    have hdot : ∀ y ∈ x :: xs, '.' ∉ y := fun y hy =>
      notMem_of_identifier (hids y (hv ▸ hy)) (by decide)
    simp only [suffix_cons, cut_append hhyphen]
    simp [parseCore_core hf, hne, List.splitOn_intercalate '.' hdot]

end text

theorem comparePre_harmless {xs ys : List (List Char)} (hxs : ∀ s ∈ xs, Identifier s)
    (hys : ∀ s ∈ ys, Identifier s) :
    comparePre xs ys = releasePrecedence xs ys ↔ Harmless xs ys := by
  cases xs with
  | nil => cases ys <;> exact iff_of_true rfl trivial
  | cons x xs =>
    cases ys with
    | nil => exact iff_of_true rfl trivial
    | cons y ys => exact compareLex_harmless hxs hys

theorem core_inj {a b : Version} (h : a.core.map digitsValue = b.core.map digitsValue) :
    a.core = b.core := by
  simp only [Version.core, List.map_cons, List.map_nil, List.cons.injEq, and_true] at h
  have hmajor := digitsValue_inj (a.numeric a.major (by simp)) (b.numeric b.major (by simp)) h.1
  have hminor := digitsValue_inj (a.numeric a.minor (by simp)) (b.numeric b.minor (by simp)) h.2.1
  have hpatch := digitsValue_inj (a.numeric a.patch (by simp)) (b.numeric b.patch (by simp)) h.2.2
  rw [Version.core, hmajor, hminor, hpatch]
  rfl

theorem compare_map_natCast (xs ys : List ℕ) :
    Ord.compare (xs.map (Nat.cast : ℕ → ℤ)) (ys.map Nat.cast) = Ord.compare xs ys := by
  induction xs generalizing ys with
  | nil => cases ys <;> rfl
  | cons x xs ih =>
    cases ys with
    | nil => rfl
    | cons y ys =>
      rw [List.map_cons, List.map_cons, List.compare_cons_cons, List.compare_cons_cons,
        compare_natCast, ih]

theorem result_inj {o o' : Ordering} : result o = result o' ↔ o = o' := by
  cases o <;> cases o' <;> decide

theorem Version.Fits.identifier {v : Version} (h : v.Fits) : ∀ s ∈ v.pre, Identifier s :=
  fun s hs => ⟨v.identifiers s hs, h s (List.mem_append_right _ hs)⟩

/-- `parseVersion` accepts every version of the grammar, and `compare` returns the precedence
exactly if no identifier that looks like a negative number does harm. -/
theorem compare_precedence (a b : String) (va vb : Version) (ha : Spells a va) (hb : Spells b vb)
    (fa : va.Fits) (fb : vb.Fits) :
    ∃ pa pb, parseVersion a = some pa ∧ parseVersion b = some pb ∧
      (pa.compare pb = result (precedence va vb) ↔
        (va.core = vb.core → Harmless va.pre vb.pre)) := by
  refine ⟨_, _, parseVersion_spelled ha fa, parseVersion_spelled hb fb, ?_⟩
  have hcode : ∀ pa pb, parseVersion a = some pa → parseVersion b = some pb → Versions.compare pa pb =
      (Ord.compare (va.core.map digitsValue) (vb.core.map digitsValue)).then
        (comparePre va.pre vb.pre) := by
    intro pa pb hpa hpb
    rw [parseVersion_spelled ha fa] at hpa
    rw [parseVersion_spelled hb fb] at hpb
    cases hpa
    cases hpb
    rw [← compare_map_natCast]
    rfl
  rw [Semver.compare_eq, result_inj, hcode _ _ (parseVersion_spelled ha fa)
    (parseVersion_spelled hb fb), precedence]
  by_cases hcore : va.core = vb.core
  · have heq : Ord.compare (va.core.map digitsValue) (vb.core.map digitsValue) = .eq := by
      rw [hcore]
      exact Std.ReflOrd.compare_self
    rw [heq, forall_prop_of_true hcore]
    exact comparePre_harmless fa.identifier fb.identifier
  · have hne : Ord.compare (va.core.map digitsValue) (vb.core.map digitsValue) ≠ .eq :=
      fun h => hcore (core_inj (Std.compare_eq_iff_eq.1 h))
    rw [then_of_ne hne, then_of_ne hne]
    exact iff_of_true rfl fun h => absurd h hcore

def firstRelease (x : List Char) (h : NumericIdentifier x ∨ AlphanumericIdentifier x) : Version where
  major := ['1']
  minor := ['0']
  patch := ['0']
  pre := [x]
  build := []
  numeric := by decide +kernel
  identifiers := by simpa using h
  metadata := by simp

theorem compare_precedence_hyphen : ∃ pa pb, parseVersion "1.0.0-a-1" = some pa ∧
    parseVersion "v1.0.0-0" = some pb ∧ pa.compare pb = 1 := by
  obtain ⟨pa, pb, ha, hb, h⟩ := compare_precedence "1.0.0-a-1" "v1.0.0-0"
    (firstRelease ['a', '-', '1'] (by decide +kernel)) (firstRelease ['0'] (by decide +kernel))
    (by decide +kernel) (by decide +kernel) (by decide +kernel) (by decide +kernel)
  refine ⟨pa, pb, ha, hb, (h.2 fun _ => ?_).trans (by decide +kernel)⟩
  exact .inl (by decide +kernel)

/-- -1 is an alphanumeric identifier and above 0; `Atoi` reads it as a number below 0. -/
theorem signed_identifier_misplaced : ∃ va vb : Version, ∃ pa pb : Semver,
    Spells "1.0.0--1" va ∧ Spells "1.0.0-0" vb ∧ va.Fits ∧ vb.Fits ∧
      parseVersion "1.0.0--1" = some pa ∧ parseVersion "1.0.0-0" = some pb ∧
      precedence va vb = .gt ∧ pa.compare pb = -1 := by
  have ha : Spells "1.0.0--1" (firstRelease ['-', '1'] (by decide +kernel)) := by decide +kernel
  have hb : Spells "1.0.0-0" (firstRelease ['0'] (by decide +kernel)) := by decide +kernel
  refine ⟨_, _, _, _, ha, hb, by decide +kernel, by decide +kernel,
    parseVersion_spelled ha (by decide +kernel), parseVersion_spelled hb (by decide +kernel),
    by decide +kernel, by decide +kernel⟩

end Lotse.Versions
