import Mathlib.Tactic

set_option autoImplicit false

namespace Lotse.Posix

/-- A character of a word. A quoted one stands for itself. -/
structure Glyph where
  char : Char
  quoted : Bool
  deriving DecidableEq

inductive Token where
  | word (w : List Glyph)
  | operator (op : List Char)
  deriving DecidableEq

def Token.bare (s : String) : Token := .word (s.toList.map (⟨·, false⟩))

def Token.quoted (s : String) : Token := .word (s.toList.map (⟨·, true⟩))

inductive Mode where
  /-- Outside of quotes; `none` is between two words, which differs from the empty word. -/
  | word (w : Option (List Glyph))
  | escape (w : List Glyph)
  | single (w : List Glyph)
  | double (w : List Glyph)
  | doubleEscape (w : List Glyph)
  | operator (op : List Char)
  | comment
  deriving DecidableEq

def operators : List (List Char) :=
  ["&", "&&", "|", "||", ";", ";;", "<", "<&", "<>", ">", ">>", ">&", ">|", "(", ")",
    "\n"].map String.toList

def expands (c : Char) : Bool := c.toNat = 0x24 || c.toNat = 0x60

def emit : Option (List Glyph) → List Token
  | none => []
  | some w => [.word w]

/-- A character outside of quotes. Expansions are not read: they give `none`. -/
def stepWord (w : Option (List Glyph)) (c : Char) : Option (List Token × Mode) :=
  if c = ' ' ∨ c = '\t' then some (emit w, .word none)
  else if [c] ∈ operators then some (emit w, .operator [c])
  else if c = '#' ∧ w = none then some ([], .comment)
  else if expands c then none
  else if c = '\x27' then some ([], .single (w.getD []))
  else if c = '\x22' then some ([], .double (w.getD []))
  else if c = '\x5c' then some ([], .escape (w.getD []))
  else some ([], .word (some (w.getD [] ++ [⟨c, false⟩])))

/-- One character. Line continuations and here-documents are not read either. -/
def step : Mode → Char → Option (List Token × Mode)
  | .word w, c => stepWord w c
  | .escape w, c => if c = '\n' then none else some ([], .word (some (w ++ [⟨c, true⟩])))
  | .single w, c =>
    if c = '\x27' then some ([], .word (some w)) else some ([], .single (w ++ [⟨c, true⟩]))
  | .double w, c =>
    if c = '\x22' then some ([], .word (some w))
    else if c = '\x5c' then some ([], .doubleEscape w)
    else if expands c then none
    else some ([], .double (w ++ [⟨c, true⟩]))
  | .doubleEscape w, c =>
    if c = '\n' then none
    else if expands c ∨ c = '\x22' ∨ c = '\x5c' then some ([], .double (w ++ [⟨c, true⟩]))
    else some ([], .double (w ++ [⟨'\x5c', true⟩, ⟨c, true⟩]))
  | .operator op, c =>
    if op ++ [c] ∈ operators then some ([], .operator (op ++ [c]))
    else if op = ['<'] ∧ c = '<' then none
    else (stepWord none c).map fun r => (.operator op :: r.1, r.2)
  | .comment, c => if c = '\n' then some ([], .operator ['\n']) else some ([], .comment)

def run : Mode → List Char → Option (List Token × Mode)
  | m, [] => some ([], m)
  | m, c :: cs => do
    let (ts, m₁) ← step m c
    let (us, m₂) ← run m₁ cs
    some (ts ++ us, m₂)

/-- The end of the line; inside quotes the shell would wait for more. -/
def finish : Mode → Option (List Token)
  | .word w => some (emit w)
  | .operator op => some [.operator op]
  | .comment => some []
  | _ => none

def read (s : String) : Option (List Token) := do
  let (ts, m) ← run (.word none) s.toList
  let us ← finish m
  some (ts ++ us)

/-- From `m` the text is read as the tokens and leaves the mode `m'`. -/
def Reads (m : Mode) (cs : List Char) (ts : List Token) (m' : Mode) : Prop :=
  run m cs = some (ts, m')

instance (m m' : Mode) (cs : List Char) (ts : List Token) : Decidable (Reads m cs ts m') :=
  inferInstanceAs (Decidable (run m cs = some (ts, m')))

theorem Reads.append {m m₁ m₂ : Mode} {cs ds : List Char} {ts us : List Token}
    (h : Reads m cs ts m₁) (h' : Reads m₁ ds us m₂) : Reads m (cs ++ ds) (ts ++ us) m₂ := by
  unfold Reads at h h' ⊢
  induction cs generalizing m ts with
  | nil =>
    simp only [run, Option.some.injEq, Prod.mk.injEq] at h
    obtain ⟨rfl, rfl⟩ := h
    exact h'
  | cons c cs ih =>
    simp only [List.cons_append, run, Option.bind_eq_bind, Option.bind_eq_some_iff] at h ⊢
    obtain ⟨⟨ts₁, m'⟩, hstep, ⟨ts₂, m''⟩, hrun, heq⟩ := h
    simp only [Option.some.injEq, Prod.mk.injEq] at heq
    obtain ⟨rfl, rfl⟩ := heq
    exact ⟨_, hstep, _, ih hrun, by simp⟩

theorem Reads.cons {m m₁ m₂ : Mode} {c : Char} {cs : List Char} {us : List Token}
    (h : step m c = some ([], m₁)) (h' : Reads m₁ cs us m₂) : Reads m (c :: cs) us m₂ := by
  unfold Reads at h' ⊢
  simp [run, h, h']

theorem Reads.read {s : String} {ts us : List Token} {m : Mode}
    (h : Reads (.word none) s.toList ts m) (hend : finish m = some us) :
    read s = some (ts ++ us) := by
  unfold Reads at h
  simp [Posix.read, h, hend]

theorem reads_blank (w : List Glyph) : Reads (.word (some w)) [' '] [.word w] (.word none) := rfl

theorem reads_single (w : List Glyph) (s : List Char) :
    Reads (.single w) (s.flatMap fun c => if c = '\x27' then "'\\''".toList else [c]) []
      (.single (w ++ s.map (⟨·, true⟩))) := by
  induction s generalizing w with
  | nil => simp [Reads, run]
  | cons c s ih =>
    rw [List.flatMap_cons, List.map_cons, List.append_cons]
    have hfirst : Reads (.single w) (if c = '\x27' then "'\\''".toList else [c]) []
        (.single (w ++ [⟨c, true⟩])) := by
      by_cases hc : c = '\x27'
      · subst hc
        rfl
      · rw [if_neg hc]
        exact Reads.cons (by simp [step, hc]) rfl
    exact hfirst.append (ih _)

end Lotse.Posix

namespace Lotse.PowerShell

/-- The characters that open and close a single-quoted literal. -/
def isQuote (c : Char) : Bool :=
  c = '\x27' || c.toNat = 0x2018 || c.toNat = 0x2019 || c.toNat = 0x201a || c.toNat = 0x201b

def Straight (s : String) : Prop := ∀ c ∈ s.toList, isQuote c → c = '\x27'

/-- What two quotes in a row stand for inside a literal. -/
structure Rules where
  pair : Char → Char → Char
  isQuote_pair : ∀ a b, isQuote a → isQuote b → isQuote (pair a b)
  pair_apostrophe : pair '\x27' '\x27' = '\x27'

/-- A command line cut at its literals. -/
inductive Piece where
  | code (cs : List Char)
  | literal (cs : List Char)
  deriving DecidableEq

inductive Mode where
  | code (cs : List Char)
  | inside (cs : List Char)
  /-- After a quote inside a literal, which ends it unless another quote follows. -/
  | closing (cs : List Char) (quote : Char)
  deriving DecidableEq

def emit (cs : List Char) : List Piece := if cs = [] then [] else [.code cs]

def step (R : Rules) : Mode → Char → List Piece × Mode
  | .code cs, c => if isQuote c then (emit cs, .inside []) else ([], .code (cs ++ [c]))
  | .inside cs, c => if isQuote c then ([], .closing cs c) else ([], .inside (cs ++ [c]))
  | .closing cs q, c =>
    if isQuote c then ([], .inside (cs ++ [R.pair q c])) else ([.literal cs], .code [c])

def run (R : Rules) : Mode → List Char → List Piece × Mode
  | m, [] => ([], m)
  | m, c :: cs =>
    let r := step R m c
    let r' := run R r.2 cs
    (r.1 ++ r'.1, r'.2)

def finish : Mode → Option (List Piece)
  | .code cs => some (emit cs)
  | .inside _ => none
  | .closing cs _ => some [.literal cs]

def read (R : Rules) (s : String) : Option (List Piece) :=
  (finish (run R (.code []) s.toList).2).map ((run R (.code []) s.toList).1 ++ ·)

variable (R : Rules)

def Reads (m : Mode) (cs : List Char) (ps : List Piece) (m' : Mode) : Prop :=
  run R m cs = (ps, m')

variable {R}

theorem Reads.append {m m₁ m₂ : Mode} {cs ds : List Char} {ps qs : List Piece}
    (h : Reads R m cs ps m₁) (h' : Reads R m₁ ds qs m₂) : Reads R m (cs ++ ds) (ps ++ qs) m₂ := by
  unfold Reads at h h' ⊢
  induction cs generalizing m ps with
  | nil =>
    simp only [run, Prod.mk.injEq] at h
    obtain ⟨rfl, rfl⟩ := h
    exact h'
  | cons c cs ih =>
    simp only [run, Prod.mk.injEq] at h
    obtain ⟨rfl, hlast⟩ := h
    simp [run, ih (Prod.ext rfl hlast)]

theorem Reads.read {s : String} {ps qs : List Piece} {m : Mode} (h : Reads R (.code []) s.toList ps m)
    (hend : finish m = some qs) : read R s = some (ps ++ qs) := by
  unfold Reads at h
  simp [PowerShell.read, h, hend]

variable (R)

theorem reads_code (cs ds : List Char) (h : ∀ c ∈ ds, isQuote c = false) :
    Reads R (.code cs) ds [] (.code (cs ++ ds)) := by
  unfold Reads
  induction ds generalizing cs with
  | nil => simp [run]
  | cons d ds ih =>
    have hd := h d List.mem_cons_self
    have htail : ∀ c ∈ ds, isQuote c = false := fun c hc => h c (List.mem_cons_of_mem d hc)
    simp [run, step, hd, ih _ htail]

theorem reads_closing (cs : List Char) (q : Char) (ds : List Char) (hne : ds ≠ [])
    (h : ∀ c ∈ ds, isQuote c = false) : Reads R (.closing cs q) ds [.literal cs] (.code ds) := by
  cases ds with
  | nil => exact absurd rfl hne
  | cons d ds =>
    have hd := h d List.mem_cons_self
    have htail : ∀ c ∈ ds, isQuote c = false := fun c hc => h c (List.mem_cons_of_mem d hc)
    have hfirst : Reads R (.closing cs q) [d] [.literal cs] (.code [d]) := by
      simp [Reads, run, step, hd]
    exact hfirst.append (reads_code R [d] ds htail)

theorem reads_inside (cs s : List Char) (h : ∀ c ∈ s, isQuote c → c = '\x27') :
    Reads R (.inside cs) (s.flatMap fun c => if c = '\x27' then "''".toList else [c]) []
      (.inside (cs ++ s)) := by
  induction s generalizing cs with
  | nil => simp [Reads, run]
  | cons c s ih =>
    have htail : ∀ c ∈ s, isQuote c → c = '\x27' := fun d hd => h d (List.mem_cons_of_mem c hd)
    have hfirst : Reads R (.inside cs) (if c = '\x27' then "''".toList else [c]) []
        (.inside (cs ++ [c])) := by
      by_cases hc : c = '\x27'
      · subst hc
        rw [if_pos rfl, ← R.pair_apostrophe]
        rfl
      · have hquote : isQuote c = false := by
          by_contra hq
          exact hc (h c List.mem_cons_self (by simpa using hq))
        simp [Reads, run, step, hc, hquote]
    rw [List.flatMap_cons, List.append_cons]
    exact hfirst.append (ih _ htail)

def quotes (cs : List Char) : ℕ := cs.countP isQuote

def Piece.length : Piece → ℕ
  | .code cs => cs.length
  | .literal cs => 2 + cs.length + quotes cs

def Mode.length : Mode → ℕ
  | .code cs => cs.length
  | .inside cs => 1 + cs.length + quotes cs
  | .closing cs _ => 2 + cs.length + quotes cs

def Mode.Sound : Mode → Prop
  | .closing _ q => isQuote q
  | _ => True

def lengths (ps : List Piece) : ℕ := (ps.map Piece.length).sum

theorem lengths_append (ps qs : List Piece) : lengths (ps ++ qs) = lengths ps + lengths qs := by
  simp [lengths]

theorem lengths_emit (cs : List Char) : lengths (emit cs) = cs.length := by
  unfold emit
  split_ifs with h
  · subst h
    rfl
  · simp [lengths, Piece.length]

theorem quotes_concat (cs : List Char) (c : Char) :
    quotes (cs ++ [c]) = quotes cs + if isQuote c then 1 else 0 := by
  simp [quotes, List.countP_append, List.countP_cons]

theorem step_length (m : Mode) (c : Char) (h : m.Sound) :
    m.length + 1 = lengths (step R m c).1 + (step R m c).2.length ∧ (step R m c).2.Sound := by
  cases m with
  | code cs =>
    by_cases hc : isQuote c
    · simp [step, hc, Mode.length, Mode.Sound, lengths_emit, quotes]
    · simp [step, hc, Mode.length, Mode.Sound, lengths]
  | inside cs =>
    by_cases hc : isQuote c
    · simp [step, hc, Mode.length, Mode.Sound, lengths]
      omega
    · simp [step, hc, Mode.length, Mode.Sound, lengths, quotes_concat]
      omega
  | closing cs q =>
    by_cases hc : isQuote c
    · have hpair := R.isQuote_pair q c h hc
      simp [step, hc, Mode.length, Mode.Sound, lengths, quotes_concat, hpair]
      omega
    · simp [step, hc, Mode.length, Mode.Sound, lengths, Piece.length]

theorem run_length (m : Mode) (cs : List Char) (h : m.Sound) :
    m.length + cs.length = lengths (run R m cs).1 + (run R m cs).2.length := by
  induction cs generalizing m with
  | nil => simp [run, lengths]
  | cons c cs ih =>
    obtain ⟨hstep, hsound⟩ := step_length R m c h
    have htail := ih _ hsound
    simp only [run, lengths_append, List.length_cons]
    omega

/-- The quotes that a reading shows account for the length of what was read. -/
theorem length_of_read {s : String} {ps : List Piece} (h : read R s = some ps) :
    s.toList.length = lengths ps := by
  have hrun := run_length R (.code []) s.toList trivial
  unfold read at h
  generalize run R (.code []) s.toList = r at h hrun
  obtain ⟨qs, m⟩ := r
  rw [Option.map_eq_some_iff] at h
  obtain ⟨last, hlast, rfl⟩ := h
  have hm : m.length = lengths last := by
    cases m with
    | code cs =>
      simp only [finish, Option.some.injEq] at hlast
      rw [← hlast, lengths_emit, Mode.length]
    | inside cs => cases hlast
    | closing cs q =>
      simp only [finish, Option.some.injEq] at hlast
      rw [← hlast]
      simp [lengths, Mode.length, Piece.length]
  rw [lengths_append, ← hm]
  simpa [Mode.length] using hrun

end Lotse.PowerShell
