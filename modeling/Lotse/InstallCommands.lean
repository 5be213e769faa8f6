import Mathlib.Data.List.TakeWhile
import Lotse.ShellQuoting

set_option autoImplicit false

namespace Lotse.Install
open PowerShell (Rules Piece Straight isQuote quotes)

inductive OS where
  | linux
  | darwin
  | windows
  deriving DecidableEq

/-- `strings.ReplaceAll` for an `old` of one character. -/
def replaceAll (s : String) (old : Char) (new : String) : String :=
  String.ofList (s.toList.flatMap fun c => if c = old then new.toList else [c])

def sh (s : String) : String := "'" ++ replaceAll s '\x27' "'\\''" ++ "'"

def ps (s : String) : String := "'" ++ replaceAll s '\x27' "''" ++ "'"

def installCommands (hubURL hubKey token : String) (allowShell : Bool) : OS → String :=
  let unix := "curl -fsSL " ++ sh (hubURL ++ "/install.sh") ++ " | sudo sh -s -- --hub " ++
    sh hubURL ++ " --key " ++ sh hubKey ++ " --token " ++ sh token
  let win := "& ([scriptblock]::Create((irm " ++ ps (hubURL ++ "/install.ps1") ++ "))) -Hub " ++
    ps hubURL ++ " -Key " ++ ps hubKey ++ " -Token " ++ ps token
  let unix := if allowShell then unix ++ " --allow-shell" else unix
  let win := if allowShell then win ++ " -AllowShell" else win
  fun
    | .linux => unix
    | .darwin => unix
    | .windows => win

structure Enrollment where
  hubKey : String
  token : String

/-- The white space and the line terminators of JavaScript. -/
def isJsSpace (c : Char) : Bool :=
  c.toNat ∈ [0x09, 0x0a, 0x0b, 0x0c, 0x0d, 0x20, 0xa0, 0x1680, 0x2028, 0x2029, 0x202f, 0x205f,
    0x3000, 0xfeff] || (0x2000 ≤ c.toNat && c.toNat ≤ 0x200a)

def trimEnd (p : Char → Bool) (cs : List Char) : List Char := (cs.reverse.dropWhile p).reverse

/-- `hubUrl.trim().replace(/\/+$/, '')` -/
def base (hubUrl : String) : String :=
  String.ofList (trimEnd (· = '/') (trimEnd isJsSpace (hubUrl.toList.dropWhile isJsSpace)))

def command (enrollment : Option Enrollment) (os : OS) (allowShell : Bool) (hubUrl : String) :
    String :=
  match enrollment with
  | none => ""
  | some e =>
    match os with
    | .windows =>
      let flag := if allowShell then " -AllowShell" else ""
      "& ([scriptblock]::Create((irm " ++ ps (base hubUrl ++ "/install.ps1") ++ "))) -Hub " ++
        ps (base hubUrl) ++ " -Key " ++ ps e.hubKey ++ " -Token " ++ ps e.token ++ flag
    | .linux | .darwin =>
      let flag := if allowShell then " --allow-shell" else ""
      "curl -fsSL " ++ sh (base hubUrl ++ "/install.sh") ++ " | sudo sh -s -- --hub " ++
        sh (base hubUrl) ++ " --key " ++ sh e.hubKey ++ " --token " ++ sh e.token ++ flag

def unixWords (hubURL hubKey token : String) (allowShell : Bool) : List Posix.Token :=
  [.bare "curl", .bare "-fsSL", .quoted (hubURL ++ "/install.sh"), .operator ['|'],
    .bare "sudo", .bare "sh", .bare "-s", .bare "--", .bare "--hub", .quoted hubURL,
    .bare "--key", .quoted hubKey, .bare "--token", .quoted token] ++
    if allowShell then [.bare "--allow-shell"] else []

def winPieces (hubURL hubKey token : String) (allowShell : Bool) : List Piece :=
  [.code "& ([scriptblock]::Create((irm ".toList, .literal (hubURL ++ "/install.ps1").toList,
    .code "))) -Hub ".toList, .literal hubURL.toList, .code " -Key ".toList,
    .literal hubKey.toList, .code " -Token ".toList, .literal token.toList] ++
    if allowShell then [.code " -AllowShell".toList] else []

structure ReadAsMeant (R : Rules) (hubURL hubKey token : String) (allowShell : Bool) : Prop where
  unix : ∀ os, os ≠ .windows → Posix.read (installCommands hubURL hubKey token allowShell os) =
    some (unixWords hubURL hubKey token allowShell)
  win : PowerShell.read R (installCommands hubURL hubKey token allowShell .windows) =
    some (winPieces hubURL hubKey token allowShell)
  webUnix : ∀ os, os ≠ .windows → Posix.read (command (some ⟨hubKey, token⟩) os allowShell hubURL) =
    some (unixWords (base hubURL) hubKey token allowShell)
  webWin : PowerShell.read R (command (some ⟨hubKey, token⟩) .windows allowShell hubURL) =
    some (winPieces (base hubURL) hubKey token allowShell)

theorem append_flag (s flag : String) (allowShell : Bool) :
    (if allowShell then s ++ flag else s) = s ++ (if allowShell then flag else "") := by
  cases allowShell with
  | false => rw [if_neg Bool.false_ne_true, if_neg Bool.false_ne_true, String.append_empty]
  | true => rw [if_pos rfl, if_pos rfl]

theorem installCommands_unix (hubURL hubKey token : String) (allowShell : Bool) {os : OS}
    (hos : os ≠ .windows) :
    installCommands hubURL hubKey token allowShell os =
      "curl -fsSL " ++ sh (hubURL ++ "/install.sh") ++ " | sudo sh -s -- --hub " ++ sh hubURL ++
        " --key " ++ sh hubKey ++ " --token " ++ sh token ++
        (if allowShell then " --allow-shell" else "") := by
  cases os with
  | windows => exact absurd rfl hos
  | _ =>
    rw [← append_flag]
    rfl

theorem installCommands_windows (hubURL hubKey token : String) (allowShell : Bool) :
    installCommands hubURL hubKey token allowShell .windows =
      "& ([scriptblock]::Create((irm " ++ ps (hubURL ++ "/install.ps1") ++ "))) -Hub " ++
        ps hubURL ++ " -Key " ++ ps hubKey ++ " -Token " ++ ps token ++
        (if allowShell then " -AllowShell" else "") := by
  rw [← append_flag]
  rfl

/-- The page builds the commands of the hub for the address without the blanks around it
and the slashes at its end. -/
theorem command_eq (e : Enrollment) (os : OS) (allowShell : Bool) (hubUrl : String) :
    command (some e) os allowShell hubUrl =
      installCommands (base hubUrl) e.hubKey e.token allowShell os := by
  cases os with
  | windows => exact (installCommands_windows ..).symm
  | linux => exact (installCommands_unix _ _ _ _ (by decide)).symm
  | darwin => exact (installCommands_unix _ _ _ _ (by decide)).symm

theorem toList_sh (s : String) :
    (sh s).toList = ['\x27'] ++ ((s.toList.flatMap fun c => if c = '\x27' then "'\\''".toList
      else [c]) ++ ['\x27']) := by
  rw [sh, replaceAll, String.toList_append, String.toList_append, String.toList_ofList,
    String.toList_ofList, List.append_assoc]

theorem reads_sh (s : String) :
    Posix.Reads (.word none) (sh s).toList [] (.word (some (s.toList.map (⟨·, true⟩)))) := by
  have hopen : Posix.Reads (.word none) ['\x27'] [] (.single []) := rfl
  have hclose : Posix.Reads (.single (s.toList.map (⟨·, true⟩))) ['\x27'] []
    (.word (some (s.toList.map (⟨·, true⟩)))) := rfl
  rw [toList_sh]
  exact hopen.append ((Posix.reads_single [] s.toList).append hclose)

theorem reads_sh_append (s : String) {fixed text : String} {ts : List Posix.Token}
    (hfixed : fixed.toList = ' ' :: text.toList)
    (h : Posix.Reads (.word none) text.toList ts (.word none)) :
    Posix.Reads (.word none) ((sh s).toList ++ fixed.toList) (.quoted s :: ts) (.word none) := by
  rw [hfixed]
  exact (reads_sh s).append ((Posix.reads_blank _).append h)

theorem read_unix (hubURL hubKey token : String) (allowShell : Bool) (os : OS)
    (hos : os ≠ .windows) :
    Posix.read (installCommands hubURL hubKey token allowShell os) =
      some (unixWords hubURL hubKey token allowShell) := by
  have hcurl : Posix.Reads (.word none) "curl -fsSL ".toList [.bare "curl", .bare "-fsSL"]
    (.word none) := by decide +kernel
  have hurl := reads_sh_append (hubURL ++ "/install.sh")
    (show " | sudo sh -s -- --hub ".toList = ' ' :: "| sudo sh -s -- --hub ".toList by decide +kernel)
    (show Posix.Reads _ _ [.operator ['|'], .bare "sudo", .bare "sh", .bare "-s", .bare "--",
      .bare "--hub"] _ by decide +kernel)
  have hhub := reads_sh_append hubURL
    (show " --key ".toList = ' ' :: "--key ".toList by decide +kernel)
    (show Posix.Reads _ _ [.bare "--key"] _ by decide +kernel)
  have hkey := reads_sh_append hubKey
    (show " --token ".toList = ' ' :: "--token ".toList by decide +kernel)
    (show Posix.Reads _ _ [.bare "--token"] _ by decide +kernel)
  -- the command up to its last string, whose word is still open
  have hreads := hcurl.append (hurl.append (hhub.append (hkey.append (reads_sh token))))
  rw [installCommands_unix hubURL hubKey token allowShell hos]
  cases allowShell with
  | false =>
    simp only [← String.toList_append, ← String.append_assoc] at hreads
    rw [if_neg (by decide), String.append_empty]
    exact hreads.read rfl
  | true =>
    have hflag : Posix.Reads (.word none) "--allow-shell".toList []
      (.word (some ("--allow-shell".toList.map (⟨·, false⟩)))) := by decide +kernel
    have hblank : [' '] ++ "--allow-shell".toList = " --allow-shell".toList := by decide +kernel
    have hall := hreads.append ((Posix.reads_blank _).append hflag)
    rw [hblank] at hall
    simp only [← String.toList_append, ← String.append_assoc] at hall
    exact hall.read rfl

theorem toList_ps (s : String) :
    (ps s).toList = ['\x27'] ++ ((s.toList.flatMap fun c => if c = '\x27' then "''".toList
      else [c]) ++ ['\x27']) := by
  rw [ps, replaceAll, String.toList_append, String.toList_append, String.toList_ofList,
    String.toList_ofList, List.append_assoc]

variable (R : Rules)

theorem reads_ps (cs : List Char) (hcs : cs ≠ []) {s : String} (h : Straight s) :
    PowerShell.Reads R (.code cs) (ps s).toList [.code cs] (.closing s.toList '\x27') := by
  have hopen : PowerShell.Reads R (.code cs) ['\x27'] [.code cs] (.inside []) := by
    simp [PowerShell.Reads, PowerShell.run, PowerShell.step, PowerShell.emit, hcs, isQuote]
  have hclose : PowerShell.Reads R (.inside s.toList) ['\x27'] [] (.closing s.toList '\x27') := rfl
  rw [toList_ps]
  exact hopen.append ((PowerShell.reads_inside R [] s.toList h).append hclose)

theorem isQuote_fixed {fixed : String} (h : fixed.toList.all (!isQuote ·)) :
    ∀ c ∈ fixed.toList, isQuote c = false := by
  intro c hc
  simpa using List.all_eq_true.1 h c hc

theorem reads_fixed_ps (cs : List Char) (fixed : String) {s : String} (hne : fixed.toList ≠ [])
    (hfixed : fixed.toList.all (!isQuote ·)) (h : Straight s) :
    PowerShell.Reads R (.closing cs '\x27') (fixed.toList ++ (ps s).toList)
      [.literal cs, .code fixed.toList] (.closing s.toList '\x27') :=
  (PowerShell.reads_closing R cs _ _ hne (isQuote_fixed hfixed)).append (reads_ps R _ hne h)

theorem straight_script {s : String} (h : Straight s) : Straight (s ++ "/install.ps1") := by
  intro c hc hq
  rw [String.toList_append, List.mem_append] at hc
  rcases hc with hc | hc
  · exact h c hc hq
  · rw [isQuote_fixed (by decide +kernel) c hc] at hq
    cases hq

theorem read_windows {hubURL hubKey token : String} (allowShell : Bool) (hurl : Straight hubURL)
    (hkey : Straight hubKey) (htoken : Straight token) :
    PowerShell.read R (installCommands hubURL hubKey token allowShell .windows) =
      some (winPieces hubURL hubKey token allowShell) := by
  have hstart := PowerShell.reads_code R [] "& ([scriptblock]::Create((irm ".toList
    (isQuote_fixed (by decide +kernel))
  have hscript := reads_ps R "& ([scriptblock]::Create((irm ".toList (by decide)
    (straight_script hurl)
  have hreads := hstart.append (hscript.append
    ((reads_fixed_ps R _ "))) -Hub " (by decide) (by decide +kernel) hurl).append
      ((reads_fixed_ps R _ " -Key " (by decide) (by decide +kernel) hkey).append
        (reads_fixed_ps R _ " -Token " (by decide) (by decide +kernel) htoken))))
  rw [installCommands_windows]
  cases allowShell with
  | false =>
    simp only [← String.toList_append, ← String.append_assoc] at hreads
    rw [if_neg (by decide), String.append_empty]
    exact hreads.read rfl
  | true =>
    have hflag := PowerShell.reads_closing R token.toList '\x27' " -AllowShell".toList
      (by decide) (isQuote_fixed (by decide +kernel))
    have hall := hreads.append hflag
    simp only [← String.toList_append, ← String.append_assoc] at hall
    exact hall.read rfl

def apostrophes (s : String) : ℕ := s.toList.count '\x27'

theorem length_ps (s : String) : (ps s).toList.length = 2 + s.toList.length + apostrophes s := by
  have hbody : ∀ cs : List Char, (cs.flatMap fun c => if c = '\x27' then "''".toList
      else [c]).length = cs.length + cs.count '\x27' := by
    intro cs
    induction cs with
    | nil => rfl
    | cons c cs ih =>
      rw [List.flatMap_cons, List.length_append, ih]
      by_cases hc : c = '\x27'
      · subst hc
        simp
        omega
      · simp [hc]
        omega
  rw [toList_ps, List.length_append, List.length_append, hbody, apostrophes]
  simp
  omega

def curly (s : String) : ℕ := s.toList.countP fun c => isQuote c && c != '\x27'

theorem quotes_eq (s : String) : quotes s.toList = apostrophes s + curly s := by
  unfold quotes apostrophes curly
  induction s.toList with
  | nil => rfl
  | cons c cs ih =>
    by_cases hc : c = '\x27'
    · subst hc
      simp [ih, isQuote]
      omega
    · simp [List.countP_cons, ih, hc]
      omega

theorem straight_iff (s : String) : Straight s ↔ curly s = 0 := by
  simp [Straight, curly, List.countP_eq_zero]

/-- The reading shows how many quotes the strings have, the text was written for the
apostrophes alone. -/
theorem straight_of_read {hubURL hubKey token : String} {allowShell : Bool}
    (h : PowerShell.read R (installCommands hubURL hubKey token allowShell .windows) =
      some (winPieces hubURL hubKey token allowShell)) :
    Straight hubURL ∧ Straight hubKey ∧ Straight token := by
  have hlength := PowerShell.length_of_read R h
  have hscript := quotes_eq (hubURL ++ "/install.ps1")
  have hurl := quotes_eq hubURL
  have hkey := quotes_eq hubKey
  have htoken := quotes_eq token
  rw [installCommands_windows] at hlength
  rw [straight_iff, straight_iff, straight_iff]
  simp only [winPieces, PowerShell.lengths, PowerShell.Piece.length,
    String.toList_append, List.length_append, length_ps, List.map_cons, List.map_append,
    List.sum_cons, List.sum_append, List.map_nil, List.sum_nil] at hlength hscript
  cases allowShell with
  | false =>
    simp only [Bool.false_eq_true, if_false, List.map_nil, List.sum_nil, String.toList_empty,
      List.length_nil] at hlength
    omega
  | true =>
    simp only [if_true, List.map_cons, List.sum_cons, List.map_nil, List.sum_nil,
      PowerShell.Piece.length] at hlength
    omega

theorem mem_dropWhile_iff {p : Char → Bool} {c : Char} (hc : p c = false) (cs : List Char) :
    c ∈ cs.dropWhile p ↔ c ∈ cs := by
  conv_rhs => rw [← List.takeWhile_append_dropWhile (p := p) (l := cs), List.mem_append]
  have htake : c ∉ cs.takeWhile p := by
    intro h
    rw [List.mem_takeWhile_imp h] at hc
    cases hc
  simp [htake]

theorem mem_trimEnd_iff {p : Char → Bool} {c : Char} (hc : p c = false) (cs : List Char) :
    c ∈ trimEnd p cs ↔ c ∈ cs := by
  simp [trimEnd, mem_dropWhile_iff hc]

theorem not_trimmed {c : Char} (hc : isQuote c) : isJsSpace c = false ∧ decide (c = '/') = false := by
  have hcode : c.toNat = 0x27 ∨ c.toNat = 0x2018 ∨ c.toNat = 0x2019 ∨ c.toNat = 0x201a ∨
      c.toNat = 0x201b := by
    simp only [isQuote, Bool.or_eq_true, decide_eq_true_eq] at hc
    rcases hc with (((rfl | hc) | hc) | hc) | hc
    · exact Or.inl rfl
    all_goals simp [hc]
  have hslash : c ≠ '/' := by
    rintro rfl
    revert hcode
    decide
  rcases hcode with h | h | h | h | h <;> simp [isJsSpace, h, hslash]

theorem straight_base (s : String) : Straight (base s) ↔ Straight s := by
  have hmem : ∀ c, isQuote c → (c ∈ (base s).toList ↔ c ∈ s.toList) := by
    intro c hc
    obtain ⟨hspace, hslash⟩ := not_trimmed hc
    rw [base, String.toList_ofList, mem_trimEnd_iff hslash, mem_trimEnd_iff hspace,
      mem_dropWhile_iff hspace]
  constructor
  · intro h c hc hq
    exact h c ((hmem c hq).2 hc) hq
  · intro h c hc hq
    exact h c ((hmem c hq).1 hc) hq

/-- The shells read the commands as they are meant exactly for strings without other quotes
than apostrophes. -/
theorem readAsMeant_iff (R : Rules) (hubURL hubKey token : String) (allowShell : Bool) :
    ReadAsMeant R hubURL hubKey token allowShell ↔
      Straight hubURL ∧ Straight hubKey ∧ Straight token := by
  constructor
  · intro h
    exact straight_of_read R h.win
  · rintro ⟨hurl, hkey, htoken⟩
    have hbase : Straight (base hubURL) := (straight_base hubURL).2 hurl
    constructor
    · intro os hos
      exact read_unix hubURL hubKey token allowShell os hos
    · exact read_windows R allowShell hurl hkey htoken
    · intro os hos
      rw [command_eq]
      exact read_unix (base hubURL) hubKey token allowShell os hos
    · rw [command_eq]
      exact read_windows R allowShell hbase hkey htoken

/-- PowerShell's own choice: the second of two quotes is kept. -/
def secondQuote : Rules where
  pair _ b := b
  isQuote_pair _ _ _ h := h
  pair_apostrophe := rfl

/-- An address with typographic apostrophes ends its literal and runs what follows. -/
theorem curly_quote_runs_code :
    PowerShell.read secondQuote
        (installCommands "https://hub\u2019; whoami; \u2019" "k" "t" false .windows) =
      some [.code "& ([scriptblock]::Create((irm ".toList, .literal "https://hub".toList,
        .code "; whoami; ".toList, .literal "/install.ps1".toList, .code "))) -Hub ".toList,
        .literal "https://hub".toList, .code "; whoami; ".toList, .literal [],
        .code " -Key ".toList, .literal ['k'], .code " -Token ".toList, .literal ['t']] ∧
      ¬ ReadAsMeant secondQuote "https://hub\u2019; whoami; \u2019" "k" "t" false := by
  refine and_iff_left_of_imp ?_ |>.2 (by decide +kernel)
  intro hread h
  have hpieces := hread.symm.trans h.win
  revert hpieces
  decide +kernel

end Lotse.Install
