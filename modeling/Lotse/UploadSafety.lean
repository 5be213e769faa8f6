import Lotse.FileUpload

set_option autoImplicit false

namespace Lotse.Upload
open FileTree

variable {env : Environment}

def target (env : Environment) (q : Request) (d : Disk) : Option Loc :=
  (namedPath q.path).bind fun p => (locate env.limit d.node p.1 p.2).toOption

/-- Without `overwrite` an entry stays as it is; the path holds its old entry or the whole body;
and nothing else is left behind, unless the connection is lost or the removal fails. -/
structure Safe (env : Environment) (q : Request) (d : Disk) : Prop where
  kept : q.overwrite ≠ "1" → ∀ loc, target env q d = some loc → d.node loc ≠ none →
    (putFile env q d).session.disk.node loc = d.node loc
  whole : ∀ loc, target env q d = some loc →
    (putFile env q d).session.disk.node loc = d.node loc ∨
      ∃ f, (putFile env q d).session.disk.node loc = some (.file f) ∧ f.data = q.body
  clean : (putFile env q d).session.connected → env.remove = .served →
    ∀ loc, target env q d ≠ some loc → (putFile env q d).session.disk.node loc = d.node loc

/-- `Stat` gives an error, for which `putFile` takes the path to be free. -/
def StatFails (env : Environment) (d : Disk) (dir : List Name) (base : Name) : Prop :=
  (∃ e, env.stat = .refused e) ∨
    (env.stat = .served ∧ ∃ f, statInfo env.limit d.node dir base = .error f)

/-- There is an entry at the path that `Stat` does not report, such as a link without a target,
and all that follows up to the rename is served. -/
def Overlooked (env : Environment) (q : Request) (d : Disk) : Prop :=
  ∃ dir base parent, namedPath q.path = some (dir, base) ∧
    folder env.limit d.node dir = .ok parent ∧ d.node (parent ++ [base]) ≠ none ∧
    StatFails env d dir base ∧ Completes env q ⟨d, true⟩ parent base

theorem Request.content_eq (q : Request) : q.content = q.body := by
  unfold Request.content
  split_ifs with h
  · apply List.take_of_length_le
    have hlength := q.announced h
    omega
  · rfl

theorem stat_cases (env : Environment) (d : Disk) (dir : List Name) (base : Name) :
    (∃ info, stat env dir base ⟨d, true⟩ = (.ok info, ⟨d, true⟩)) ∨
    (∃ e, stat env dir base ⟨d, true⟩ = (.error e, ⟨d, true⟩) ∧ StatFails env d dir base) ∨
    (∃ e, stat env dir base ⟨d, true⟩ = (.error e, ⟨d, false⟩)) := by
  cases hstat : env.stat with
  | served =>
    cases hinfo : statInfo env.limit d.node dir base with
    | ok info => exact Or.inl ⟨info, by simp [stat, hstat, hinfo]⟩
    | error f =>
      exact Or.inr (Or.inl ⟨_, by simp [stat, hstat, hinfo]; rfl, Or.inr ⟨hstat, f, hinfo⟩⟩)
  | refused e => exact Or.inr (Or.inl ⟨e, by simp [stat, hstat], Or.inl ⟨e, hstat⟩⟩)
  | lost performed => exact Or.inr (Or.inr ⟨env.lostErr, by simp [stat, hstat]⟩)

theorem stat_of_fails {d : Disk} {dir : List Name} {base : Name} (h : StatFails env d dir base) :
    ∃ e, stat env dir base ⟨d, true⟩ = (.error e, ⟨d, true⟩) := by
  rcases h with ⟨e, hstat⟩ | ⟨hstat, f, hinfo⟩
  · exact ⟨e, by simp [stat, hstat]⟩
  · exact ⟨_, by simp [stat, hstat, hinfo]; rfl⟩

theorem target_eq_some_iff {q : Request} {d : Disk} {loc : Loc} :
    target env q d = some loc ↔ ∃ dir base parent, namedPath q.path = some (dir, base) ∧
      folder env.limit d.node dir = .ok parent ∧ loc = parent ++ [base] := by
  unfold target
  cases hpath : namedPath q.path with
  | none => simp
  | some p =>
    obtain ⟨dir, base⟩ := p
    simp [FileTree.locate]
    cases folder env.limit d.node dir with
    | error e => simp [Except.map, Except.toOption]
    | ok parent => simp [Except.map, Except.toOption, eq_comm]

theorem putFile_ends (env : Environment) (d : Disk) {q : Request} {dir : List Name} {base : Name}
    (hpath : namedPath q.path = some (dir, base)) :
    ∃ s, s.disk = d ∧ Ends env q dir base s (putFile env q d).session := by
  unfold putFile
  simp only [hpath]
  rcases stat_cases env d dir base with ⟨info, hstat⟩ | ⟨e, hstat, -⟩ | ⟨e, hstat⟩
  · refine ⟨⟨d, true⟩, rfl, ?_⟩
    simp only [hstat]
    cases info with
    | dir => exact .unchanged rfl
    | file f =>
      simp only
      split_ifs
      · exact upload_ends env q dir base (some f) _
      · exact .unchanged rfl
  · simp only [hstat]
    exact ⟨_, rfl, upload_ends env q dir base none ⟨d, true⟩⟩
  · simp only [hstat]
    exact ⟨_, rfl, upload_ends env q dir base none ⟨d, false⟩⟩

theorem putFile_whole {q : Request} {d : Disk} {loc : Loc} (h : target env q d = some loc) :
    (putFile env q d).session.disk.node loc = d.node loc ∨
      ∃ f, (putFile env q d).session.disk.node loc = some (.file f) ∧ f.data = q.body := by
  obtain ⟨dir, base, parent, hpath, hdir, rfl⟩ := target_eq_some_iff.1 h
  obtain ⟨s, rfl, hends⟩ := putFile_ends env d hpath
  cases hends with
  | unchanged hnode => exact Or.inl (by rw [hnode])
  | left parent' f hdir' hup _ =>
    rw [hdir, Except.ok.injEq] at hdir'
    subst hdir'
    exact Or.inl (hup.other _ (by simpa using (tmpName_ne base env.token).symm))
  | replaced parent' f hdir' hrep hdata _ =>
    rw [hdir, Except.ok.injEq] at hdir'
    subst hdir'
    exact Or.inr ⟨f, hrep.file, hdata.trans q.content_eq⟩

theorem putFile_clean {q : Request} {d : Disk} {loc : Loc}
    (hc : (putFile env q d).session.connected) (hremove : env.remove = .served)
    (h : target env q d ≠ some loc) :
    (putFile env q d).session.disk.node loc = d.node loc := by
  cases hpath : namedPath q.path with
  | none => simp [putFile, hpath]
  | some p =>
    obtain ⟨dir, base⟩ := p
    obtain ⟨s, rfl, hends⟩ := putFile_ends env d hpath
    cases hends with
    | unchanged hnode => rw [hnode]
    | left parent f hdir hup hleft => exact absurd hremove (hleft hc)
    | replaced parent f hdir hrep hdata _ =>
      apply hrep.other
      rintro rfl
      exact h (target_eq_some_iff.2 ⟨dir, base, parent, hpath, hdir, rfl⟩)

/-- An entry is only replaced without `overwrite` if it was overlooked. -/
theorem putFile_kept {q : Request} {d : Disk} {loc : Loc} (hover : q.overwrite ≠ "1")
    (hseen : ¬ Overlooked env q d) (h : target env q d = some loc) (hentry : d.node loc ≠ none) :
    (putFile env q d).session.disk.node loc = d.node loc := by
  obtain ⟨dir, base, parent, hpath, hdir, rfl⟩ := target_eq_some_iff.1 h
  -- what the upload leaves at the path after a `Stat` that failed
  have hupload : ∀ s : Session, s.disk = d → ¬ Completes env q s parent base →
      (upload env q dir base none s).session.disk.node (parent ++ [base]) =
        d.node (parent ++ [base]) := by
    rintro s rfl hnot
    cases upload_ends env q dir base none s with
    | unchanged hnode => rw [hnode]
    | left parent' f hdir' hup _ =>
      rw [hdir, Except.ok.injEq] at hdir'
      subst hdir'
      exact hup.other _ (by simpa using (tmpName_ne base env.token).symm)
    | replaced parent' f hdir' hrep hdata hcompletes =>
      rw [hdir, Except.ok.injEq] at hdir'
      subst hdir'
      exact absurd hcompletes hnot
  unfold putFile
  simp only [hpath]
  rcases stat_cases env d dir base with ⟨info, hstat⟩ | ⟨e, hstat, hfails⟩ | ⟨e, hstat⟩
  · simp only [hstat]
    cases info with
    | dir => rfl
    | file f => simp only [if_neg hover]
  · simp only [hstat]
    apply hupload _ rfl
    intro hcompletes
    exact hseen ⟨dir, base, parent, hpath, hdir, hentry, hfails, hcompletes⟩
  · simp only [hstat]
    apply hupload _ rfl
    intro hcompletes
    exact absurd hcompletes.connected (by simp)

theorem putFile_overlooked {q : Request} {d : Disk} (h : Overlooked env q d) :
    ∃ loc, target env q d = some loc ∧ d.node loc ≠ none ∧
      (putFile env q d).session.disk.node loc ≠ d.node loc := by
  obtain ⟨dir, base, parent, hpath, hdir, hentry, hfails, hcompletes⟩ := h
  obtain ⟨e, hstat⟩ := stat_of_fails hfails
  obtain ⟨f, hfile, hinode⟩ := upload_replaces hdir hcompletes
  refine ⟨parent ++ [base], target_eq_some_iff.2 ⟨dir, base, parent, hpath, hdir, rfl⟩, hentry, ?_⟩
  intro hkept
  have hput : putFile env q d = upload env q dir base none ⟨d, true⟩ := by
    simp [putFile, hpath, hstat]
  rw [hput, hfile] at hkept
  have hold := d.fresh _ f hkept.symm
  simp only at hinode
  omega

/-- Uploads replace only what they were told to and never leave half a file, exactly if no
entry is overlooked. -/
theorem putFile_safe_iff (env : Environment) (q : Request) (d : Disk) :
    Safe env q d ↔ q.overwrite = "1" ∨ ¬ Overlooked env q d := by
  constructor
  · intro h
    by_cases hover : q.overwrite = "1"
    · exact Or.inl hover
    · right
      intro hlooked
      obtain ⟨loc, htarget, hentry, hchanged⟩ := putFile_overlooked hlooked
      exact hchanged (h.kept hover loc htarget hentry)
  · intro h
    constructor
    · intro hover loc htarget hentry
      exact putFile_kept hover (h.resolve_left hover) htarget hentry
    · intro loc htarget
      exact putFile_whole htarget
    · intro hc hremove loc hloc
      exact putFile_clean hc hremove hloc

def obliging : Environment where
  limit := 40
  mode := 0o644
  uid := 0
  gid := 0
  errorOf _ := .status "sftp: failure"
  lostErr := .other "connection lost"
  stat := .served
  openFile := .served
  write := .served
  stored := []
  close := .served
  chmod := .served
  chown := .served
  posixRename := .served
  rename := .served
  remove := .served
  token := "AAAAAAAA".toList

/-- `/l` is a link to `/gone`, which is not there. -/
def dangling : Disk where
  node loc := if loc = [['l']] then some (.link true ["gone".toList]) else none
  next := 0
  fresh := by
    intro loc f h
    split_ifs at h
    cases h

def plainUpload : Request where
  path := "/l"
  overwrite := ""
  contentLength := 1
  body := [7]
  failure := none
  announced _ := rfl

/-- The upload without `overwrite` replaces the link and reports success. -/
theorem dangling_link_is_replaced :
    (putFile obliging plainUpload dangling).reply = ⟨204, ""⟩ ∧
      dangling.node [['l']] = some (.link true ["gone".toList]) ∧
      (putFile obliging plainUpload dangling).session.disk.node [['l']] =
        some (.file ⟨0, 0o644, 0, 0, [7]⟩) ∧
      ¬ Safe obliging plainUpload dangling := by
  have hreplaced : (putFile obliging plainUpload dangling).session.disk.node [['l']] =
      some (.file ⟨0, 0o644, 0, 0, [7]⟩) := by decide +kernel
  refine ⟨by decide +kernel, by decide +kernel, hreplaced, ?_⟩
  intro h
  have hkept := h.kept (by decide) [['l']] (by decide +kernel) (by decide +kernel)
  rw [hreplaced] at hkept
  revert hkept
  decide +kernel

end Lotse.Upload
