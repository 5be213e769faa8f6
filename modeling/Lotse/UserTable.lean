import Lotse.Rows

set_option autoImplicit false

namespace Lotse.Users
open Rows

structure User where
  id : ℕ
  username : String
  role : String
  deriving DecidableEq

def roleRank : String → ℕ
  | "viewer" => 1
  | "operator" => 2
  | "admin" => 3
  | _ => 0

def validRole (role : String) : Bool := 0 < roleRank role

def roleIncludes (role need : String) : Bool := roleRank need ≤ roleRank role

/-- How `COLLATE NOCASE` compares usernames: letters of ASCII without their case. -/
def nocase (s : String) : List Char := s.toList.map Char.toLower

def admins (us : List User) : ℕ := us.countP fun u => u.role = "admin"

inductive CreateError where
  | unknownRole (role : String)
  | usernameTaken
  deriving DecidableEq

def createUser (us : List User) (username role : String) : Except CreateError (List User) :=
  if validRole role = false then .error (.unknownRole role)
  else if us.any fun u => nocase u.username = nocase username then .error .usernameTaken
  else .ok (us ++ [⟨nextId User.id us, username, role⟩])

inductive Change where
  | setRole (id : ℕ) (role : String)
  | deleteUser (id : ℕ)
  deriving DecidableEq

namespace Change

def id : Change → ℕ
  | setRole id _ => id
  | deleteUser id => id

/-- `SetRole` refuses an unknown role before its statement. -/
def valid : Change → Bool
  | setRole _ role => validRole role
  | deleteUser _ => true

def selects (us : List User) : Change → User → Bool
  | setRole id role, u => u.id = id && (role = "admin" || u.role ≠ "admin" || 1 < admins us)
  | deleteUser id, u => u.id = id && (u.role ≠ "admin" || 1 < admins us)

def apply (us : List User) (ch : Change) : List User :=
  match ch with
  | setRole _ role => us.map fun u => if ch.selects us u then { u with role := role } else u
  | deleteUser _ => us.filter fun u => ! ch.selects us u

def affected (us : List User) (ch : Change) : ℕ := us.countP (ch.selects us)

def demotes : Change → Bool
  | setRole _ role => validRole role && role ≠ "admin"
  | deleteUser _ => true

end Change

/-- The named account exists, is the only administrator, and the change takes that away. -/
def TakesLastAdmin (us : List User) (ch : Change) : Prop :=
  ∃ u ∈ us, u.id = ch.id ∧ u.role = "admin" ∧ admins us = 1 ∧ ch.demotes = true

instance (us : List User) (ch : Change) : Decidable (TakesLastAdmin us ch) :=
  inferInstanceAs (Decidable (∃ u ∈ us, _))

def Exists (us : List User) (id : ℕ) : Prop := ∃ u ∈ us, u.id = id

instance (us : List User) (id : ℕ) : Decidable (Exists us id) :=
  inferInstanceAs (Decidable (∃ u ∈ us, _))

structure UsersOk (us : List User) : Prop where
  ids : (us.map User.id).Nodup
  roles : ∀ u ∈ us, validRole u.role = true
  admin : us = [] ∨ ∃ u ∈ us, u.role = "admin"

section statements
variable {us us' : List User} {ch : Change} {u v : User} {username role : String}

theorem validRole_iff : validRole role = true ↔
    role = "viewer" ∨ role = "operator" ∨ role = "admin" := by
  simp only [validRole, decide_eq_true_eq]
  constructor
  · intro h
    unfold roleRank at h
    split at h
    · exact .inl rfl
    · exact .inr (.inl rfl)
    · exact .inr (.inr rfl)
    · omega
  · rintro (rfl | rfl | rfl) <;> decide

theorem admins_pos : 0 < admins us ↔ ∃ u ∈ us, u.role = "admin" := by
  simp [admins]

theorem exists_other_admin (hids : (us.map User.id).Nodup) (h : 1 < admins us) (id : ℕ) :
    ∃ v ∈ us, v.role = "admin" ∧ v.id ≠ id := by
  by_contra hnone
  push Not at hnone
  have hle : admins us ≤ us.countP fun u => u.id = id :=
    List.countP_mono_left fun u hu ha => by simpa using hnone u hu (by simpa using ha)
  have hcount : (us.countP fun u => u.id = id) = (us.map User.id).count id := by
    rw [List.count, List.countP_map]
    rfl
  have hone := List.nodup_iff_count_le_one.1 hids id
  omega

theorem id_of_selects (h : ch.selects us u = true) : u.id = ch.id := by
  cases ch <;> simp only [Change.selects, Bool.and_eq_true, decide_eq_true_eq] at h <;> exact h.1

theorem selects_admin (h : ch.selects us u = true) (ha : u.role = "admin") (hd : ch.demotes = true) :
    1 < admins us := by
  cases ch with
  | setRole id role =>
    simp only [Change.demotes, ne_eq, Bool.and_eq_true, decide_eq_true_eq] at hd
    simp only [Change.selects, ha, ne_eq, hd.2, not_true_eq_false, decide_false, Bool.false_or,
      Bool.and_eq_true, decide_eq_true_eq] at h
    exact h.2
  | deleteUser id =>
    simp only [Change.selects, ha, ne_eq, not_true_eq_false, decide_false, Bool.false_or,
      Bool.and_eq_true, decide_eq_true_eq] at h
    exact h.2

theorem selects_of_named (hid : u.id = ch.id)
    (h : ch.demotes = true → u.role = "admin" → 1 < admins us) (hvalid : ch.valid = true) :
    ch.selects us u = true := by
  cases ch with
  | setRole id role =>
    simp only [Change.demotes, Change.valid] at h hvalid
    simp only [Change.selects, Change.id] at hid ⊢
    by_cases hr : role = "admin"
    · simp [hid, hr]
    · by_cases ha : u.role = "admin"
      · simp [hid, h (by simp [hvalid, hr]) ha]
      · simp [hid, ha]
  | deleteUser id =>
    simp only [Change.selects, Change.id] at hid ⊢
    by_cases ha : u.role = "admin"
    · simp [hid, h rfl ha]
    · simp [hid, ha]

theorem not_selects_of_takesLast (hids : (us.map User.id).Nodup) (h : TakesLastAdmin us ch)
    (hu : u ∈ us) : ch.selects us u = false := by
  obtain ⟨v, hv, hid, ha, hone, hd⟩ := h
  by_contra hsel
  rw [Bool.not_eq_false] at hsel
  have huv : u = v := List.inj_on_of_nodup_map hids hu hv ((id_of_selects hsel).trans hid.symm)
  have := selects_admin hsel (huv ▸ ha) hd
  omega

theorem affected_eq_zero : ch.affected us = 0 ↔ ∀ u ∈ us, ch.selects us u = false := by
  simp [Change.affected, List.countP_eq_zero]

theorem takesLast_iff_exists (hvalid : ch.valid = true)
    (h : ch.affected us = 0) : TakesLastAdmin us ch ↔ Exists us ch.id := by
  rw [affected_eq_zero] at h
  constructor
  · rintro ⟨u, hu, hid, -⟩
    exact ⟨u, hu, hid⟩
  · rintro ⟨u, hu, hid⟩
    by_contra hnot
    refine Bool.eq_false_iff.1 (h u hu) (selects_of_named hid (fun hd ha => ?_) hvalid)
    by_contra hle
    have hpos : 0 < admins us := admins_pos.2 ⟨u, hu, ha⟩
    exact hnot ⟨u, hu, hid, ha, by omega, hd⟩

theorem affected_of_takesLast (hids : (us.map User.id).Nodup) (h : TakesLastAdmin us ch) :
    ch.affected us = 0 := affected_eq_zero.2 fun _ hu => not_selects_of_takesLast hids h hu

theorem apply_of_affected_eq_zero (h : ch.affected us = 0) : ch.apply us = us := by
  rw [affected_eq_zero] at h
  cases ch with
  | setRole id role =>
    have hsame : ∀ u ∈ us, (if (Change.setRole id role).selects us u then { u with role := role }
        else u) = u := fun u hu => by rw [h u hu]; rfl
    exact (List.map_congr_left hsame).trans (List.map_id us)
  | deleteUser id => exact List.filter_eq_self.2 fun u hu => by rw [h u hu]; rfl

theorem apply_ids (ch : Change) (us : List User) :
    ((ch.apply us).map User.id).Sublist (us.map User.id) := by
  cases ch with
  | setRole id role =>
    have hids : ∀ u : User, User.id (if (Change.setRole id role).selects us u then
        { u with role := role } else u) = u.id := fun u => by split_ifs <;> rfl
    rw [Change.apply, List.map_map]
    exact (List.map_congr_left fun u _ => hids u) ▸ List.Sublist.refl _
  | deleteUser id => exact (List.filter_sublist).map _

theorem mem_apply_of_not_selects (hu : u ∈ us) (h : ch.selects us u = false) : u ∈ ch.apply us := by
  cases ch with
  | setRole id role => exact List.mem_map.2 ⟨u, hu, by rw [h]; rfl⟩
  | deleteUser id => exact List.mem_filter.2 ⟨hu, by rw [h]; rfl⟩

theorem apply_role (hvalid : ch.valid = true) (h : ∀ u ∈ us, validRole u.role = true)
    (hv : v ∈ ch.apply us) : validRole v.role = true := by
  cases ch with
  | setRole id role =>
    obtain ⟨u, hu, rfl⟩ := List.mem_map.1 hv
    split_ifs
    · exact hvalid
    · exact h u hu
  | deleteUser id => exact h v (List.mem_filter.1 hv).1

theorem apply_admin_of_not_demotes (hvalid : ch.valid = true) (hd : ch.demotes = false)
    (hu : u ∈ us) (ha : u.role = "admin") : ∃ v ∈ ch.apply us, v.role = "admin" := by
  cases ch with
  | setRole id role =>
    have hrole : role = "admin" := by
      simpa [Change.demotes, show validRole role = true from hvalid] using hd
    refine ⟨_, List.mem_map.2 ⟨u, hu, rfl⟩, ?_⟩
    split_ifs
    · exact hrole
    · exact ha
  | deleteUser id => cases hd

theorem apply_admin (hids : (us.map User.id).Nodup) (hvalid : ch.valid = true)
    (h : ∃ u ∈ us, u.role = "admin") : ∃ v ∈ ch.apply us, v.role = "admin" := by
  obtain ⟨u, hu, ha⟩ := h
  cases hsel : ch.selects us u with
  | false => exact ⟨u, mem_apply_of_not_selects hu hsel, ha⟩
  | true =>
    cases hd : ch.demotes with
    | false => exact apply_admin_of_not_demotes hvalid hd hu ha
    | true =>
      obtain ⟨v, hv, hva, hne⟩ := exists_other_admin hids (selects_admin hsel ha hd) ch.id
      have hnot : ch.selects us v = false :=
        Bool.eq_false_iff.2 fun hs => hne (id_of_selects hs)
      exact ⟨v, mem_apply_of_not_selects hv hnot, hva⟩

theorem apply_nil (ch : Change) : ch.apply [] = [] := by
  cases ch <;> rfl

theorem UsersOk.apply (h : UsersOk us) (hvalid : ch.valid = true) : UsersOk (ch.apply us) where
  ids := h.ids.sublist (apply_ids ch us)
  roles _ hv := apply_role hvalid h.roles hv
  admin := by
    rcases h.admin with rfl | hadmin
    · exact .inl (apply_nil ch)
    · exact .inr (apply_admin h.ids hvalid hadmin)

theorem UsersOk.apply_ne_nil (h : UsersOk us) (hvalid : ch.valid = true) (hne : us ≠ []) :
    ch.apply us ≠ [] := by
  obtain ⟨v, hv, -⟩ := apply_admin h.ids hvalid (h.admin.resolve_left hne)
  exact List.ne_nil_of_mem hv

theorem createUser_ok (h : createUser us username role = .ok us') :
    validRole role = true ∧ us' = us ++ [⟨nextId User.id us, username, role⟩] := by
  unfold createUser at h
  split_ifs at h with hvalid htaken
  exact ⟨by simpa using hvalid, (Except.ok.inj h).symm⟩

theorem UsersOk.createUser (h : UsersOk us) (hcreate : Users.createUser us username role = .ok us')
    (hfirst : us ≠ [] ∨ role = "admin") : UsersOk us' := by
  obtain ⟨hvalid, rfl⟩ := createUser_ok hcreate
  refine ⟨nodup_append h.ids (lookup_nextId us), fun u hu => ?_, .inr ?_⟩
  · rcases List.mem_append.1 hu with hu | hu
    · exact h.roles u hu
    · rw [List.mem_singleton.1 hu]
      exact hvalid
  · rcases h.admin with hnil | ⟨u, hu, ha⟩
    · exact ⟨_, List.mem_append_right _ (List.mem_singleton_self _),
        hfirst.resolve_left (not_not_intro hnil)⟩
    · exact ⟨u, List.mem_append_left _ hu, ha⟩

theorem createUser_nil (username : String) :
    createUser [] username "admin" = .ok [⟨1, username, "admin"⟩] := rfl

end statements

end Lotse.Users
