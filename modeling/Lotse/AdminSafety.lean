import Lotse.AdminMachine
import Lotse.Exclusion

set_option autoImplicit false

namespace Lotse.Admins
open Tasks Users

def Instr.inside : Instr → Bool
  | .countUsers _ => true
  | .createAdmin _ => true
  | .unlockSetup => true
  | _ => false

def Outside (t : List Instr) : Prop := ∀ i ∈ t, i.inside = false

/-- What a task inside the mutex still has to do; a table that was counted as empty is empty
until its account is created. -/
def Inside (us : List User) (t : List Instr) : Prop := ∃ rest, Outside rest ∧
  ((∃ c, t = .countUsers c :: .unlockSetup :: rest) ∨
    (∃ c, t = .createAdmin c :: .unlockSetup :: rest ∧ us = []) ∨ t = .unlockSetup :: rest)

/-- What a task knows: an administrator has asked for a new account; a statement that
affected no row has left the table as it was. -/
def InstrOk (us : List User) : Instr → Prop
  | .createUser _ _ => us ≠ []
  | .lastAdminCheck ch before after =>
    after = before ∧ (TakesLastAdmin before ch ↔ Exists before ch.id)
  | _ => True

def Call.Kept (call : Call) : Prop := TakesLastAdmin call.before call.change → call.after = call.before

section outside
variable {g g' : State} {ins : Instr} {code : List Instr}

inductive Effect (g : State) (ins : Instr) : State → List Instr → Prop where
  | quiet {g' : State} {code : List Instr} (users : g'.users = g.users)
      (setupMu : g'.setupMu = g.setupMu) (setups : g'.setups = g.setups)
      (calls : g'.calls = g.calls) (outside : Outside code) (ok : ∀ i ∈ code, InstrOk g.users i) :
      Effect g ins g' code
  | create {username role : String} {g' : State} (use : ins = .createUser username role)
      (users : Users.createUser g.users username role = .ok g'.users)
      (setupMu : g'.setupMu = g.setupMu) (setups : g'.setups = g.setups)
      (calls : g'.calls = g.calls) : Effect g ins g' []
  | change {ch : Change} {g' : State} (valid : ch.valid = true)
      (affected : ch.affected g.users ≠ 0) (users : g'.users = ch.apply g.users)
      (setupMu : g'.setupMu = g.setupMu) (setups : g'.setups = g.setups)
      (calls : g'.calls = ⟨ch, g.users, ch.apply g.users, .ok⟩ :: g.calls) : Effect g ins g' []
  | unknown {ch : Change} {g' : State} (invalid : ch.valid = false) (users : g'.users = g.users)
      (setupMu : g'.setupMu = g.setupMu) (setups : g'.setups = g.setups)
      (calls : g'.calls = ⟨ch, g.users, g.users, .unknownRole⟩ :: g.calls) : Effect g ins g' []
  | answer {ch : Change} {before after : List User} {g' : State}
      (use : ins = .lastAdminCheck ch before after) (users : g'.users = g.users)
      (setupMu : g'.setupMu = g.setupMu) (setups : g'.setups = g.setups)
      (calls : g'.calls = ⟨ch, before, after,
        if Exists g.users ch.id then .lastAdmin else .notFound⟩ :: g.calls) : Effect g ins g' []

abbrev Does (g : State) (ins : Instr) (out : Outcome State Instr) : Prop :=
  Effect g ins out.global out.code

theorem does_refuse (status : ℕ) (message : String) : Does g ins (refuse g status message) :=
  .quiet rfl rfl rfl rfl (fun _ hi => (List.not_mem_nil hi).elim)
    fun _ hi => (List.not_mem_nil hi).elim

theorem does_next {i : Instr} (hout : i.inside = false) (hok : InstrOk g.users i) :
    Does g ins (.next g [i]) :=
  .quiet rfl rfl rfl rfl (fun _ hj => List.mem_singleton.1 hj ▸ hout)
    fun _ hj => List.mem_singleton.1 hj ▸ hok

theorem does_postSetup (g : State) (body : Option Credentials) :
    Does g (.postSetup body) (postSetup g body) := by
  cases body with
  | none => exact does_refuse _ _
  | some c =>
    rw [postSetup]
    cases c.validate with
    | error message => exact does_refuse _ _
    | ok c => exact does_next rfl trivial

theorem does_postUser {s : Caller} {body : Option (Credentials × String)} (hne : g.users ≠ []) :
    Does g ins (postUser g s body) := by
  cases body with
  | none => exact does_refuse _ _
  | some b =>
    rw [postUser]
    cases b.1.validate with
    | error message => split_ifs <;> exact does_refuse _ _
    | ok c =>
      simp only
      split_ifs
      · exact does_refuse _ _
      · exact does_refuse _ _
      · exact does_next rfl hne

theorem does_requireAdmin (g : State) (s : Option Caller) (r : AdminRequest) :
    Does g (.requireAdmin s r) (requireAdmin g s r) := by
  cases s with
  | none => exact does_refuse _ _
  | some s =>
    simp only [requireAdmin]
    cases hu : g.user s.userID with
    | none => exact does_refuse _ _
    | some u =>
      have hne : g.users ≠ [] := List.ne_nil_of_mem (Rows.lookup_mem hu)
      simp only
      split_ifs
      · exact does_refuse _ _
      · cases r with
        | postUser body => exact does_postUser hne
        | patchUser id role => exact does_next rfl trivial
        | deleteUser id => exact does_next rfl trivial

theorem does_createUser (g : State) (username role : String) :
    Does g (.createUser username role) (createUser g username role) := by
  rw [createUser]
  cases hc : Users.createUser g.users username role with
  | error e =>
    cases e with
    | usernameTaken => exact does_refuse _ _
    | unknownRole r => exact does_refuse _ _
  | ok us => exact .create rfl hc rfl rfl rfl

theorem does_lookupPatch (s : Caller) (id : ℕ) (role : Option String) :
    Does g ins (lookupPatch g s id role) := by
  rw [lookupPatch]
  cases g.user id with
  | none => exact does_refuse _ _
  | some u =>
    cases role with
    | none => exact does_refuse _ _
    | some role =>
      simp only
      split_ifs
      · exact does_refuse _ _
      · exact does_refuse _ _
      · exact does_next rfl trivial
      · exact .quiet rfl rfl rfl rfl (fun _ hi => (List.not_mem_nil hi).elim)
          fun _ hi => (List.not_mem_nil hi).elim

theorem does_lookupDelete (s : Caller) (id : ℕ) : Does g ins (lookupDelete g s id) := by
  rw [lookupDelete]
  cases g.user id with
  | none => exact does_refuse _ _
  | some u =>
    simp only
    split_ifs
    · exact does_refuse _ _
    · exact does_refuse _ _
    · exact does_next rfl trivial

theorem does_change (g : State) (ch : Change) : Does g (.change ch) (change g ch) := by
  rw [change]
  split_ifs with hvalid hzero
  · exact .unknown hvalid rfl rfl rfl rfl
  · rw [Bool.not_eq_false] at hvalid
    have hsame : ch.apply g.users = g.users := apply_of_affected_eq_zero hzero
    refine .quiet hsame rfl rfl rfl ?_ ?_
    · intro i hi
      rw [List.mem_singleton.1 hi]
      rfl
    · intro i hi
      rw [List.mem_singleton.1 hi]
      exact ⟨hsame, takesLast_iff_exists hvalid hzero⟩
  · exact .change (by simpa using hvalid) hzero rfl rfl rfl rfl

theorem exists_iff_user {us : List User} {id : ℕ} :
    Exists us id ↔ (Rows.lookup User.id id us).isSome = true := Rows.lookup_isSome.symm

theorem does_lastAdminCheck (g : State) (ch : Change) (before after : List User) :
    Does g (.lastAdminCheck ch before after) (lastAdminCheck g ch before after) := by
  rw [lastAdminCheck]
  cases hu : g.user ch.id with
  | none =>
    have hno : ¬ Exists g.users ch.id := fun h => by
      rw [exists_iff_user, ← State.user, hu] at h
      cases h
    exact .answer rfl rfl rfl rfl (by rw [if_neg hno]; rfl)
  | some u =>
    have hyes : Exists g.users ch.id := by
      rw [exists_iff_user, ← State.user, hu]
      rfl
    exact .answer rfl rfl rfl rfl (by rw [if_pos hyes]; rfl)

theorem atomic_effect {out : Outcome State Instr} (hout : ins.inside = false)
    (hlock : ∀ c, ins ≠ .lockSetup c) (h : atomic () g ins = some out) : Does g ins out := by
  cases ins with
  | postSetup body =>
    cases h
    exact does_postSetup g body
  | lockSetup c => exact (hlock c rfl).elim
  | countUsers c => cases hout
  | createAdmin c => cases hout
  | unlockSetup => cases hout
  | requireAdmin s r =>
    cases h
    exact does_requireAdmin g s r
  | createUser username role =>
    cases h
    exact does_createUser g username role
  | lookupPatch s id role =>
    cases h
    exact does_lookupPatch s id role
  | lookupDelete s id =>
    cases h
    exact does_lookupDelete s id
  | change ch =>
    cases h
    exact does_change g ch
  | lastAdminCheck ch before after =>
    cases h
    exact does_lastAdminCheck g ch before after

theorem effect_outside (he : Effect g ins g' code) : Outside code := by
  cases he with
  | quiet _ _ _ _ outside => exact outside
  | create | change | unknown | answer => exact fun _ hi => (List.not_mem_nil hi).elim

theorem effect_setup (he : Effect g ins g' code) : g'.setupMu = g.setupMu ∧ g'.setups = g.setups := by
  cases he with
  | quiet _ setupMu setups => exact ⟨setupMu, setups⟩
  | create _ _ setupMu setups => exact ⟨setupMu, setups⟩
  | change _ _ _ setupMu setups => exact ⟨setupMu, setups⟩
  | unknown _ _ setupMu setups => exact ⟨setupMu, setups⟩
  | answer _ _ setupMu setups => exact ⟨setupMu, setups⟩

theorem effect_users (h : UsersOk g.users) (hins : InstrOk g.users ins)
    (he : Effect g ins g' code) : UsersOk g'.users ∧ (g'.users = [] ↔ g.users = []) := by
  cases he with
  | quiet users => rw [users]; exact ⟨h, Iff.rfl⟩
  | create use users =>
    subst use
    have hne : g.users ≠ [] := hins
    refine ⟨h.createUser users (.inl hne), iff_of_false ?_ hne⟩
    rw [(createUser_ok users).2]
    exact List.append_ne_nil_of_left_ne_nil hne _
  | change valid affected users =>
    rw [users]
    refine ⟨h.apply valid, fun hnil => ?_, fun hnil => by rw [hnil]; exact apply_nil _⟩
    by_contra hne
    exact h.apply_ne_nil valid hne hnil
  | unknown _ users => rw [users]; exact ⟨h, Iff.rfl⟩
  | answer _ users => rw [users]; exact ⟨h, Iff.rfl⟩

theorem InstrOk.mono {us us' : List User} {i : Instr} (h : InstrOk us i)
    (hne : us ≠ [] → us' ≠ []) : InstrOk us' i := by
  cases i with
  | createUser username role => exact hne h
  | lastAdminCheck ch before after => exact h
  | postSetup | lockSetup | countUsers | createAdmin | unlockSetup | requireAdmin | lookupPatch |
    lookupDelete | change => trivial

theorem effect_code (he : Effect g ins g' code) : ∀ i ∈ code, InstrOk g.users i := by
  cases he with
  | quiet _ _ _ _ _ ok => exact ok
  | create | change | unknown | answer => exact fun _ hi => (List.not_mem_nil hi).elim

theorem effect_calls (h : UsersOk g.users) (hins : InstrOk g.users ins)
    (hcalls : ∀ call ∈ g.calls, call.Kept) (he : Effect g ins g' code) :
    ∀ call ∈ g'.calls, call.Kept := by
  cases he with
  | quiet _ _ _ calls => rw [calls]; exact hcalls
  | create _ _ _ _ calls => rw [calls]; exact hcalls
  | change valid affected users _ _ calls =>
    rw [calls]
    refine List.forall_mem_cons.2 ⟨fun hlast => ?_, hcalls⟩
    exact (affected (affected_of_takesLast h.ids hlast)).elim
  | unknown _ _ _ _ calls =>
    rw [calls]
    exact List.forall_mem_cons.2 ⟨fun _ => rfl, hcalls⟩
  | answer use _ _ _ calls =>
    subst use
    rw [calls]
    exact List.forall_mem_cons.2 ⟨fun _ => hins.1, hcalls⟩

end outside

structure Inv (db : Database) (c : Config State Instr) : Prop where
  users : UsersOk c.global.users
  setups : c.global.setups = 0 ∨ c.global.setups = 1 ∧ c.global.users ≠ [] ∧ db.users = []
  old : db.users ≠ [] → c.global.users ≠ []
  calls : ∀ call ∈ c.global.calls, call.Kept
  tasks : ∀ t ∈ c.tasks, ∀ i ∈ t, InstrOk c.global.users i
  mutex : Exclusive c.global.setupMu Outside (Inside c.global.users) c.tasks

theorem outside_append {t u : List Instr} (ht : Outside t) (hu : Outside u) : Outside (t ++ u) :=
  fun i hi => (List.mem_append.1 hi).elim (ht i) (hu i)

theorem not_inside {us : List User} {ins : Instr} {rest : List Instr} (h : ins.inside = false) :
    ¬ Inside us (ins :: rest) := by
  rintro ⟨_, _, ⟨c, heq⟩ | ⟨c, heq, _⟩ | heq⟩ <;>
    · cases heq
      cases h

theorem Inside.mono {us us' : List User} {t : List Instr} (h : Inside us t)
    (hnil : us = [] → us' = []) : Inside us' t := by
  obtain ⟨rest, hrest, hcount | ⟨c, hcreate, hus⟩ | hunlock⟩ := h
  · exact ⟨rest, hrest, .inl hcount⟩
  · exact ⟨rest, hrest, .inr (.inl ⟨c, hcreate, hnil hus⟩)⟩
  · exact ⟨rest, hrest, .inr (.inr hunlock)⟩

section run
variable {db : Database} {c : Config State Instr} {i : ℕ} {ins : Instr} {rest : List Instr}
  {out : Outcome State Instr}

theorem code_outside (r : Request) : Outside (code r) := by
  cases r <;> exact fun _ hi => List.mem_singleton.1 hi ▸ rfl

theorem code_ok (us : List User) (r : Request) : ∀ i ∈ code r, InstrOk us i := by
  cases r <;> exact fun _ hi => List.mem_singleton.1 hi ▸ trivial

theorem inv_start (c : Config State Instr) (r : Request) (h : Inv db c) :
    Inv db ⟨c.global, c.tasks ++ [code r]⟩ := by
  exact { h with
    tasks := forall_start h.tasks (code_ok _ r)
    mutex := h.mutex.start (code_outside r) }

theorem tasks_ok {us : List User} {new : List Instr} (h : Inv db c)
    (hne : c.global.users ≠ [] → us ≠ []) (hnew : ∀ j ∈ new, InstrOk us j) :
    ∀ t ∈ c.tasks.set i new, ∀ j ∈ t, InstrOk us j := by
  intro t ht j hj
  rcases mem_set_task ht with rfl | ht
  · exact hnew j hj
  · exact (h.tasks t ht j hj).mono hne

theorem setups_mono {g : State} (h : Inv db c) (hsetups : g.setups = c.global.setups)
    (hne : c.global.users ≠ [] → g.users ≠ []) :
    g.setups = 0 ∨ g.setups = 1 ∧ g.users ≠ [] ∧ db.users = [] := by
  rw [hsetups]
  rcases h.setups with hzero | ⟨hone, husers, hdb⟩
  · exact .inl hzero
  · exact .inr ⟨hone, hne husers, hdb⟩

theorem inv_outside (h : Inv db c) (ht : c.tasks[i]? = some (ins :: rest))
    (hout : ins.inside = false) (hrest : Outside rest)
    (he : Effect c.global ins out.global out.code) (hresume : out.resume rest = out.code ++ rest) :
    Inv db ⟨out.global, c.tasks.set i (out.resume rest)⟩ := by
  have hins : InstrOk c.global.users ins := h.tasks _ (task_mem ht) ins List.mem_cons_self
  obtain ⟨husers, hnil⟩ := effect_users h.users hins he
  obtain ⟨hmu, hsetups⟩ := effect_setup he
  have hne : c.global.users ≠ [] → out.global.users ≠ [] := mt hnil.1
  refine ⟨husers, setups_mono h hsetups hne, fun hdb => hne (h.old hdb),
    effect_calls h.users hins h.calls he, ?_, ?_⟩
  · exact forall_step ht h.tasks (fun _ hj => hj.mono hne) fun j hj => (effect_code he j hj).mono hne
  · rw [hresume]
    show Exclusive out.global.setupMu _ _ _
    rw [hmu]
    exact h.mutex.step_outside ht (not_inside hout) (fun _ hu => hu) (fun _ hu => hu.mono hnil.2)
      (outside_append (effect_outside he) hrest)

theorem inv_lock (h : Inv db c) {cr : Credentials}
    (ht : c.tasks[i]? = some (.lockSetup cr :: rest)) (hmu : c.global.setupMu = false) :
    Inv db ⟨{ c.global with setupMu := true },
      c.tasks.set i (.countUsers cr :: .unlockSetup :: rest)⟩ := by
  have hfree := h.mutex.free hmu
  have hrest : Outside rest := fun j hj => hfree _ (task_mem ht) j (List.mem_cons_of_mem _ hj)
  refine { h with tasks := tasks_ok h id fun j hj => ?_, mutex := ?_ }
  · simp only [List.mem_cons] at hj
    rcases hj with rfl | rfl | hj
    · trivial
    · trivial
    · exact h.tasks _ (task_mem ht) j (List.mem_cons_of_mem _ hj)
  · exact Exclusive.step_inside (fun j u _ hu => hfree u (task_mem hu)) ht
      ⟨rest, hrest, .inl ⟨cr, rfl⟩⟩

theorem inv_createAdmin (h : Inv db c) {cr : Credentials}
    (ht : c.tasks[i]? = some (.createAdmin cr :: .unlockSetup :: rest)) (hrest : Outside rest)
    (hnil : c.global.users = []) (hmu : c.global.setupMu = true)
    (hothers : ∀ (j : ℕ) (u : List Instr), j ≠ i → c.tasks[j]? = some u → Outside u) :
    Inv db ⟨(createAdmin c.global cr).global,
      c.tasks.set i ((createAdmin c.global cr).resume (.unlockSetup :: rest))⟩ := by
  have hcreate : createAdmin c.global cr = .next ({ c.global with
      users := [⟨1, cr.username, "admin"⟩], setups := c.global.setups + 1 }.reply .ok) [] := by
    rw [createAdmin, hnil, createUser_nil]
  have hdb : db.users = [] := by
    by_contra hne
    exact h.old hne hnil
  have hzero : c.global.setups = 0 := by
    rcases h.setups with hzero | ⟨-, hne, -⟩
    · exact hzero
    · exact (hne hnil).elim
  have husers : UsersOk [⟨1, cr.username, "admin"⟩] :=
    (hnil ▸ h.users).createUser (createUser_nil cr.username) (.inr rfl)
  rw [hcreate]
  refine ⟨husers, .inr ⟨?_, List.cons_ne_nil _ _, hdb⟩, fun _ => List.cons_ne_nil _ _, h.calls,
    tasks_ok h (fun _ => List.cons_ne_nil _ _) fun j hj => ?_, ?_⟩
  · show c.global.setups + 1 = 1
    rw [hzero]
  · exact (h.tasks _ (task_mem ht) j (List.mem_cons_of_mem _ hj)).mono fun _ => List.cons_ne_nil _ _
  · show Exclusive c.global.setupMu _ _ _
    rw [hmu]
    exact Exclusive.step_inside hothers ht ⟨rest, hrest, .inr (.inr rfl)⟩

theorem inv_countUsers (h : Inv db c) {cr : Credentials}
    (ht : c.tasks[i]? = some (.countUsers cr :: .unlockSetup :: rest)) (hrest : Outside rest)
    (hmu : c.global.setupMu = true)
    (hothers : ∀ (j : ℕ) (u : List Instr), j ≠ i → c.tasks[j]? = some u → Outside u) :
    Inv db ⟨(countUsers c.global cr).global,
      c.tasks.set i ((countUsers c.global cr).resume (.unlockSetup :: rest))⟩ := by
  have hold := h.tasks _ (task_mem ht)
  rw [countUsers]
  split_ifs with hne
  · refine { h with tasks := tasks_ok h id fun j hj => ?_, mutex := ?_ }
    · exact hold j (List.mem_cons_of_mem _ hj)
    · show Exclusive c.global.setupMu _ _ _
      rw [hmu]
      exact Exclusive.step_inside hothers ht ⟨rest, hrest, .inr (.inr rfl)⟩
  · refine { h with tasks := tasks_ok h id fun j hj => ?_, mutex := ?_ }
    · rcases List.mem_cons.1 hj with rfl | hj
      · trivial
      · exact hold j (List.mem_cons_of_mem _ hj)
    · show Exclusive c.global.setupMu _ _ _
      rw [hmu]
      exact Exclusive.step_inside hothers ht ⟨rest, hrest, .inr (.inl ⟨cr, rfl, not_not.1 hne⟩)⟩

theorem inv_unlock (h : Inv db c) (ht : c.tasks[i]? = some (.unlockSetup :: rest))
    (hrest : Outside rest)
    (hothers : ∀ (j : ℕ) (u : List Instr), j ≠ i → c.tasks[j]? = some u → Outside u) :
    Inv db ⟨{ c.global with setupMu := false }, c.tasks.set i rest⟩ :=
  { h with
    tasks := tasks_ok h id fun j hj => h.tasks _ (task_mem ht) j (List.mem_cons_of_mem _ hj)
    mutex := Exclusive.step_release hothers hrest }

theorem atomic_resume {g : State} (h : atomic () g ins = some out) :
    out.resume rest = out.code ++ rest := by
  cases out with
  | next g' code => rfl
  | jump g' code =>
    cases ins <;>
      simp only [atomic, postSetup, countUsers, createAdmin, requireAdmin, postUser, createUser,
        lookupPatch, lookupDelete, change, lastAdminCheck, refuse] at h <;>
      repeat' split at h
    all_goals cases h

theorem inv_run (c : Config State Instr) (i : ℕ) (ins : Instr) (rest : List Instr) (o : Unit)
    (out : Outcome State Instr) (h : Inv db c) (ht : c.tasks[i]? = some (ins :: rest))
    (ho : atomic o c.global ins = some out) :
    Inv db ⟨out.global, c.tasks.set i (out.resume rest)⟩ := by
  rcases h.mutex.outside_or_owner ht with hout | ⟨hmu, hin, hothers⟩
  · have hrest : Outside rest := fun j hj => hout j (List.mem_cons_of_mem _ hj)
    by_cases hlock : ∃ cr, ins = .lockSetup cr
    · obtain ⟨cr, rfl⟩ := hlock
      cases hmu : c.global.setupMu with
      | true => simp [atomic, hmu] at ho
      | false =>
        simp only [atomic, hmu, Bool.false_eq_true, if_false, Option.some.injEq] at ho
        subst ho
        exact inv_lock h ht hmu
    · push Not at hlock
      have hins : ins.inside = false := hout ins List.mem_cons_self
      exact inv_outside h ht hins hrest (atomic_effect hins hlock ho) (atomic_resume ho)
  · obtain ⟨tail, htail, ⟨cr, heq⟩ | ⟨cr, heq, hnil⟩ | heq⟩ := hin
    · cases heq
      cases ho
      exact inv_countUsers h ht htail hmu hothers
    · cases heq
      cases ho
      exact inv_createAdmin h ht htail hnil hmu hothers
    · cases heq
      cases ho
      exact inv_unlock h ht htail hothers

theorem inv_restart (c : Config State Instr) (g : State) (h : Inv db c)
    (hg : restart c.global = some g) : Inv db ⟨g, []⟩ := by
  cases hg
  exact { h with tasks := fun _ ht => (List.not_mem_nil ht).elim, mutex := Exclusive.nil }

theorem inv_initial (db : Database) : Inv db ⟨initial db, []⟩ where
  users := db.ok
  setups := .inl rfl
  old := id
  calls _ hcall := (List.not_mem_nil hcall).elim
  tasks _ ht := (List.not_mem_nil ht).elim
  mutex := Exclusive.nil

end run

/-- The second query finds the named account exactly if it existed at the statement. -/
def SameAccount (c : Config State Instr) : Instr → Prop
  | .lastAdminCheck ch before _ => Exists c.global.users ch.id ↔ Exists before ch.id
  | _ => True

instance (c : Config State Instr) : (ins : Instr) → Decidable (SameAccount c ins) := by
  intro ins
  cases ins <;> unfold SameAccount <;> infer_instance

def Call.Right (call : Call) : Prop :=
  call.answer = .lastAdmin ↔ TakesLastAdmin call.before call.change

theorem effect_right {c : Config State Instr} {ins : Instr} {g' : State} {code : List Instr}
    (h : UsersOk c.global.users) (hins : InstrOk c.global.users ins) (hsame : SameAccount c ins)
    (hcalls : ∀ call ∈ c.global.calls, call.Right) (he : Effect c.global ins g' code) :
    ∀ call ∈ g'.calls, call.Right := by
  cases he with
  | quiet _ _ _ calls => rw [calls]; exact hcalls
  | create _ _ _ _ calls => rw [calls]; exact hcalls
  | change valid affected _ _ _ calls =>
    rw [calls]
    refine List.forall_mem_cons.2 ⟨iff_of_false (by simp) fun hlast => ?_, hcalls⟩
    exact affected (affected_of_takesLast h.ids hlast)
  | @unknown ch g' invalid _ _ _ calls =>
    rw [calls]
    refine List.forall_mem_cons.2 ⟨iff_of_false (by simp) ?_, hcalls⟩
    rintro ⟨u, -, -, -, -, hd⟩
    cases ch with
    | setRole id role => simp_all [Change.demotes, Change.valid]
    | deleteUser id => cases invalid
  | @answer ch before after g' use _ _ _ calls =>
    subst use
    rw [calls]
    refine List.forall_mem_cons.2 ⟨?_, hcalls⟩
    show (if Exists c.global.users ch.id then Answer.lastAdmin else .notFound) = .lastAdmin ↔ _
    rw [hins.2, ← show Exists c.global.users ch.id ↔ Exists before ch.id from hsame]
    split_ifs with hex
    · exact iff_of_true rfl hex
    · exact iff_of_false (by simp) hex

theorem atomic_calls {g : State} {ins : Instr} {out : Outcome State Instr}
    (h : atomic () g ins = some out) (hin : ins.inside = true ∨ ∃ cr, ins = .lockSetup cr) :
    out.global.calls = g.calls := by
  rcases hin with hin | ⟨cr, rfl⟩
  · cases ins with
    | countUsers cr =>
      cases h
      rw [countUsers]
      split_ifs <;> rfl
    | createAdmin cr =>
      cases h
      rw [createAdmin]
      cases Users.createUser g.users cr.username "admin" <;> rfl
    | unlockSetup =>
      cases h
      rfl
    | postSetup | lockSetup | requireAdmin | createUser | lookupPatch | lookupDelete | change |
      lastAdminCheck => cases hin
  · simp only [atomic, Option.ite_none_left_eq_some, Option.some.injEq] at h
    obtain ⟨-, rfl⟩ := h
    rfl

theorem right_run {db : Database} {c : Config State Instr} {i : ℕ} {ins : Instr}
    {rest : List Instr} {o : Unit} {out : Outcome State Instr} (h : Inv db c)
    (hcalls : ∀ call ∈ c.global.calls, call.Right) (hsame : SameAccount c ins)
    (ht : c.tasks[i]? = some (ins :: rest)) (ho : atomic o c.global ins = some out) :
    ∀ call ∈ out.global.calls, call.Right := by
  by_cases hin : ins.inside = true ∨ ∃ cr, ins = .lockSetup cr
  · rw [atomic_calls ho hin]
    exact hcalls
  · push Not at hin
    have hins : InstrOk c.global.users ins := h.tasks _ (task_mem ht) ins List.mem_cons_self
    exact effect_right h.users hins hsame hcalls
      (atomic_effect (Bool.eq_false_iff.2 hin.1) hin.2 ho)

theorem right_exec {db : Database} {c : Config State Instr} {acts : List (Action Unit Request)}
    (hm : Runs.Meets machine.step (Machine.Guard SameAccount) ⟨initial db, []⟩ acts)
    (he : Runs.exec machine.step ⟨initial db, []⟩ acts = some c) :
    ∀ call ∈ c.global.calls, call.Right := by
  refine (machine.guarded_invariant (J := fun e => Inv db e ∧ ∀ call ∈ e.global.calls, call.Right)
    ?_ ?_ ?_ ⟨inv_initial db, fun _ hcall => (List.not_mem_nil hcall).elim⟩ hm he).2
  · exact fun e r h => ⟨inv_start e r h.1, h.2⟩
  · intro e i ins rest o out h hsame ht ho
    exact ⟨inv_run e i ins rest o out h.1 ht ho, right_run (o := o) h.1 h.2 hsame ht ho⟩
  · intro e g h hg
    refine ⟨inv_restart e g h.1 hg, ?_⟩
    cases hg
    exact h.2

/-- In every state the table is empty or has an administrator, all roles are known, setup
has created at most one account and none if there was one to begin with, and a call that
would take the last administrator leaves the table alone. If every second query finds the
account it names exactly if it existed at the statement, then the calls that would take the
last administrator are those that return `ErrLastAdmin`. -/
theorem last_admin_stays (db : Database) (acts : List (Action Unit Request))
    (c : Config State Instr) (he : Runs.exec machine.step ⟨initial db, []⟩ acts = some c) :
    (c.global.users = [] ∨ ∃ u ∈ c.global.users, u.role = "admin") ∧
    (c.global.setups ≤ 1 ∧ (db.users ≠ [] → c.global.setups = 0)) ∧
    (∀ u ∈ c.global.users, u.role = "viewer" ∨ u.role = "operator" ∨ u.role = "admin") ∧
    (∀ call ∈ c.global.calls, TakesLastAdmin call.before call.change → call.after = call.before) ∧
    (Runs.Meets machine.step (Machine.Guard SameAccount) ⟨initial db, []⟩ acts →
      ∀ call ∈ c.global.calls,
        (call.answer = .lastAdmin ↔ TakesLastAdmin call.before call.change)) := by
  have h : Inv db c := machine.invariant inv_start inv_run inv_restart (inv_initial db) he
  refine ⟨h.users.admin, ⟨?_, fun hdb => ?_⟩, fun u hu => ?_, h.calls, fun hm => right_exec hm he⟩
  · rcases h.setups with hzero | ⟨hone, -⟩ <;> omega
  · rcases h.setups with hzero | ⟨-, -, hnil⟩
    · exact hzero
    · exact (hdb hnil).elim
  · exact validRole_iff.1 (h.users.roles u hu)

def emptyDatabase : Database := ⟨[], by simp, by simp, .inl rfl⟩

/-- Setup as task 0; it creates account 1. -/
def setup : List (Action Unit Request) :=
  .start (.postSetup (some ⟨"ada", "password"⟩)) :: List.replicate 5 (.run 0 ())

def byAda (r : AdminRequest) : Action Unit Request := .start (.admin (some ⟨1, true⟩) r)

def stepDown : List (Action Unit Request) :=
  setup ++ byAda (.patchUser 1 (some "viewer")) :: List.replicate 4 (.run 1 ())

theorem step_down_refused : ∃ c,
    Runs.exec machine.step ⟨initial emptyDatabase, []⟩ stepDown = some c ∧
    c.global.calls.map (·.answer) = [.lastAdmin] ∧
    (c.global.users = [] ∨ ∃ u ∈ c.global.users, u.role = "admin") ∧
    ∀ call ∈ c.global.calls,
      (call.answer = .lastAdmin ↔ TakesLastAdmin call.before call.change) := by
  have hfinal : (Runs.exec machine.step ⟨initial emptyDatabase, []⟩ stepDown).map
      (fun c => c.global.calls.map (·.answer)) = some [.lastAdmin] := by
    decide +kernel
  obtain ⟨c, hc, hcalls⟩ := Option.map_eq_some_iff.1 hfinal
  obtain ⟨hadmin, -, -, -, hright⟩ := last_admin_stays emptyDatabase stepDown c hc
  exact ⟨c, hc, hcalls, hadmin, hright (by decide +kernel)⟩

/-- Account 2 is created; task 2 looks it up to delete it, and task 3 deletes it. The
statement of task 2 affects no row. Before its second query a new account gets the id 2. -/
def idGivenAgain : List (Action Unit Request) :=
  setup ++ [byAda (.postUser (some (⟨"bob", "password"⟩, "viewer"))), .run 1 (), .run 1 (),
    byAda (.deleteUser 2), .run 2 (), .run 2 (), byAda (.deleteUser 2), .run 3 (), .run 3 (),
    .run 3 (), .run 2 (), byAda (.postUser (some (⟨"eve", "password"⟩, "viewer"))), .run 4 (),
    .run 4 (), .run 2 ()]

/-- `DeleteUser` of an account that is gone, and was a viewer, returns `ErrLastAdmin`. -/
theorem last_admin_misreported : ∃ c,
    Runs.exec machine.step ⟨initial emptyDatabase, []⟩ idGivenAgain = some c ∧
    ∃ call ∈ c.global.calls, call.answer = .lastAdmin ∧ call.change = .deleteUser 2 ∧
      call.before = [⟨1, "ada", "admin"⟩] ∧ ¬ TakesLastAdmin call.before call.change := by
  have hfinal : (Runs.exec machine.step ⟨initial emptyDatabase, []⟩ idGivenAgain).map
      (fun c => decide (∃ call ∈ c.global.calls, call.answer = .lastAdmin ∧
        call.change = .deleteUser 2 ∧ call.before = [⟨1, "ada", "admin"⟩] ∧
        ¬ TakesLastAdmin call.before call.change)) = some true := by
    decide +kernel
  obtain ⟨c, hc, hcall⟩ := Option.map_eq_some_iff.1 hfinal
  exact ⟨c, hc, of_decide_eq_true hcall⟩

end Lotse.Admins
