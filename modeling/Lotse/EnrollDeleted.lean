import Lotse.EnrollMachine

set_option autoImplicit false

namespace Lotse.Enroll
open Rows Tasks

def Expired (g : State) (token : ℕ) : Prop := ∃ e ∈ g.tokens[token]?, e ≤ g.clock

instance (g : State) (token : ℕ) : Decidable (Expired g token) :=
  inferInstanceAs (Decidable (∃ e ∈ g.tokens[token]?, e ≤ g.clock))

def Enrolls (g : State) (fingerprint : ℕ) : Instr → Prop
  | .admitAgent c token => c.fingerprint = fingerprint ∧ ∃ t ∈ token, ¬ Expired g t
  | .validEnrollToken c token => c.fingerprint = fingerprint ∧ ¬ Expired g token
  | .createSystem c => c.fingerprint = fingerprint
  | _ => False

instance (g : State) (fingerprint : ℕ) : (j : Instr) → Decidable (Enrolls g fingerprint j)
  | .admitAgent c token =>
    inferInstanceAs (Decidable (c.fingerprint = fingerprint ∧ ∃ t ∈ token, ¬ Expired g t))
  | .validEnrollToken c token =>
    inferInstanceAs (Decidable (c.fingerprint = fingerprint ∧ ¬ Expired g token))
  | .createSystem c => inferInstanceAs (Decidable (c.fingerprint = fingerprint))
  | .hello _ | .register .. | .recheck .. | .refuse .. | .reply .. | .unregister .. | .close _
  | .readReply _ | .restartAgent _ | .lookupSystem _ | .deleteRow .. | .dropLink ..
  | .closeLink .. | .returned _ | .createToken _ | .giveToken .. | .tick _ => .isFalse id

/-- Neither the agent nor a handler of it has a token that it can enroll with. -/
structure Tokenless (g : State) (ts : List (List Instr)) (fingerprint : ℕ) : Prop where
  token : ∀ t ∈ (g.hosts fingerprint).token, Expired g t
  saved : ∀ t ∈ (g.hosts fingerprint).saved, Expired g t
  tasks : ∀ t ∈ ts, ∀ j ∈ t, ¬ Enrolls g fingerprint j

instance (g : State) (ts : List (List Instr)) (fingerprint : ℕ) :
    Decidable (Tokenless g ts fingerprint) :=
  decidable_of_iff
    ((∀ t ∈ (g.hosts fingerprint).token, Expired g t) ∧
      (∀ t ∈ (g.hosts fingerprint).saved, Expired g t) ∧
      ∀ t ∈ ts, ∀ j ∈ t, ¬ Enrolls g fingerprint j)
    ⟨fun h => ⟨h.1, h.2.1, h.2.2⟩, fun h => ⟨h.token, h.saved, h.tasks⟩⟩

/-- A connection of the agent that has passed the re-check and waits for its reply is closed,
or it is `link`. -/
def Covers (g : State) (link : Option ℕ) (fingerprint : ℕ) : Instr → Prop
  | .reply _ c => c.fingerprint = fingerprint → c.cid ∈ g.closed ∨ link = some c.cid
  | _ => True

instance (g : State) (link : Option ℕ) (fingerprint : ℕ) :
    (j : Instr) → Decidable (Covers g link fingerprint j)
  | .reply _ c => inferInstanceAs
      (Decidable (c.fingerprint = fingerprint → c.cid ∈ g.closed ∨ link = some c.cid))
  | .admitAgent .. | .validEnrollToken .. | .createSystem _ | .hello _ | .register ..
  | .recheck .. | .refuse .. | .unregister .. | .close _ | .readReply _ | .restartAgent _
  | .lookupSystem _ | .deleteRow .. | .dropLink .. | .closeLink .. | .returned _
  | .createToken _ | .giveToken .. | .tick _ => .isTrue trivial

/-- The condition on a step, in the state before it: when its row is deleted, the agent has
no token that has not expired, nor has a handler of it; when a connection passes the
re-check, because it finds a row or because its query fails, the row is the agent's own; and
when its link is dropped, no replaced connection of the agent still waits for its reply. -/
def Undisturbed (cfg : Config State Instr) : Instr → Prop
  | .deleteRow id _ => ∀ row ∈ cfg.global.systems.system id,
      Tokenless cfg.global cfg.tasks row.fingerprint
  | .recheck id c ok => (query ok (cfg.global.systems.system id)).passes →
      (cfg.global.systems.system id).map SystemRow.fingerprint = some c.fingerprint
  | .dropLink id fingerprints => ∀ f ∈ fingerprints, ∀ t ∈ cfg.tasks, ∀ j ∈ t,
      Covers cfg.global (cfg.global.agents id) f j
  | _ => True

instance (cfg : Config State Instr) : (ins : Instr) → Decidable (Undisturbed cfg ins)
  | .deleteRow id _ => inferInstanceAs (Decidable (∀ row ∈ cfg.global.systems.system id,
      Tokenless cfg.global cfg.tasks row.fingerprint))
  | .recheck id c ok => inferInstanceAs (Decidable (
      (query ok (cfg.global.systems.system id)).passes →
        (cfg.global.systems.system id).map SystemRow.fingerprint = some c.fingerprint))
  | .dropLink id fingerprints => inferInstanceAs (Decidable (∀ f ∈ fingerprints,
      ∀ t ∈ cfg.tasks, ∀ j ∈ t, Covers cfg.global (cfg.global.agents id) f j))
  | .admitAgent .. | .validEnrollToken .. | .createSystem _ | .hello _ | .register ..
  | .refuse .. | .reply .. | .unregister .. | .close _ | .readReply _ | .restartAgent _
  | .lookupSystem _ | .closeLink .. | .returned _ | .createToken _ | .giveToken ..
  | .tick _ => .isTrue trivial

def Removed (g : State) (fingerprint : ℕ) : Prop := (fingerprint, g.given fingerprint) ∈ g.removed

namespace Instr

def deleted : Instr → List (ℕ × ℕ)
  | .closeLink _ deleted | .returned deleted => deleted
  | _ => []

def link : Instr → Option ℕ
  | .closeLink cid _ => cid
  | _ => none

end Instr

structure Kept (g : State) (ts : List (List Instr)) (f : ℕ) : Prop where
  bound : ∀ k, (f, k) ∈ g.removed → k ≤ g.given f
  absent : Removed g f → g.systems.systemByFingerprint f = none
  tokenless : Removed g f → Tokenless g ts f
  gone : ∀ k, (f, k) ∈ g.gone → (f, k) ∈ g.removed
  answered : g.Deleted f → ∀ t ∈ ts, ∀ j ∈ t, Covers g none f j
  deleted : ∀ t ∈ ts, ∀ j ∈ t, ∀ k, (f, k) ∈ j.deleted → (f, k) ∈ g.removed
  covered : ∀ t ∈ ts, ∀ j ∈ t, (f, g.given f) ∈ j.deleted →
    ∀ u ∈ ts, ∀ l ∈ u, Covers g j.link f l

section frame
variable {g g' : State} {ts : List (List Instr)} {f : ℕ}

structure Frame (g g' : State) (f : ℕ) : Prop where
  given : g'.given f = g.given f
  removed : ∀ k, (f, k) ∈ g'.removed ↔ (f, k) ∈ g.removed
  closed : g.closed ⊆ g'.closed
  expired : ∀ t, Expired g t → Expired g' t
  token : ∀ t ∈ (g'.hosts f).token, t ∈ (g.hosts f).token ∨ t ∈ (g.hosts f).saved
  saved : ∀ t ∈ (g'.hosts f).saved, t ∈ (g.hosts f).saved
  absent : Removed g f → g.systems.systemByFingerprint f = none →
    g'.systems.systemByFingerprint f = none

theorem Frame.removed_iff (h : Frame g g' f) : Removed g' f ↔ Removed g f := by
  unfold Removed
  rw [h.given]
  exact h.removed _

theorem Covers.mono {link : Option ℕ} {j : Instr} (hclosed : g.closed ⊆ g'.closed)
    (h : Covers g link f j) : Covers g' link f j := by
  cases j with
  | reply id c => exact fun hf => (h hf).imp_left (hclosed ·)
  | _ => trivial

theorem Covers.of_none {link : Option ℕ} {j : Instr} (h : Covers g none f j) :
    Covers g link f j := by
  cases j with
  | reply id c => exact fun hf => .inl ((h hf).resolve_right nofun)
  | _ => trivial

theorem not_enrolls_mono {j : Instr} (hexp : ∀ t, Expired g t → Expired g' t)
    (h : ¬ Enrolls g f j) : ¬ Enrolls g' f j := by
  cases j with
  | admitAgent c token =>
    rintro ⟨hf, t, ht, hne⟩
    exact h ⟨hf, t, ht, fun he => hne (hexp t he)⟩
  | validEnrollToken c token =>
    rintro ⟨hf, hne⟩
    exact h ⟨hf, fun he => hne (hexp token he)⟩
  | _ => exact h

structure Fresh (g g' : State) (ts : List (List Instr)) (f : ℕ) (j : Instr) : Prop where
  enrolls : Removed g f → ¬ Enrolls g' f j
  covers : Removed g f → Covers g' none f j
  deleted : ∀ k, (f, k) ∈ j.deleted → (f, k) ∈ g.removed
  covered : (f, g.given f) ∈ j.deleted → ∀ t ∈ ts, ∀ l ∈ t, Covers g' j.link f l

theorem Kept.frame {i : ℕ} {ins : Instr} {rest code : List Instr} (h : Kept g ts f)
    (hi : ts[i]? = some (ins :: rest)) (hf : Frame g g' f)
    (hcode : ∀ j ∈ code, Fresh g g' ts f j)
    (hgone : ∀ k, (f, k) ∈ g'.gone → (f, k) ∈ g.gone ∨ ((f, k) ∈ g.removed ∧
      (k = g.given f → ∀ t ∈ ts, ∀ j ∈ t, Covers g' none f j))) :
    Kept g' (ts.set i ((Outcome.next g' code).resume rest)) f := by
  have later {link : Option ℕ} (hr : Removed g f)
      (hc : ∀ t ∈ ts, ∀ j ∈ t, Covers g' link f j) :
      ∀ t ∈ ts.set i ((Outcome.next g' code).resume rest), ∀ j ∈ t, Covers g' link f j :=
    forall_step hi hc (fun _ => id) fun j hj => ((hcode j hj).covers hr).of_none
  have before {link : Option ℕ} (hc : ∀ t ∈ ts, ∀ j ∈ t, Covers g link f j) :
      ∀ t ∈ ts, ∀ j ∈ t, Covers g' link f j := fun t ht j hj => (hc t ht j hj).mono hf.closed
  refine ⟨fun k hk => ?_, fun hr => ?_, fun hr => ?_, fun k hk => ?_, fun hd => ?_, ?_, ?_⟩
  · rw [hf.given]
    exact h.bound k ((hf.removed k).1 hk)
  · have hr := hf.removed_iff.1 hr
    exact hf.absent hr (h.absent hr)
  · have hr := hf.removed_iff.1 hr
    have ht := h.tokenless hr
    refine ⟨fun t htok => ?_, fun t htok => hf.expired t (ht.saved t (hf.saved t htok)), ?_⟩
    · exact hf.expired t ((hf.token t htok).elim (ht.token t) (ht.saved t))
    · exact forall_step hi ht.tasks (fun j => not_enrolls_mono hf.expired)
        fun j hj => (hcode j hj).enrolls hr
  · exact (hf.removed k).2 ((hgone k hk).elim (h.gone k) (·.1))
  · unfold State.Deleted at hd
    rw [hf.given] at hd
    rcases hgone _ hd with hd | ⟨hr, hc⟩
    · exact later (h.gone _ hd) (before (h.answered hd))
    · exact later hr (hc rfl)
  · exact forall_step hi h.deleted (fun j hj k hk => (hf.removed k).2 (hj k hk))
      fun j hj k hk => (hf.removed k).2 ((hcode j hj).deleted k hk)
  · rw [hf.given]
    have hold : ∀ t ∈ ts, ∀ j ∈ t, (f, g.given f) ∈ j.deleted →
        ∀ u ∈ ts.set i ((Outcome.next g' code).resume rest), ∀ l ∈ u, Covers g' j.link f l :=
      fun t ht j hj hk => later (h.deleted t ht j hj _ hk) (before (h.covered t ht j hj hk))
    exact forall_step hi hold (fun _ => id) fun j hj hk =>
      later ((hcode j hj).deleted _ hk) ((hcode j hj).covered hk)

end frame

section step
variable {g g' : State} {ts : List (List Instr)} {f : ℕ} {i : ℕ} {ins : Instr}
  {rest : List Instr} {saved : Bool}

theorem Frame.refl (g : State) (f : ℕ) : Frame g g f :=
  ⟨rfl, fun _ => .rfl, fun _ => id, fun _ => id, fun _ => .inl, fun _ => id, fun _ => id⟩

theorem frame_links (hg : g'.given = g.given) (hr : g'.removed = g.removed)
    (hc : g.closed ⊆ g'.closed) (ht : g'.tokens = g.tokens) (hnow : g'.clock = g.clock)
    (hh : g'.hosts = g.hosts) (hs : g'.systems = g.systems) : Frame g g' f := by
  refine ⟨by rw [hg], fun _ => by rw [hr], hc, fun t he => ?_, ?_, ?_, fun _ h => by rwa [hs]⟩
  · unfold Expired
    rw [ht, hnow]
    exact he
  · rw [hh]
    exact fun _ => .inl
  · rw [hh]
    exact fun _ => id

def Instr.plain : Instr → Bool
  | .admitAgent .. | .validEnrollToken .. | .createSystem _ | .reply .. | .closeLink ..
  | .returned _ => false
  | _ => true

theorem not_enrolls_of_plain {j : Instr} (h : j.plain) : ¬ Enrolls g f j := by
  cases j with
  | admitAgent | validEnrollToken | createSystem => cases h
  | _ => exact id

theorem covers_of_plain {j : Instr} {link : Option ℕ} (h : j.plain) : Covers g link f j := by
  cases j with
  | reply => cases h
  | _ => trivial

theorem deleted_of_plain {j : Instr} (h : j.plain) : j.deleted = [] := by
  cases j with
  | closeLink | returned => cases h
  | _ => rfl

theorem fresh_of_plain {j : Instr} (h : j.plain) : Fresh g g' ts f j := by
  have hnone {k : ℕ} : (f, k) ∉ j.deleted := by
    rw [deleted_of_plain h]
    exact List.not_mem_nil
  exact ⟨fun _ => not_enrolls_of_plain h, fun _ => covers_of_plain h, fun _ hk => absurd hk hnone,
    fun hk => absurd hk hnone⟩

theorem Kept.links {code : List Instr} (h : Kept g ts f) (hi : ts[i]? = some (ins :: rest))
    (hf : Frame g g' f) (hgone : g'.gone = g.gone) (hplain : ∀ j ∈ code, j.plain) :
    Kept g' (ts.set i ((Outcome.next g' code).resume rest)) f :=
  h.frame hi hf (fun j hj => fresh_of_plain (hplain j hj)) fun _ hk => .inl (hgone ▸ hk)

theorem Kept.deleted_step (g' : State) {code : List Instr} (h : Kept g ts f)
    (hi : ts[i]? = some (ins :: rest)) (hplain : ∀ j ∈ code, j.plain) :
    ∀ t ∈ ts.set i ((Outcome.next g' code).resume rest), ∀ j ∈ t, ∀ k, (f, k) ∈ j.deleted →
      (f, k) ∈ g.removed :=
  forall_step hi h.deleted (fun _ => id) fun j hj k hk => by
    rw [deleted_of_plain (hplain j hj)] at hk
    cases hk

theorem not_valid_of_expired {token : ℕ} (h : Expired g token) : g.validEnrollToken token = false := by
  obtain ⟨e, he, hle⟩ := h
  have hget : g.tokens[token]? = some e := he
  simp [State.validEnrollToken, hget, hle]

theorem frame_setHost {x : ℕ} {a : Agent}
    (htoken : ∀ t ∈ a.token, t ∈ (g.hosts x).token ∨ t ∈ (g.hosts x).saved)
    (hsaved : ∀ t ∈ a.saved, t ∈ (g.hosts x).saved) : Frame g (g.setHost x a) f := by
  have base := Frame.refl g f
  refine ⟨rfl, fun _ => .rfl, base.closed, base.expired, ?_, ?_, base.absent⟩
  · by_cases hx : f = x
    · subst hx
      simpa [State.setHost] using htoken
    · simp only [State.setHost, Function.update_of_ne hx]
      exact base.token
  · by_cases hx : f = x
    · subst hx
      simpa [State.setHost] using hsaved
    · simp only [State.setHost, Function.update_of_ne hx]
      exact base.saved

theorem frame_createSystem {c : Conn} {systems : Systems} {id : ℕ+}
    (hcreate : g.systems.createSystem c.fingerprint = some (systems, id))
    (hne : Removed g f → c.fingerprint ≠ f) :
    Frame g { g with systems, created := c.fingerprint :: g.created } f := by
  have base := Frame.refl g f
  refine ⟨rfl, fun _ => .rfl, base.closed, base.expired, base.token, base.saved, fun hr h => ?_⟩
  unfold Systems.createSystem at hcreate
  split_ifs at hcreate
  cases hcreate
  exact (lookup_append_ne (k := SystemRow.fingerprint) (hne hr) _).trans h

theorem absent_deleteSystem {id : ℕ+} (h : g.systems.systemByFingerprint f = none) :
    (g.systems.deleteSystem id).systemByFingerprint f = none := by
  unfold Systems.systemByFingerprint at h ⊢
  rw [lookup_eq_none] at h ⊢
  exact fun r hr => h r (List.mem_of_mem_filter hr)

theorem absent_of_deleted {id : ℕ+} {row : SystemRow} (hrow : g.systems.system id = some row) :
    (g.systems.deleteSystem id).systemByFingerprint row.fingerprint = none := by
  refine lookup_eq_none.2 fun r hr hsame => ?_
  obtain ⟨hr, hid⟩ := List.mem_filter.1 hr
  have heq : r = row := List.inj_on_of_nodup_map g.systems.unique hr (lookup_mem hrow) hsame
  rw [heq, lookup_key hrow] at hid
  simp at hid

theorem kept_removed {row : SystemRow} {code : List Instr} (h : Kept g ts row.fingerprint)
    (hrow : g.systems.system row.id = some row) (hspent : Tokenless g ts row.fingerprint)
    (hi : ts[i]? = some (ins :: rest)) (hplain : ∀ j ∈ code, j.plain) :
    Kept (g.deleteRow row.id row)
      (ts.set i ((Outcome.next (g.deleteRow row.id row) code).resume rest)) row.fingerprint := by
  have hnot : ¬ Removed g row.fingerprint := fun hr =>
    lookup_eq_none.1 (h.absent hr) row (lookup_mem hrow) rfl
  have hdeleted := h.deleted_step (g.deleteRow row.id row) hi hplain
  refine ⟨fun k hk => ?_, fun _ => absent_of_deleted hrow, fun _ => ?_,
    fun k hk => List.mem_cons_of_mem _ (h.gone k hk), fun hd => absurd (h.gone _ hd) hnot,
    fun t ht j hj k hk => List.mem_cons_of_mem _ (hdeleted t ht j hj k hk),
    fun t ht j hj hk => absurd (hdeleted t ht j hj _ hk) hnot⟩
  · rcases List.mem_cons.1 hk with hk | hk
    · exact (congrArg Prod.snd hk).le
    · exact h.bound k hk
  · refine ⟨hspent.token, hspent.saved, ?_⟩
    exact forall_step hi hspent.tasks (fun _ => id) fun j hj => not_enrolls_of_plain (hplain j hj)

theorem kept_giveToken {x token : ℕ} (h : Kept g ts f)
    (hi : ts[i]? = some (.giveToken x token :: rest)) :
    Kept (g.giveToken x token)
      (ts.set i ((Outcome.next (g.giveToken x token) []).resume rest)) f := by
  by_cases hx : x = f
  · subst hx
    have hgiven : (g.giveToken x token).given x = g.given x + 1 := Function.update_self ..
    have hnew : (x, (g.giveToken x token).given x) ∉ g.removed := fun hr => by
      have := h.bound _ hr
      omega
    have hdeleted := h.deleted_step (g.giveToken x token) hi (List.forall_mem_nil _)
    refine ⟨fun k hk => ?_, fun hr => absurd hr hnew, fun hr => absurd hr hnew, h.gone,
      fun hd => absurd (h.gone _ hd) hnew, hdeleted,
      fun t ht j hj hk => absurd (hdeleted t ht j hj _ hk) hnew⟩
    have := h.bound k hk
    omega
  · have base := Frame.refl g f
    have hgiven : (g.giveToken x token).given f = g.given f := Function.update_of_ne (Ne.symm hx) _ _
    have hhost : (g.giveToken x token).hosts f = g.hosts f := Function.update_of_ne (Ne.symm hx) _ _
    refine h.links hi ⟨hgiven, fun _ => .rfl, base.closed, base.expired, ?_, ?_, base.absent⟩ rfl
      (List.forall_mem_nil _)
    · rw [hhost]
      exact base.token
    · rw [hhost]
      exact base.saved

theorem frame_unlink (g : State) (f : ℕ) (system : ℕ+) (cid : ℕ) :
    Frame g (g.unlink system cid) f ∧ (g.unlink system cid).gone = g.gone := by
  unfold State.unlink
  split_ifs
  · exact ⟨frame_links rfl rfl (List.Subset.refl _) rfl rfl rfl rfl, rfl⟩
  · exact ⟨.refl g f, rfl⟩

theorem frame_reply (g : State) (f : ℕ) (c : Conn) :
    Frame g (g.reply c) f ∧ (g.reply c).gone = g.gone := by
  unfold State.reply
  split_ifs
  · exact ⟨.refl g f, rfl⟩
  · exact ⟨frame_links rfl rfl (List.Subset.refl _) rfl rfl rfl rfl, rfl⟩

theorem frame_close (g : State) (f : ℕ) (cid : Option ℕ) : Frame g (g.close cid) f :=
  frame_links rfl rfl (List.subset_append_right _ _) rfl rfl rfl rfl

theorem frame_seen (g : State) (f : ℕ) (c : Conn) (saved : Bool) :
    Frame g (g.seen c saved) f ∧ (g.seen c saved).gone = g.gone := by
  unfold State.seen
  dsimp only
  split_ifs
  · exact ⟨frame_setHost nofun nofun, rfl⟩
  · exact ⟨frame_setHost nofun fun _ => id, rfl⟩
  · exact ⟨.refl g f, rfl⟩

theorem frame_createToken (g : State) (f : ℕ) (ttl : ℤ) :
    Frame g { g with tokens := g.tokens ++ [g.clock + ttl] } f := by
  have base := Frame.refl g f
  refine ⟨rfl, fun _ => .rfl, base.closed, ?_, base.token, base.saved, base.absent⟩
  rintro t ⟨e, he, hle⟩
  have ht : t < g.tokens.length := (List.getElem?_eq_some_iff.1 he).1
  exact ⟨e, (List.getElem?_append_left ht).trans he, hle⟩

theorem frame_tick (g : State) (f elapsed : ℕ) : Frame g { g with clock := g.clock + elapsed } f := by
  have base := Frame.refl g f
  refine ⟨rfl, fun _ => .rfl, base.closed, ?_, base.token, base.saved, base.absent⟩
  rintro t ⟨e, he, hle⟩
  exact ⟨e, he, by dsimp only; omega⟩

theorem Covers.close {cid : Option ℕ} {j : Instr} (h : Covers g cid f j) :
    Covers (g.close cid) none f j := by
  cases j with
  | reply system c =>
    intro hf
    refine .inl (List.mem_append.2 ((h hf).symm.imp_left fun hcid => ?_))
    rw [hcid]
    exact List.mem_singleton_self _
  | _ => trivial

theorem kept_dropLink {system : ℕ+} {fingerprints : List ℕ} (h : Kept g ts f)
    (hok : Undisturbed ⟨g, ts⟩ (.dropLink system fingerprints))
    (hi : ts[i]? = some (.dropLink system fingerprints :: rest)) :
    Kept (atomic saved g (.dropLink system fingerprints)).1 (ts.set i
      ((Outcome.next (atomic saved g (.dropLink system fingerprints)).1
        (atomic saved g (.dropLink system fingerprints)).2).resume rest)) f := by
  refine h.frame hi (frame_links rfl rfl (List.Subset.refl _) rfl rfl rfl rfl) ?_ fun _ => .inl
  intro j hj
  obtain rfl := List.mem_singleton.1 hj
  refine ⟨fun _ => id, fun _ => trivial, fun k hk => ?_, fun hk t ht l hl => ?_⟩
  · exact of_decide_eq_true (List.mem_filter.1 hk).2
  · obtain ⟨x, hx, heq⟩ := List.mem_map.1 (List.mem_filter.1 hk).1
    obtain rfl : x = f := congrArg Prod.fst heq
    exact (hok x hx t ht l hl).mono (List.Subset.refl _)

theorem kept_deleteRow {system : ℕ+} {x : ℕ} (h : Kept g ts f)
    (hok : Undisturbed ⟨g, ts⟩ (.deleteRow system x))
    (hi : ts[i]? = some (.deleteRow system x :: rest)) :
    Kept (atomic saved g (.deleteRow system x)).1 (ts.set i
      ((Outcome.next (atomic saved g (.deleteRow system x)).1
        (atomic saved g (.deleteRow system x)).2).resume rest)) f := by
  have base := Frame.refl g f
  simp only [atomic]
  split
  · rename_i row hrow
    obtain rfl := lookup_key hrow
    have hplain : ∀ j ∈ [Instr.dropLink row.id [x, row.fingerprint]], j.plain := by
      simp [Instr.plain]
    by_cases hf : row.fingerprint = f
    · subst hf
      exact kept_removed h hrow (hok row hrow) hi hplain
    · have hremoved : ∀ k, (f, k) ∈ (g.deleteRow row.id row).removed ↔ (f, k) ∈ g.removed :=
        fun k => by simp [State.deleteRow, Ne.symm hf]
      exact h.links hi ⟨rfl, hremoved, base.closed, base.expired, base.token, base.saved,
        fun _ => absent_deleteSystem⟩ rfl hplain
  · exact h.links hi base rfl (by simp [Instr.plain])

theorem kept_closeLink {cid : Option ℕ} {deleted : List (ℕ × ℕ)} (h : Kept g ts f)
    (hi : ts[i]? = some (.closeLink cid deleted :: rest)) :
    Kept (g.close cid)
      (ts.set i ((Outcome.next (g.close cid) [.returned deleted]).resume rest)) f := by
  refine h.frame hi (frame_close g f cid) ?_ fun _ => .inl
  intro j hj
  obtain rfl := List.mem_singleton.1 hj
  refine ⟨fun _ => id, fun _ => trivial, ?_, fun hk t ht l hl => ?_⟩
  · exact h.deleted _ (task_mem hi) (.closeLink cid deleted) List.mem_cons_self
  · exact (h.covered _ (task_mem hi) (.closeLink cid deleted) List.mem_cons_self hk t ht l hl).close

theorem kept_returned {deleted : List (ℕ × ℕ)} (h : Kept g ts f)
    (hi : ts[i]? = some (.returned deleted :: rest)) :
    Kept { g with gone := deleted ++ g.gone } (ts.set i
      ((Outcome.next { g with gone := deleted ++ g.gone } []).resume rest)) f := by
  refine h.frame hi (frame_links rfl rfl (List.Subset.refl _) rfl rfl rfl rfl)
    (List.forall_mem_nil _) fun k hk => ?_
  refine (List.mem_append.1 hk).symm.imp_right fun hk => ⟨?_, ?_⟩
  · exact h.deleted _ (task_mem hi) _ List.mem_cons_self k hk
  · rintro rfl t ht l hl
    exact (h.covered _ (task_mem hi) _ List.mem_cons_self hk t ht l hl).mono (List.Subset.refl _)

theorem kept_step (h : Kept g ts f) (hok : Undisturbed ⟨g, ts⟩ ins)
    (hi : ts[i]? = some (ins :: rest)) :
    Kept (atomic saved g ins).1
      (ts.set i ((Outcome.next (atomic saved g ins).1 (atomic saved g ins).2).resume rest)) f := by
  have base := Frame.refl g f
  have hhead : Removed g f → ¬ Enrolls g f ins := fun hr =>
    (h.tokenless hr).tasks _ (task_mem hi) ins List.mem_cons_self
  cases ins with
  | hello x =>
    refine h.frame hi (frame_links rfl rfl (List.Subset.refl _) rfl rfl rfl rfl) ?_ fun _ => .inl
    intro j hj
    obtain rfl := List.mem_singleton.1 hj
    refine ⟨?_, fun _ => trivial, nofun, nofun⟩
    rintro hr ⟨rfl, t, ht, hne⟩
    exact hne ((h.tokenless hr).token t ht)
  | admitAgent c token =>
    simp only [atomic]
    split
    · exact h.links hi base rfl (by simp [Instr.plain])
    · refine h.frame hi base ?_ fun _ => .inl
      intro j hj
      obtain rfl := List.mem_singleton.1 hj
      refine ⟨?_, fun _ => trivial, nofun, nofun⟩
      rintro hr ⟨hf, hne⟩
      exact hhead hr ⟨hf, _, rfl, hne⟩
    · exact h.links hi base rfl (by simp [Instr.plain])
  | validEnrollToken c token =>
    simp only [atomic]
    split
    · rename_i hvalid
      refine h.frame hi base ?_ fun _ => .inl
      intro j hj
      obtain rfl := List.mem_singleton.1 hj
      refine ⟨fun hr hf => ?_, fun _ => trivial, nofun, nofun⟩
      refine hhead hr ⟨hf, fun he => ?_⟩
      rw [not_valid_of_expired he] at hvalid
      cases hvalid
    · exact h.links hi base rfl (by simp [Instr.plain])
  | createSystem c =>
    simp only [atomic]
    split
    · rename_i hcreate
      exact h.links hi (frame_createSystem hcreate hhead) rfl (by simp [Instr.plain])
    · exact h.links hi base rfl (by simp [Instr.plain])
  | register system c =>
    exact h.links hi (frame_links rfl rfl (List.Subset.refl _) rfl rfl rfl rfl) rfl
      (by simp [atomic, Instr.plain])
  | recheck system c ok =>
    simp only [atomic]
    split
    · rename_i hpass
      refine h.frame hi base ?_ fun _ => .inl
      intro j hj
      obtain rfl := List.mem_singleton.1 hj
      refine ⟨fun _ => id, fun hr hf => ?_, nofun, nofun⟩
      obtain ⟨row, hrow, he⟩ := Option.map_eq_some_iff.1 (hok hpass)
      exact absurd (he.trans hf) (lookup_eq_none.1 (h.absent hr) row (lookup_mem hrow))
    · exact h.links hi base rfl (by simp [Instr.plain])
  | refuse system c =>
    exact h.links hi (frame_unlink ..).1 (frame_unlink g f ..).2 (by simp [atomic, Instr.plain])
  | reply system c =>
    exact h.links hi (frame_reply ..).1 (frame_reply g f c).2 (by simp [atomic, Instr.plain])
  | unregister system cid =>
    exact h.links hi (frame_unlink ..).1 (frame_unlink g f ..).2 (by simp [atomic, Instr.plain])
  | close cid => exact h.links hi (frame_close g f cid) rfl (List.forall_mem_nil _)
  | readReply n =>
    simp only [atomic]
    split
    · exact h.links hi (frame_seen ..).1 (frame_seen g f ..).2 (List.forall_mem_nil _)
    · exact h.links hi base rfl (List.forall_mem_nil _)
  | restartAgent x =>
    exact h.links hi (frame_setHost (fun _ => .inr) fun _ => id) rfl (List.forall_mem_nil _)
  | lookupSystem system =>
    simp only [atomic]
    split <;> exact h.links hi base rfl (by simp [Instr.plain])
  | deleteRow system x => exact kept_deleteRow h hok hi
  | dropLink system fingerprints => exact kept_dropLink h hok hi
  | closeLink cid deleted => exact kept_closeLink h hi
  | returned deleted => exact kept_returned h hi
  | createToken ttl => exact h.links hi (frame_createToken g f ttl) rfl (List.forall_mem_nil _)
  | giveToken x token => exact kept_giveToken h hi
  | tick elapsed => exact h.links hi (frame_tick g f elapsed) rfl (List.forall_mem_nil _)

theorem history_grows (saved : Bool) (g : State) (ins : Instr) (f : ℕ) :
    g.given f ≤ (atomic saved g ins).1.given f ∧ g.gone ⊆ (atomic saved g ins).1.gone := by
  have same : g.given f ≤ g.given f ∧ g.gone ⊆ g.gone := ⟨le_rfl, List.Subset.refl _⟩
  cases ins with
  | admitAgent | createSystem | lookupSystem | deleteRow =>
    simp only [atomic]
    split <;> exact same
  | refuse | unregister =>
    simp only [atomic, State.unlink]
    split_ifs <;> exact same
  | reply =>
    simp only [atomic, State.reply]
    split_ifs <;> exact same
  | readReply =>
    simp only [atomic, State.seen]
    split
    · split_ifs <;> exact same
    · exact same
  | giveToken x token =>
    refine ⟨?_, List.Subset.refl _⟩
    simp only [atomic, State.giveToken, Function.update_apply]
    split_ifs with hx
    · rw [hx]
      exact Nat.le_succ _
    · exact le_rfl
  | returned deleted => exact ⟨le_rfl, List.subset_append_right _ _⟩
  | _ => exact same

/-- A row is created by a handler with a valid token, and an agent is accepted on a
connection that is open. A deleted agent has neither. -/
theorem counts_step (h : Kept g ts f) (hd : g.Deleted f) (hi : ts[i]? = some (ins :: rest)) :
    (atomic saved g ins).1.created.count f = g.created.count f ∧
      (atomic saved g ins).1.accepted.count f = g.accepted.count f := by
  have hhead := (h.tokenless (h.gone _ hd)).tasks _ (task_mem hi) ins List.mem_cons_self
  have hcovers := h.answered hd _ (task_mem hi) ins List.mem_cons_self
  cases ins with
  | createSystem c =>
    simp only [atomic]
    split
    · exact ⟨List.count_cons_of_ne hhead, rfl⟩
    · exact ⟨rfl, rfl⟩
  | reply system c =>
    simp only [atomic, State.reply]
    split_ifs with hclosed
    · exact ⟨rfl, rfl⟩
    · have hne : c.fingerprint ≠ f := fun hf => hclosed ((hcovers hf).resolve_right nofun)
      exact ⟨rfl, List.count_cons_of_ne hne⟩
  | admitAgent | lookupSystem | deleteRow =>
    simp only [atomic]
    split <;> exact ⟨rfl, rfl⟩
  | refuse | unregister =>
    simp only [atomic, State.unlink]
    split_ifs <;> exact ⟨rfl, rfl⟩
  | readReply =>
    simp only [atomic, State.seen]
    split
    · split_ifs <;> exact ⟨rfl, rfl⟩
    · exact ⟨rfl, rfl⟩
  | _ => exact ⟨rfl, rfl⟩

end step

theorem Kept.idle {g : State} (f : ℕ) (hremoved : g.removed = []) (hgone : g.gone = []) :
    Kept g [] f := by
  have hnot : ∀ p, p ∉ g.removed := by
    rw [hremoved]
    exact fun _ => List.not_mem_nil
  have hgone : ∀ p, p ∉ g.gone := by
    rw [hgone]
    exact fun _ => List.not_mem_nil
  exact ⟨fun _ h => absurd h (hnot _), fun h => absurd h (hnot _), fun h => absurd h (hnot _),
    fun _ h => absurd h (hgone _), nofun, nofun, nofun⟩

theorem Kept.start {g : State} {ts : List (List Instr)} {f : ℕ} (h : Kept g ts f) (r : Request) :
    Kept g (ts ++ [code r]) f := by
  have hplain : ∀ j ∈ code r, j.plain := by
    cases r <;> simp [code, Instr.plain]
  have hfresh (j : Instr) (hj : j ∈ code r) : Fresh g g ts f j := fresh_of_plain (hplain j hj)
  have hcovers {link : Option ℕ} (hc : ∀ t ∈ ts, ∀ j ∈ t, Covers g link f j) :
      ∀ t ∈ ts ++ [code r], ∀ j ∈ t, Covers g link f j :=
    forall_start hc fun j hj => covers_of_plain (hplain j hj)
  exact ⟨h.bound, h.absent,
    fun hr => ⟨(h.tokenless hr).token, (h.tokenless hr).saved, forall_start (h.tokenless hr).tasks
      fun j hj => not_enrolls_of_plain (hplain j hj)⟩,
    h.gone, fun hd => hcovers (h.answered hd), forall_start h.deleted fun j hj => (hfresh j hj).deleted,
    forall_start (fun t ht j hj hk => hcovers (h.covered t ht j hj hk)) fun j hj hk =>
      hcovers ((hfresh j hj).covered hk)⟩

theorem Kept.restart {g g' : State} {ts : List (List Instr)} {f : ℕ} (h : Kept g ts f)
    (hg : g' = { g with agents := fun _ => none }) : Kept g' [] f := by
  subst hg
  exact ⟨h.bound, h.absent, fun hr => ⟨(h.tokenless hr).token, (h.tokenless hr).saved, nofun⟩,
    h.gone, fun _ => nofun, nofun, nofun⟩

structure Since (g d : State) (f : ℕ) : Prop where
  given : g.given f ≤ d.given f
  deleted : d.given f = g.given f → d.Deleted f
  created : d.given f = g.given f → d.created.count f = g.created.count f
  accepted : d.given f = g.given f → d.accepted.count f = g.accepted.count f

theorem since_step {g d : State} {ts : List (List Instr)} {f i : ℕ} {ins : Instr}
    {rest : List Instr} {saved : Bool} (hs : Since g d f) (h : Kept d ts f)
    (hi : ts[i]? = some (ins :: rest)) : Since g (atomic saved d ins).1 f := by
  obtain ⟨hgiven, hgone⟩ := history_grows saved d ins f
  have hbefore (heq : (atomic saved d ins).1.given f = g.given f) : d.given f = g.given f :=
    le_antisymm (heq ▸ hgiven) hs.given
  refine ⟨hs.given.trans hgiven, fun heq => ?_, fun heq => ?_, fun heq => ?_⟩
  · have hd : d.Deleted f := hs.deleted (hbefore heq)
    unfold State.Deleted at hd ⊢
    rw [heq, ← hbefore heq]
    exact hgone hd
  · exact (counts_step h (hs.deleted (hbefore heq)) hi).1.trans (hs.created (hbefore heq))
  · exact (counts_step h (hs.deleted (hbefore heq)) hi).2.trans (hs.accepted (hbefore heq))

theorem kept_run {c d : Config State Instr} {acts : List (Action Bool Request)}
    (hc : ∀ f, Kept c.global c.tasks f)
    (hm : Runs.Meets machine.step (Machine.Guard Undisturbed) c acts)
    (he : Runs.exec machine.step c acts = some d) : ∀ f, Kept d.global d.tasks f := by
  refine machine.guarded_invariant (J := fun c => ∀ f, Kept c.global c.tasks f) ?_ ?_ ?_ hc hm he
  · exact fun c r h f => (h f).start r
  · rintro c i ins rest o out h hok hi ⟨⟩ f
    exact kept_step (h f) hok hi
  · rintro c g h ⟨⟩ f
    exact (h f).restart rfl

theorem since_run {c d : Config State Instr} {acts : List (Action Bool Request)} {f : ℕ}
    (hc : Kept c.global c.tasks f) (hdel : c.global.Deleted f)
    (hm : Runs.Meets machine.step (Machine.Guard Undisturbed) c acts)
    (he : Runs.exec machine.step c acts = some d) :
    Since c.global d.global f ∧ Kept d.global d.tasks f := by
  refine machine.guarded_invariant
    (J := fun d => Since c.global d.global f ∧ Kept d.global d.tasks f) ?_ ?_ ?_ ?_ hm he
  · exact fun d r h => ⟨h.1, h.2.start r⟩
  · rintro d i ins rest o out h hok hi ⟨⟩
    exact ⟨since_step h.1 h.2 hi, kept_step h.2 hok hi⟩
  · rintro d g ⟨hs, hk⟩ ⟨⟩
    exact ⟨⟨hs.given, hs.deleted, hs.created, hs.accepted⟩, hk.restart rfl⟩
  · exact ⟨⟨le_rfl, fun _ => hdel, fun _ => rfl, fun _ => rfl⟩, hc⟩

/-- In every run whose steps meet the condition: once `deleteSystem` for a system has
returned, and as long as its agent is given no new token, there is no row with the agent's
key, none is created and the agent is not accepted. -/
theorem deleted_stays_deleted {systems : Systems} {tokens : List ℤ} {hosts : ℕ → Agent} {now : ℤ}
    {acts later : List (Action Bool Request)} {c d : Config State Instr} {f : ℕ}
    (hm : Runs.Meets machine.step (Machine.Guard Undisturbed) (init systems tokens hosts now) acts)
    (he : Runs.exec machine.step (init systems tokens hosts now) acts = some c)
    (hdel : c.global.Deleted f)
    (hm' : Runs.Meets machine.step (Machine.Guard Undisturbed) c later)
    (he' : Runs.exec machine.step c later = some d) (hgiven : d.global.given f = c.global.given f) :
    d.global.systems.systemByFingerprint f = none ∧
      d.global.created.count f = c.global.created.count f ∧
      d.global.accepted.count f = c.global.accepted.count f := by
  have hkept := kept_run (fun f => .idle f rfl rfl) hm he f
  obtain ⟨hs, hd⟩ := since_run hkept hdel hm' he'
  exact ⟨hd.absent (hd.gone _ (hs.deleted hgiven)), hs.created hgiven, hs.accepted hgiven⟩

def newHub : Config State Instr := init ⟨[], List.nodup_nil⟩ [100] (fun _ => ⟨none, none, 0⟩) 0

def steps (i n : ℕ) : List (Action Bool Request) := List.replicate n (.run i true)

def enrollment : List (Action Bool Request) :=
  .start (.giveToken 7 0) :: steps 0 1 ++ .start (.hello 7) :: steps 1 8

def enrolled : List (Action Bool Request) := enrollment ++ .start (.readReply 0) :: steps 2 1

def comesBack (n : ℕ) : List (Action Bool Request) := .start (.hello 7) :: steps 4 n

def readThenDeleted : List (Action Bool Request) :=
  enrolled ++ .start (.deleteSystem 1) :: steps 3 5

theorem deleted_stays_deleted_read : ∃ c d,
    Runs.exec machine.step newHub readThenDeleted = some c ∧ c.global.Deleted 7 ∧
    Runs.exec machine.step c (comesBack 3) = some d ∧
    d.global.systems.systemByFingerprint 7 = none ∧
    d.global.accepted.count 7 = c.global.accepted.count 7 := by
  have hm : Runs.Meets machine.step (Machine.Guard Undisturbed) newHub readThenDeleted := by
    decide +kernel
  have h := @deleted_stays_deleted _ _ _ _ _ (comesBack 3) _ _ 7 hm rfl (by decide +kernel)
    (by decide +kernel) rfl rfl
  exact ⟨_, _, rfl, by decide +kernel, rfl, h.1, h.2.2⟩

/-- The link drops before the agent has read the reply, so that it keeps its token. After
its system is deleted it enrolls again. -/
theorem deleted_system_enrolls_again : ∃ c d,
    Runs.exec machine.step newHub (enrollment ++ .start (.dropConn 0) :: steps 2 1 ++
      .start (.deleteSystem 1) :: steps 3 5) = some c ∧
    c.global.Deleted 7 ∧ c.global.systems.systemByFingerprint 7 = none ∧
    Runs.exec machine.step c (comesBack 8) = some d ∧
    d.global.given 7 = c.global.given 7 ∧
    d.global.systems.systemByFingerprint 7 = some ⟨1, 7⟩ ∧
    d.global.accepted.count 7 = c.global.accepted.count 7 + 1 :=
  ⟨_, _, rfl, by decide +kernel, by decide +kernel, rfl, rfl, by decide +kernel, by decide +kernel⟩

-- The row that the re-check finds belongs to agent 8, which was given the id in between.
example : ((Runs.exec machine.step newHub (enrolled ++ [.start (.hello 7)] ++ steps 3 2 ++
    .start (.deleteSystem 1) :: steps 4 5 ++ .start (.giveToken 8 0) :: steps 5 1 ++
    .start (.hello 8) :: steps 6 8 ++ steps 3 4)).map fun d =>
    (decide (d.global.Deleted 7), d.global.accepted)) = some (true, [7, 8, 7]) := by
  decide +kernel

-- A connection that passed the re-check was replaced, but is not closed yet.
example : ((Runs.exec machine.step newHub (enrolled ++ [.start (.hello 7)] ++ steps 3 5 ++
    .start (.hello 7) :: steps 4 3 ++ .start (.deleteSystem 1) :: steps 5 5 ++ steps 3 1)).map
    fun d => (decide (d.global.Deleted 7), d.global.accepted)) = some (true, [7, 7]) := by
  decide +kernel

end Lotse.Enroll
