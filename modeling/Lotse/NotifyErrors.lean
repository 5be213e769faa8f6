import Lotse.NotifySecrets

set_option autoImplicit false

namespace Lotse.Notify

/-- The configs differ in the secrets only, and have the same secrets set. -/
structure Alike (c c' : NotifierConfig) : Prop where
  rest : ∃ token password, c' = { c with token, password }
  set : ∀ secret, c.secret secret = "" ↔ c'.secret secret = ""

def AlikeRow (c c' : Channel) : Prop := ∃ config, c' = { c with config } ∧ Alike c.config config

def checks (steps : List Step) : List (Option String) :=
  steps.filterMap fun
    | .transmit .. => none
    | .check error => some error

def firstError : List (Option String) → Except String Unit
  | [] => .ok ()
  | none :: errors => firstError errors
  | some error :: _ => .error error

/-- How many checks an attempt passes before the one at which it fails. -/
def failedStep (E : Env) (a : Answers) (c : Channel) : Option ℕ :=
  (checks (send E a c.config c.type)).findIdx? Option.isSome

/-- All three attempts fail, the last one at step `k`. -/
structure FailsAt (E : Env) (answers : ℕ → Answers) (k : ℕ) (c : Channel) : Prop where
  first : (failedStep E (answers 0) c).isSome
  second : (failedStep E (answers 1) c).isSome
  last : failedStep E (answers 2) c = some k

/-- The deliveries to channel `id` of two hubs fail at the same step. -/
def FailAlike (E : Env) (answers : ℕ → Answers) (id : ℤ) (s s' : State) : Prop :=
  ∃ c ∈ s.channel id, ∃ c' ∈ s'.channel id, ∃ k, FailsAt E answers k c ∧ FailsAt E answers k c'

/-- Where the endpoints of two enabled Telegram channels are both refused as URLs, the texts of the
two errors are the same. -/
def SameRequestErrors (E : Env) (id : ℤ) (s s' : State) : Prop :=
  ∀ c ∈ s.channel id, ∀ c' ∈ s'.channel id, c.enabled = true → c.type = .telegram →
    ∀ err ∈ E.requestError (telegramEndpoint c.config.token),
      ∀ err' ∈ E.requestError (telegramEndpoint c'.config.token), err = err'

theorem outcome_eq (steps : List Step) : outcome steps = firstError (checks steps) := by
  induction steps with
  | nil => rfl
  | cons step steps ih =>
    match step with
    | .transmit .. => exact ih
    | .check none => exact ih
    | .check (some _) => rfl

section send
variable {E : Env} {a : Answers} {c c' : NotifierConfig} {type : ChannelType}

theorem outcome_alike (h : Alike c c') (hsame : type = .telegram →
      E.requestError (telegramEndpoint c.token) = E.requestError (telegramEndpoint c'.token)) :
    outcome (send E a c type) = outcome (send E a c' type) := by
  obtain ⟨token, password, rfl⟩ := h.rest
  rw [outcome_eq, outcome_eq]
  congr 1
  cases type with
  | ntfy =>
    simp only [send, sendNtfy]
    split_ifs <;> rfl
  | discord | slack | webhook => rfl
  | telegram => simp [send, postJSON, checks, hsame rfl]
  | email =>
    simp only [send, sendEmail]
    split_ifs <;> simp [checks]

theorem failedStep_telegram {c : Channel} (htype : c.type = .telegram) :
    failedStep E a c = some 0 ↔ (E.requestError (telegramEndpoint c.config.token)).isSome := by
  simp only [failedStep, htype, send, postJSON, checks]
  cases E.requestError (telegramEndpoint c.config.token) <;> simp [List.findIdx?_cons]

theorem masked_alike (h : Alike c c') : c.masked = c'.masked := by
  have htoken := h.set .token
  have hpassword := h.set .password
  obtain ⟨token, password, rfl⟩ := h.rest
  simp only [NotifierConfig.secret] at htoken hpassword
  simp [NotifierConfig.masked, htoken, hpassword]

end send

theorem attempts_error {sends sends' : List (List Step)}
    (h : List.Forall₂ (fun l l' => outcome l = outcome l') sends sends') :
    (attempts sends).2 = (attempts sends').2 := by
  induction h with
  | nil => rfl
  | @cons steps steps' rest rest' hout hrest ih =>
    have hnil : rest = [] ↔ rest' = [] := by
      rw [← List.length_eq_zero_iff, ← List.length_eq_zero_iff, hrest.length_eq]
    simp only [attempts, hout]
    cases outcome steps' with
    | ok => rfl
    | error e =>
      simp only [hnil]
      split_ifs
      · rfl
      · exact ih

theorem foldl_transmit_channels (made : List (List Step)) (id : ℤ) (type : ChannelType) (s : State) :
    (made.foldl (fun s steps => s.transmit id type steps) s).channels = s.channels := by
  induction made generalizing s with
  | nil => rfl
  | cons steps made ih => exact ih _

theorem find_alike {l l' : List Channel} (h : List.Forall₂ AlikeRow l l') (id : ℤ) :
    Option.Rel AlikeRow (l.find? fun c => (c.id : ℤ) = id) (l'.find? fun c => (c.id : ℤ) = id) := by
  induction h with
  | nil => exact .none
  | @cons c c' rest rest' hc _ ih =>
    have hid : c'.id = c.id := by
      obtain ⟨config, rfl, -⟩ := hc
      rfl
    simp only [List.find?_cons, hid]
    split
    · exact .some hc
    · exact ih

def record (id : ℤ) (now : ℤ) (error : String) (c : Channel) : Channel :=
  if (c.id : ℤ) = id then { c with lastSent := now, lastError := error } else c

theorem record_alike {c c' : Channel} (h : AlikeRow c c') (id now : ℤ) (error : String) :
    AlikeRow (record id now error c) (record id now error c') := by
  obtain ⟨config, rfl, hconfig⟩ := h
  unfold record
  dsimp only
  split_ifs
  · exact ⟨config, rfl, hconfig⟩
  · exact ⟨config, rfl, hconfig⟩

section deliver
variable {E : Env} {s s' : State} {id now : ℤ} {answers : ℕ → Answers}

theorem deliver_channels {c : Channel} (hc : s.channel id = some c) (hon : c.enabled = true) :
    (deliver E s id answers now).channels = s.channels.map (record id now
      (attempts ([answers 0, answers 1, answers 2].map (send E · c.config c.type))).2) := by
  unfold deliver
  rw [hc]
  dsimp only
  rw [if_neg (by simp [hon]), foldl_transmit_channels]
  rfl

theorem deliver_alike (h : List.Forall₂ AlikeRow s.channels s'.channels)
    (hsame : ∀ c ∈ s.channel id, ∀ c' ∈ s'.channel id, c.enabled = true → c.type = .telegram →
      E.requestError (telegramEndpoint c.config.token) =
        E.requestError (telegramEndpoint c'.config.token)) :
    List.Forall₂ AlikeRow (deliver E s id answers now).channels
      (deliver E s' id answers now).channels := by
  have hrel := find_alike h id
  generalize hc : (s.channels.find? fun c => (c.id : ℤ) = id) = found at hrel
  generalize hc' : (s'.channels.find? fun c => (c.id : ℤ) = id) = found' at hrel
  cases hrel with
  | none =>
    simp only [deliver, State.channel, hc, hc']
    exact h
  | @some c c' hcc =>
    obtain ⟨config, rfl, hconfig⟩ := hcc
    cases hon : c.enabled with
    | false =>
      simp only [deliver, State.channel, hc, hc', hon, if_true]
      exact h
    | true =>
      rw [deliver_channels hc hon, deliver_channels hc' hon]
      have hout : ∀ a : Answers, outcome (send E a c.config c.type) = outcome (send E a config c.type) :=
        fun a => outcome_alike hconfig (hsame c hc _ hc' hon)
      have herror : (attempts ([answers 0, answers 1, answers 2].map (send E · c.config c.type))).2 =
          (attempts ([answers 0, answers 1, answers 2].map (send E · config c.type))).2 :=
        attempts_error (.cons (hout _) (.cons (hout _) (.cons (hout _) .nil)))
      rw [herror, List.forall₂_map_left_iff, List.forall₂_map_right_iff]
      exact h.imp fun _ _ hrow => record_alike hrow ..

theorem attempts_telegram {c : NotifierConfig} {err : String}
    (herr : E.requestError (telegramEndpoint c.token) = some err) :
    (attempts ([answers 0, answers 1, answers 2].map (send E · c .telegram))).2 = err := by
  simp [attempts, send, postJSON, herr, outcome]

theorem lastError_telegram {c : Channel} (hc : s.channel id = some c) (hon : c.enabled = true)
    (htype : c.type = .telegram) {err : String}
    (herr : E.requestError (telegramEndpoint c.config.token) = some err) :
    (deliver E s id answers now).channels.map Channel.lastError =
      s.channels.map fun d => if (d.id : ℤ) = id then err else d.lastError := by
  rw [deliver_channels hc hon, htype, attempts_telegram herr, List.map_map]
  refine List.map_congr_left fun d _ => ?_
  simp only [Function.comp_apply, record]
  split_ifs <;> rfl

end deliver

theorem getNotifiers_eq (s : State) (role : String) :
    getNotifiers s role = (s.channels.map (notifierDTO role)).insertionSort
      fun d e => before d.name e.name d.id e.id :=
  List.map_insertionSort _ _ _ _ fun _ _ _ _ => Iff.rfl

theorem notifierDTO_alike {c c' : Channel} (h : AlikeRow c c') (role : String) :
    notifierDTO role c = notifierDTO role c' := by
  obtain ⟨config, rfl, hconfig⟩ := h
  simp only [notifierDTO, masked_alike hconfig]

theorem getNotifiers_alike {s s' : State} (h : List.Forall₂ AlikeRow s.channels s'.channels)
    (role : String) : getNotifiers s role = getNotifiers s' role := by
  have hmap : s.channels.map (notifierDTO role) = s'.channels.map (notifierDTO role) := by
    rw [← List.forall₂_eq_eq_eq, List.forall₂_map_left_iff, List.forall₂_map_right_iff]
    exact h.imp fun _ _ hrow => notifierDTO_alike hrow role
  rw [getNotifiers_eq, getNotifiers_eq, hmap]

theorem requestError_eq {E : Env} {answers : ℕ → Answers} {id : ℤ} {s s' : State}
    (hfail : FailAlike E answers id s s') (hsame : SameRequestErrors E id s s') :
    ∀ c ∈ s.channel id, ∀ c' ∈ s'.channel id, c'.type = c.type → c.enabled = true →
      c.type = .telegram → E.requestError (telegramEndpoint c.config.token) =
        E.requestError (telegramEndpoint c'.config.token) := by
  intro c hc c' hc' htypes hon htype
  obtain ⟨d, hd, d', hd', k, hat, hat'⟩ := hfail
  obtain rfl := Option.some.inj (hc.symm.trans hd)
  obtain rfl := Option.some.inj (hc'.symm.trans hd')
  -- both requests are refused, or both are made
  have hzero : (failedStep E (answers 2) c = some 0 ↔ failedStep E (answers 2) c' = some 0) := by
    rw [hat.last, hat'.last]
  rw [failedStep_telegram htype, failedStep_telegram (htypes.trans htype)] at hzero
  cases herr : E.requestError (telegramEndpoint c.config.token) with
  | none =>
    rw [herr] at hzero
    exact (Option.not_isSome_iff_eq_none.1 fun h => by simpa using hzero.2 h).symm
  | some err =>
    rw [herr] at hzero
    obtain ⟨err', herr'⟩ := Option.isSome_iff_exists.1 (hzero.1 rfl)
    rw [herr', hsame c hc c' hc' hon htype err herr err' herr']

theorem find_type {s s' : State} (h : List.Forall₂ AlikeRow s.channels s'.channels) {id : ℤ}
    {c c' : Channel} (hc : s.channel id = some c) (hc' : s'.channel id = some c') :
    ∃ config, c' = { c with config } := by
  have hrel := find_alike h id
  rw [State.channel] at hc hc'
  rw [hc, hc'] at hrel
  cases hrel with
  | some hrow =>
    obtain ⟨config, heq, -⟩ := hrow
    exact ⟨config, heq⟩

theorem failsAt_refused {E : Env} {c : Channel} (htype : c.type = .telegram)
    (herr : (E.requestError (telegramEndpoint c.config.token)).isSome) (answers : ℕ → Answers) :
    FailsAt E answers 0 c := by
  have hzero (i : ℕ) : failedStep E (answers i) c = some 0 := (failedStep_telegram htype).2 herr
  exact ⟨by simp [hzero], by simp [hzero], hzero 2⟩

theorem err_eq_of_lastErrors {l l' : List Channel} (h : List.Forall₂ AlikeRow l l') {id : ℤ}
    {c : Channel} (hc : c ∈ l) (hid : (c.id : ℤ) = id) {err err' : String}
    (heq : (l.map fun d => if (d.id : ℤ) = id then err else d.lastError) =
      l'.map fun d => if (d.id : ℤ) = id then err' else d.lastError) : err = err' := by
  induction h with
  | nil => cases hc
  | cons hrow hrest ih =>
    obtain ⟨config, rfl, -⟩ := hrow
    simp only [List.map_cons, List.cons.injEq] at heq
    rcases List.mem_cons.1 hc with rfl | hc
    · simpa [hid] using heq.1
    · exact ih hc heq.2

def telegramHub (token : String) : State :=
  { init with channels :=
      [⟨1, "Bot", .telegram, { emptyConfig with token, chatID := "7" }, true, 0, "", 0⟩] }

theorem telegramHub_alike {token token' : String} (h : token ≠ "") (h' : token' ≠ "") :
    List.Forall₂ AlikeRow (telegramHub token).channels (telegramHub token').channels := by
  refine .cons ⟨_, rfl, ⟨token', "", rfl⟩, fun secret => ?_⟩ .nil
  cases secret with
  | token => exact iff_of_false h h'
  | password => rfl

def refused : Answers := { sampleAnswers with http := .response 401 "401 Unauthorized" "bad token" }

end Lotse.Notify
