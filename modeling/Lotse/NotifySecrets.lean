import Lotse.Notify

set_option autoImplicit false

namespace Lotse.Notify

def ChannelType.sends : ChannelType → Secret → Bool
  | .ntfy, .token | .telegram, .token | .email, .password => true
  | _, _ => false

/-- The condition on a request, in the state before it: a secret that is kept and that the
type of the request transmits belongs to a channel of that type. -/
def KeepsWithinType (s : State) : Op → Prop
  | .save i _ | .test i _ => ∀ stored ∈ s.channel i.id, ∀ type ∈ notifierTypes i.type, ∀ secret,
      type.sends secret → i.config.secret secret = "" →
        stored.type = type ∨ stored.config.secret secret = ""
  | .deliver .. => True

instance (s : State) : (op : Op) → Decidable (KeepsWithinType s op)
  | .save i _ | .test i _ => inferInstanceAs (Decidable (∀ stored ∈ s.channel i.id,
      ∀ type ∈ notifierTypes i.type, ∀ secret, type.sends secret → i.config.secret secret = "" →
        stored.type = type ∨ stored.config.secret secret = ""))
  | .deliver .. => .isTrue trivial

theorem mem_transmitted {steps : List Step} {u : Secret × String} (h : u ∈ transmitted steps) :
    .transmit u.1 u.2 ∈ steps := by
  induction steps with
  | nil => cases h
  | cons step steps ih =>
    match step with
    | .transmit secret value =>
      rcases List.mem_cons.1 h with rfl | h
      · exact List.mem_cons_self
      · exact List.mem_cons_of_mem _ (ih h)
    | .check none => exact List.mem_cons_of_mem _ (ih h)
    | .check (some _) => cases h

theorem mem_send {E : Env} {a : Answers} {c : NotifierConfig} {type : ChannelType} {secret : Secret}
    {value : String} (h : .transmit secret value ∈ send E a c type) :
    type.sends secret ∧ value = c.secret secret := by
  cases type with
  | ntfy =>
    simp only [send, sendNtfy] at h
    split_ifs at h <;> simp at h
    obtain ⟨rfl, rfl⟩ := h
    exact ⟨rfl, rfl⟩
  | discord | slack | webhook => simp [send, postJSON] at h
  | telegram =>
    simp [send, postJSON] at h
    obtain ⟨rfl, rfl⟩ := h
    exact ⟨rfl, rfl⟩
  | email =>
    simp only [send, sendEmail] at h
    split_ifs at h <;> simp at h
    all_goals
      obtain ⟨rfl, rfl⟩ := h
      exact ⟨rfl, rfl⟩

theorem needURL_eq {E : Env} {c c' : NotifierConfig} (h : c.needURL E = .ok c') : c' = c := by
  unfold NotifierConfig.needURL at h
  split at h
  · split_ifs at h
    cases h
    rfl
  · cases h

theorem validate_secret {E : Env} {c c' : NotifierConfig} {type : ChannelType}
    (h : c.validate E type = .ok c') (secret : Secret) : c'.secret secret = c.secret secret := by
  cases type with
  | ntfy | discord | slack | webhook => rw [needURL_eq h]
  | telegram =>
    simp only [NotifierConfig.validate] at h
    split_ifs at h
    cases h
    rfl
  | email =>
    simp only [NotifierConfig.validate] at h
    split_ifs at h <;> cases h <;> cases secret <;> rfl

theorem keepSecrets_secret (c stored : NotifierConfig) (secret : Secret) :
    (c.keepSecrets stored).secret secret =
      if c.secret secret = "" then stored.secret secret else c.secret secret := by
  cases secret <;> rfl

theorem channel_eq {s : State} {id : ℤ} {c : Channel} (h : s.channel id = some c) :
    c ∈ s.channels ∧ (c.id : ℤ) = id :=
  ⟨List.mem_of_find?_eq_some h, by simpa using List.find?_some h⟩

theorem parseNotifier_spec {E : Env} {s : State} {i : NotifierInput} {d : Draft}
    (h : parseNotifier E s i = .ok d) :
    notifierTypes i.type = some d.type ∧ d.id = i.id ∧ ∀ secret,
      d.config.secret secret = i.config.secret secret ∨
      ∃ stored, s.channel i.id = some stored ∧ i.config.secret secret = "" ∧
        d.config.secret secret = stored.config.secret secret := by
  unfold parseNotifier at h
  cases ht : notifierTypes i.type with
  | none =>
    rw [ht] at h
    cases h
  | some type =>
    rw [ht] at h
    dsimp only at h
    split_ifs at h
    cases hw : s.withSecrets i with
    | error e =>
      rw [hw] at h
      cases h
    | ok config =>
      rw [hw] at h
      cases hv : config.validate E type with
      | error e =>
        simp only [bind, Except.bind, hv] at h
        cases h
      | ok config' =>
        simp only [bind, Except.bind, hv] at h
        cases h
        refine ⟨rfl, rfl, fun secret => ?_⟩
        rw [validate_secret hv]
        unfold State.withSecrets at hw
        split_ifs at hw
        · cases hc : s.channel i.id with
          | none =>
            rw [hc] at hw
            cases hw
          | some stored =>
            rw [hc] at hw
            cases hw
            rw [keepSecrets_secret]
            split_ifs with hempty
            · exact .inr ⟨stored, rfl, hempty, rfl⟩
            · exact .inl rfl
        · cases hw
          exact .inl rfl

/-- Every secret that a channel's type transmits, and every one that was sent, was entered
for that type. -/
structure Owned (s : State) : Prop where
  stored : ∀ c ∈ s.channels, ∀ secret, c.type.sends secret →
    ⟨c.id, c.type, secret, c.config.secret secret⟩ ∈ s.entered
  sent : ∀ u ∈ s.sent, u ∈ s.entered

theorem mem_enter (s : State) (channel : ℤ) (type : ChannelType) (c : NotifierConfig)
    (secret : Secret) : ⟨channel, type, secret, c.secret secret⟩ ∈ (s.enter channel type c).entered := by
  cases secret
  · exact List.mem_cons_self
  · exact List.mem_cons_of_mem _ List.mem_cons_self

theorem enter_mono {s : State} {u : Use} (h : u ∈ s.entered) (channel : ℤ) (type : ChannelType)
    (c : NotifierConfig) : u ∈ (s.enter channel type c).entered :=
  List.mem_cons_of_mem _ (List.mem_cons_of_mem _ h)

theorem parsed_entered {E : Env} {s : State} {i : NotifierInput} {d : Draft} (h : Owned s)
    (hp : parseNotifier E s i = .ok d)
    (hok : ∀ stored ∈ s.channel i.id, ∀ type ∈ notifierTypes i.type, ∀ secret,
      type.sends secret → i.config.secret secret = "" →
        stored.type = type ∨ stored.config.secret secret = "")
    {secret : Secret} (hs : d.type.sends secret) {channel : ℤ} (hc : i.id ≠ 0 → channel = i.id) :
    ⟨channel, d.type, secret, d.config.secret secret⟩ ∈
      (s.enter channel d.type i.config).entered := by
  obtain ⟨htype, -, hsecret⟩ := parseNotifier_spec hp
  rcases hsecret secret with hsame | ⟨stored, hstored, hempty, hsame⟩
  · rw [hsame]
    exact mem_enter ..
  · obtain ⟨hmem, hid⟩ := channel_eq hstored
    rcases hok stored hstored d.type htype secret hs hempty with ht | hnone
    · have hne : i.id ≠ 0 := by
        rw [← hid]
        exact_mod_cast stored.id.ne_zero
      have hentered := h.stored stored hmem secret (ht ▸ hs)
      rw [hid, ht, ← hsame, ← hc hne] at hentered
      exact enter_mono hentered ..
    · rw [hsame, hnone, ← hempty]
      exact mem_enter ..

theorem owned_save {E : Env} {s : State} {i : NotifierInput} {now : ℤ} (h : Owned s)
    (hok : KeepsWithinType s (.save i now)) : Owned (saveNotifier E s i now) := by
  unfold saveNotifier
  cases hp : parseNotifier E s i with
  | error message => exact ⟨h.stored, h.sent⟩
  | ok d =>
    obtain ⟨-, hid, -⟩ := parseNotifier_spec hp
    dsimp only
    split_ifs with hzero
    · refine ⟨fun c hc secret hs => ?_, fun u hu => enter_mono (h.sent u hu) ..⟩
      rcases List.mem_append.1 hc with hc | hc
      · exact enter_mono (h.stored c hc secret hs) ..
      · rw [List.mem_singleton.1 hc] at hs ⊢
        exact parsed_entered h hp hok hs fun hne => absurd (hid ▸ hzero) hne
    · refine ⟨fun c hc secret hs => ?_, fun u hu => enter_mono (h.sent u hu) ..⟩
      obtain ⟨c, hmem, rfl⟩ := List.mem_map.1 hc
      split_ifs at hs ⊢ with hsame
      · rw [hsame]
        exact parsed_entered h hp hok hs fun _ => hid
      · exact enter_mono (h.stored c hmem secret hs) ..

theorem owned_transmit {s : State} (h : Owned s) {channel : ℤ} {type : ChannelType} {steps : List Step}
    (hu : ∀ secret value, .transmit secret value ∈ steps → ⟨channel, type, secret, value⟩ ∈ s.entered) :
    Owned (s.transmit channel type steps) := by
  refine ⟨h.stored, fun u hmem => ?_⟩
  rcases List.mem_append.1 hmem with hmem | hmem
  · exact h.sent u hmem
  · obtain ⟨v, hv, rfl⟩ := List.mem_map.1 hmem
    exact hu v.1 v.2 (mem_transmitted hv)

theorem owned_test {E : Env} {s : State} {i : NotifierInput} {a : Answers} (h : Owned s)
    (hok : KeepsWithinType s (.test i a)) : Owned (testNotifier E s i a) := by
  unfold testNotifier
  dsimp only
  -- only the name is filled in
  generalize hi : (if i.name = "" then { i with name := "test" } else i) = j
  have hj : j.id = i.id ∧ j.type = i.type ∧ j.config = i.config := by
    subst hi
    split_ifs <;> exact ⟨rfl, rfl, rfl⟩
  have hok : KeepsWithinType s (.test j a) := by
    simp only [KeepsWithinType, hj.1, hj.2.1, hj.2.2]
    exact hok
  cases hp : parseNotifier E s j with
  | error message => exact ⟨h.stored, h.sent⟩
  | ok d =>
    obtain ⟨-, hid, -⟩ := parseNotifier_spec hp
    have hentered : Owned (s.enter d.id d.type j.config) :=
      ⟨fun c hc secret hs => enter_mono (h.stored c hc secret hs) ..,
        fun u hu => enter_mono (h.sent u hu) ..⟩
    have hsent : Owned ((s.enter d.id d.type j.config).transmit d.id d.type
        (send E a d.config d.type)) := by
      refine owned_transmit hentered fun secret value hmem => ?_
      obtain ⟨hs, rfl⟩ := mem_send hmem
      exact parsed_entered h hp hok hs fun _ => hid
    dsimp only
    cases outcome (send E a d.config d.type) <;> exact ⟨hsent.stored, hsent.sent⟩

theorem attempts_subset {sends made : List (List Step)} {error : String}
    (h : attempts sends = (made, error)) : made ⊆ sends := by
  induction sends generalizing made error with
  | nil =>
    cases h
    exact List.nil_subset _
  | cons steps rest ih =>
    unfold attempts at h
    split at h
    · cases h
      exact List.cons_subset_cons _ (List.nil_subset _)
    · split_ifs at h
      · cases h
        exact List.cons_subset_cons _ (List.nil_subset _)
      · cases h
        exact List.cons_subset_cons _ (ih rfl)

theorem owned_attempts {s : State} (h : Owned s) {channel : ℤ} {type : ChannelType}
    {made : List (List Step)} (hu : ∀ steps ∈ made, ∀ secret value,
      .transmit secret value ∈ steps → ⟨channel, type, secret, value⟩ ∈ s.entered) :
    Owned (made.foldl (fun s steps => s.transmit channel type steps) s) := by
  induction made generalizing s with
  | nil => exact h
  | cons steps made ih =>
    refine ih (owned_transmit h (hu steps List.mem_cons_self)) fun steps hsteps => ?_
    exact hu steps (List.mem_cons_of_mem _ hsteps)

theorem owned_deliver {E : Env} {s : State} {id : ℤ} {answers : ℕ → Answers} {now : ℤ} (h : Owned s) :
    Owned (deliver E s id answers now) := by
  unfold deliver
  cases hc : s.channel id with
  | none => exact h
  | some c =>
    obtain ⟨hmem, hid⟩ := channel_eq hc
    dsimp only
    split_ifs
    · exact h
    · generalize hat : attempts ([answers 0, answers 1, answers 2].map (send E · c.config c.type)) = out
      obtain ⟨made, error⟩ := out
      have hsub := attempts_subset hat
      have howned : Owned (made.foldl (fun s steps => s.transmit id c.type steps) s) := by
        refine owned_attempts h fun steps hsteps secret value hu => ?_
        obtain ⟨a, -, rfl⟩ := List.mem_map.1 (hsub hsteps)
        obtain ⟨hs, rfl⟩ := mem_send hu
        rw [← hid]
        exact h.stored c hmem secret hs
      refine ⟨fun d hd secret hs => ?_, howned.sent⟩
      obtain ⟨d, hmem, rfl⟩ := List.mem_map.1 hd
      split_ifs at hs ⊢
      · exact howned.stored d hmem secret hs
      · exact howned.stored d hmem secret hs

/-- In every sequence of requests that keep a secret only within its type, every secret that
is sent was entered for the type it is sent to. -/
theorem secrets_stay_with_service {E : Env} {ops : List Op} {s : State}
    (hm : Runs.Meets (step E) KeepsWithinType init ops) (he : Runs.exec (step E) init ops = some s) :
    ∀ u ∈ s.sent, u ∈ s.entered := by
  have owned : Owned s := by
    refine Runs.exec_guarded ?_ (I := Owned)
      ⟨fun c hc => absurd hc List.not_mem_nil, fun u hu => absurd hu List.not_mem_nil⟩ hm he
    intro s op t h hok hs
    cases op with
    | save i now =>
      cases hs
      exact owned_save h hok
    | test i a =>
      cases hs
      exact owned_test h hok
    | deliver id answers now =>
      cases hs
      exact owned_deliver h
  exact owned.sent

/-- A library whose only complaint about a URL is the escape `%zz`. -/
def sampleEnv : Env where
  parseURL _ := some ("https", "ntfy.example")
  requestError url :=
    if "%zz".toList <:+: url.toList then
      some ("parse \"" ++ url ++ "\": invalid URL escape \"%zz\"")
    else none
  names_url := by
    intro url err h
    split_ifs at h
    cases h
    simp only [String.toList_append]
    exact ⟨_, _, rfl⟩

def sampleAnswers : Answers where
  http := .response 200 "200 OK" ""
  smtp := ⟨fun _ _ _ => none, none, true, none, none, none, fun _ => none, none, none, none⟩

def emptyConfig : NotifierConfig := ⟨"", "", "", "", 0, "", "", "", "", ""⟩

def newChannel : Op :=
  .save ⟨0, "Phone", "ntfy", true,
    { emptyConfig with url := "https://ntfy.example/lotse", token := "tk_secret" }⟩ 0

def renamed : List Op :=
  [newChannel, .save ⟨1, "My phone", "ntfy", true,
    { emptyConfig with url := "https://ntfy.example/lotse" }⟩ 0, .deliver 1 (fun _ => sampleAnswers) 1]

theorem secrets_stay_renamed : ∃ s,
    Runs.Meets (step sampleEnv) KeepsWithinType init renamed ∧
    Runs.exec (step sampleEnv) init renamed = some s ∧
    s.sent = [⟨1, .ntfy, .token, "tk_secret"⟩] ∧ ∀ u ∈ s.sent, u ∈ s.entered := by
  have hm : Runs.Meets (step sampleEnv) KeepsWithinType init renamed := by decide +kernel
  exact ⟨_, hm, rfl, by decide +kernel, secrets_stay_with_service hm rfl⟩

/-- The channel is turned into a Telegram channel with the token left empty: the token of the
ntfy server is sent to Telegram. -/
theorem token_sent_elsewhere : ∃ s, Runs.exec (step sampleEnv) init
      [newChannel, .save ⟨1, "Phone", "telegram", true, { emptyConfig with chatID := "7" }⟩ 0,
        .deliver 1 (fun _ => sampleAnswers) 1] = some s ∧
    s.sent = [⟨1, .telegram, .token, "tk_secret"⟩] ∧ ¬ ∀ u ∈ s.sent, u ∈ s.entered :=
  ⟨_, rfl, by decide +kernel, by decide +kernel⟩

end Lotse.Notify
