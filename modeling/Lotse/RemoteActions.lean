import Lotse.RemoteMachine

set_option autoImplicit false

namespace Lotse.Remote
open Tasks
open Users (roleIncludes)

/-- The session that was loaded for the request is an operator's, and it was elevated until
the request came or longer. -/
structure Authorised (g : State) (q : Origin) : Prop where
  loaded : q ∈ g.requests
  operator : roleIncludes q.session.role "operator" = true
  elevated : (q.arrived : ℤ) ≤ q.session.elevatedUntil

def Announced (g : State) (ac : AgentConn) : Prop := g.hellos[ac.conn]? = some ac.features

structure Routed (g : State) (q : Origin) (route : Route) : Prop where
  loaded : q ∈ g.requests
  role : ∀ need ∈ route.need, roleIncludes q.session.role need = true

def InstrOk (g : State) : Instr → Prop
  | .lookupSystem q route => Routed g q route
  | .onlineAgent q _ route => Routed g q route
  | .act q ac route => Routed g q route ∧ Announced g ac
  | .handleShell q _ => q ∈ g.requests
  | .shellAgent q _ => Authorised g q
  | .createRun q _ => Authorised g q
  | .runAgent q _ _ _ => Authorised g q
  | .postRun q _ => q ∈ g.requests ∧ roleIncludes q.session.role "operator" = true
  | .send origin ac m => m.remoteAction = true →
    (∃ q, origin = some q ∧ Authorised g q) ∧ Announced g ac ∧ featureShell ∈ ac.features
  | _ => True

def Sent.Ok (g : State) (m : Sent) : Prop := m.message.remoteAction = true →
  (∃ q, m.origin = some q ∧ Authorised g q) ∧
    ∃ features, g.hellos[m.conn]? = some features ∧ featureShell ∈ features

structure StateOk (g : State) : Prop where
  requests : ∀ q ∈ g.requests, q.arrived ≤ g.unix
  agents : ∀ e ∈ g.agents, Announced g e.2
  runs : ∀ r ∈ g.runs, Authorised g r.origin
  sent : ∀ m ∈ g.sent, m.Ok g

structure Grows (g g' : State) : Prop where
  requests : g.requests ⊆ g'.requests
  hellos : g.hellos <+: g'.hellos

structure Keeps (g : State) (out : Outcome State Instr) : Prop where
  grows : Grows g out.global
  state : StateOk out.global
  code : ∀ i ∈ out.code, InstrOk out.global i

section steps
variable {g g' : State} {o : Oracle} {q : Origin} {ac : AgentConn} {route : Route} {m : Message}

theorem Grows.of_eq (hr : g'.requests = g.requests) (hh : g'.hellos = g.hellos) : Grows g g' :=
  ⟨hr ▸ List.Subset.refl _, hh ▸ List.prefix_rfl⟩

theorem Grows.refl (g : State) : Grows g g := .of_eq rfl rfl

theorem Grows.hello {conn : ℕ} {features : List String} (hg : Grows g g')
    (h : g.hellos[conn]? = some features) : g'.hellos[conn]? = some features := by
  obtain ⟨later, hlater⟩ := hg.hellos
  rw [← hlater, List.getElem?_append_left (List.getElem?_eq_some_iff.1 h).1]
  exact h

theorem Authorised.mono (h : Authorised g q) (hg : Grows g g') : Authorised g' q :=
  ⟨hg.requests h.loaded, h.operator, h.elevated⟩

theorem Routed.mono (h : Routed g q route) (hg : Grows g g') : Routed g' q route :=
  ⟨hg.requests h.loaded, h.role⟩

theorem InstrOk.mono {i : Instr} (h : InstrOk g i) (hg : Grows g g') : InstrOk g' i := by
  cases i with
  | lookupSystem q route => exact Routed.mono h hg
  | onlineAgent q system route => exact Routed.mono h hg
  | act q ac route => exact ⟨h.1.mono hg, hg.hello h.2⟩
  | handleShell q system => exact hg.requests h
  | shellAgent q system => exact Authorised.mono h hg
  | createRun q req => exact Authorised.mono h hg
  | runAgent q run shell system => exact Authorised.mono h hg
  | postRun q body => exact ⟨hg.requests h.1, h.2⟩
  | send origin ac m =>
    intro hm
    obtain ⟨⟨q, hq, hauth⟩, hac, hshell⟩ := h hm
    exact ⟨⟨q, hq, hauth.mono hg⟩, hg.hello hac, hshell⟩
  | tick | hello | unregister | broadcastInterval | handle | wake | relay | deleteRow | dropLink
  | lookupRun | cancelRun | runOn | forget => trivial

theorem Sent.Ok.mono {s : Sent} (h : s.Ok g) (hg : Grows g g') : s.Ok g' := by
  intro hm
  obtain ⟨⟨q, hq, hauth⟩, features, hconn, hshell⟩ := h hm
  exact ⟨⟨q, hq, hauth.mono hg⟩, features, hg.hello hconn, hshell⟩

theorem StateOk.step (h : StateOk g) (hg : Grows g g')
    (requests : ∀ q ∈ g'.requests, q.arrived ≤ g'.unix)
    (agents : ∀ e ∈ g'.agents, e ∈ g.agents ∨ Announced g' e.2)
    (runs : ∀ r ∈ g'.runs, Authorised g r.origin)
    (sent : ∀ m ∈ g'.sent, m ∈ g.sent ∨ m.Ok g) : StateOk g' := by
  refine ⟨requests, fun e he => ?_, fun r hr => (runs r hr).mono hg, fun m hm => ?_⟩
  · rcases agents e he with he | he
    · exact hg.hello (h.agents e he)
    · exact he
  · rcases sent m hm with hm | hm
    · exact (h.sent m hm).mono hg
    · exact hm.mono hg

theorem StateOk.reply (h : StateOk g) (r : Reply) : StateOk (g.reply r) :=
  h.step (.of_eq rfl rfl) h.requests (fun _ => .inl) h.runs (fun _ => .inl)

theorem StateOk.updateRun (h : StateOk g) (run : ℕ) {f : Run → Run}
    (hf : ∀ r, (f r).origin = r.origin) : StateOk (g.updateRun run f) := by
  refine h.step (.of_eq rfl rfl) h.requests (fun _ => .inl) (fun r hr => ?_) (fun _ => .inl)
  obtain ⟨r₀, hr₀, rfl⟩ := List.mem_map.1 hr
  have horigin : (if r₀.id = run then f r₀ else r₀).origin = r₀.origin := by
    split_ifs
    · exact hf r₀
    · rfl
  rw [horigin]
  exact h.runs r₀ hr₀

theorem StateOk.finish (h : StateOk g) (run : ℕ) (result : Result) :
    StateOk (g.finish run result) := h.updateRun run fun _ => rfl

theorem StateOk.addRun {r : Run} (h : StateOk g) (hr : Authorised g r.origin) (n : ℕ) :
    StateOk { g with runs := r :: g.runs, nextRun := n } :=
  h.step (.of_eq rfl rfl) h.requests (fun _ => .inl) (List.forall_mem_cons.2 ⟨hr, h.runs⟩)
    (fun _ => .inl)

theorem StateOk.filterAgents (h : StateOk g) (p : ℤ × AgentConn → Bool) :
    StateOk { g with agents := g.agents.filter p } :=
  h.step (.of_eq rfl rfl) h.requests (fun _ he => .inl (List.mem_filter.1 he).1) h.runs
    (fun _ => .inl)

theorem StateOk.log {s : Sent} (h : StateOk g) (hs : s.Ok g) :
    StateOk { g with sent := s :: g.sent } := by
  refine h.step (.of_eq rfl rfl) h.requests (fun _ => .inl) h.runs fun m hm => ?_
  rcases List.mem_cons.1 hm with rfl | hm
  · exact .inr hs
  · exact .inl hm

theorem keeps_stop (h : StateOk g') (hg : Grows g g') : Keeps g (.next g' []) :=
  ⟨hg, h, fun _ hi => (List.not_mem_nil hi).elim⟩

theorem keeps_refuse (h : StateOk g) (status : ℕ) (message : String) :
    Keeps g (refuse g status message) := keeps_stop (h.reply _) (.of_eq rfl rfl)

theorem keeps_failShell (h : StateOk g) (code message : String) :
    Keeps g (failShell g code message) := keeps_stop (h.reply _) (.of_eq rfl rfl)

theorem keeps_reply (h : StateOk g) (r : Reply) : Keeps g (.next (g.reply r) []) :=
  keeps_stop (h.reply r) (.of_eq rfl rfl)

theorem keeps_next {i : Instr} (h : StateOk g) (hi : InstrOk g i) : Keeps g (.next g [i]) :=
  ⟨Grows.refl g, h, fun _ hj => List.mem_singleton.1 hj ▸ hi⟩

theorem Keeps.after {u : State} {out : Outcome State Instr} (h : Keeps u out) (hg : Grows g u) :
    Keeps g out :=
  ⟨⟨fun _ hq => h.grows.requests (hg.requests hq), hg.hellos.trans h.grows.hellos⟩,
    h.state, h.code⟩

theorem agent_announced {system : ℤ} (h : StateOk g) (hac : g.agent system = some ac) :
    Announced g ac := by
  obtain ⟨e, he, rfl⟩ := Option.map_eq_some_iff.1 hac
  exact h.agents e (List.mem_of_find?_eq_some he)

theorem has_eq {feature : String} (h : ¬ ac.has feature = false) : feature ∈ ac.features := by
  simpa [AgentConn.has] using h

theorem elevated_eq {s : Session} (h : ¬ g.elevated s = false) : (g.unix : ℤ) ≤ s.elevatedUntil := by
  simpa [State.elevated] using h

/-- A session that is elevated now was elevated when the request came. -/
theorem authorised_of_elevated (h : StateOk g) (hq : q ∈ g.requests)
    (hrole : roleIncludes q.session.role "operator" = true)
    (hnow : (g.unix : ℤ) ≤ q.session.elevatedUntil) : Authorised g q := by
  have harrived : (q.arrived : ℤ) ≤ g.unix := by exact_mod_cast h.requests q hq
  exact ⟨hq, hrole, harrived.trans hnow⟩

theorem keeps_dispatch (h : StateOk g) (hr : Routed g q route) : Keeps g (dispatch g q route) := by
  cases route with
  | run body => exact keeps_next h ⟨hr.loaded, hr.role _ rfl⟩
  | cancelRun run => exact keeps_next h trivial
  | other get need => exact keeps_reply h _
  | files system request =>
    rw [dispatch]
    cases fileChecks request with
    | error message => exact keeps_refuse h _ _
    | ok u => exact keeps_next h hr
  | shell | power | service | signal | processes | services | wake | update | deleteSystem =>
    exact keeps_next h hr

theorem keeps_requireUser (h : StateOk g) (cookie : Bool) (route : Route) :
    Keeps g (requireUser o g cookie route) := by
  unfold requireUser
  split
  · rename_i s _
    have hgrows : Grows g { g with requests := ⟨s, g.unix⟩ :: g.requests } :=
      ⟨List.subset_cons_self _ _, List.prefix_rfl⟩
    have hstate : StateOk { g with requests := ⟨s, g.unix⟩ :: g.requests } := by
      refine h.step hgrows (fun q hq => ?_) (fun _ => .inl) h.runs (fun _ => .inl)
      rcases List.mem_cons.1 hq with rfl | hq
      · exact Nat.le_refl _
      · exact h.requests q hq
    simp only
    split
    · rename_i hneed
      refine (keeps_dispatch hstate ⟨List.mem_cons_self, ?_⟩).after hgrows
      simp [hneed]
    · rename_i need hneed
      split_ifs with hrole
      · exact (keeps_refuse hstate _ _).after hgrows
      · refine (keeps_dispatch hstate ⟨List.mem_cons_self, fun n hn => ?_⟩).after hgrows
        rw [hneed] at hn
        cases hn
        simpa using hrole
  · exact keeps_refuse h _ _

theorem keeps_handle (h : StateOk g) (crossOrigin cookie : Bool) (route : Route) :
    Keeps g (handle o g crossOrigin cookie route) := by
  rw [handle]
  split_ifs
  · exact keeps_refuse h _ _
  · exact keeps_requireUser h cookie route

theorem keeps_lookupSystem (h : StateOk g) (hr : Routed g q route) :
    Keeps g (lookupSystem o g q route) := by
  unfold lookupSystem
  split
  · exact keeps_refuse h _ _
  · split
    · exact keeps_refuse h _ _
    · exact keeps_refuse h _ _
    · split
      · exact keeps_next h hr.loaded
      · exact keeps_next h trivial
      · exact keeps_next h trivial
      · exact keeps_next h hr

theorem keeps_onlineAgent (h : StateOk g) (hr : Routed g q route) (system : ℤ) :
    Keeps g (onlineAgent g q system route) := by
  unfold onlineAgent
  split
  · exact keeps_refuse h _ _
  · rename_i ac hac
    exact keeps_next h ⟨hr, agent_announced h hac⟩

theorem keeps_control (h : StateOk g) (hq : q ∈ g.requests)
    (hrole : roleIncludes q.session.role "operator" = true) (hac : Announced g ac)
    (disabled : String) (m : Message) : Keeps g (control g q ac disabled m) := by
  rw [control]
  split_ifs with helevated hshell
  · exact keeps_refuse h _ _
  · exact keeps_refuse h _ _
  · have hauth : Authorised g q := authorised_of_elevated h hq hrole (elevated_eq helevated)
    exact keeps_next h fun _ => ⟨⟨q, rfl, hauth⟩, hac, has_eq hshell⟩

theorem keeps_message {origin : Option Origin} (h : StateOk g) (hm : m.remoteAction = false) :
    Keeps g (.next g [.send origin ac m]) :=
  keeps_next h fun hm' => by rw [hm] at hm'; cases hm'

theorem keeps_act (h : StateOk g) (hr : Routed g q route) (hac : Announced g ac) :
    Keeps g (act o g q ac route) := by
  cases route with
  | power system action =>
    rw [act]
    unfold postPower
    split
    · exact keeps_refuse h _ _
    · split_ifs
      · exact keeps_refuse h _ _
      · exact keeps_control h hr.loaded (hr.role _ rfl) hac _ _
  | service system body =>
    rw [act]
    unfold postService
    split
    · exact keeps_refuse h _ _
    · split_ifs
      · exact keeps_refuse h _ _
      · exact keeps_refuse h _ _
      · exact keeps_control h hr.loaded (hr.role _ rfl) hac _ _
  | signal system pid signal =>
    rw [act]
    unfold postSignal
    split
    · exact keeps_refuse h _ _
    · exact keeps_refuse h _ _
    · split_ifs
      · exact keeps_refuse h _ _
      · exact keeps_control h hr.loaded (hr.role _ rfl) hac _ _
  | files system request => exact keeps_control h hr.loaded (hr.role _ rfl) hac _ _
  | processes system limit => exact keeps_message h rfl
  | services system => exact keeps_message h rfl
  | update system =>
    rw [act, postAgentUpdate]
    split_ifs
    · exact keeps_refuse h _ _
    · exact keeps_refuse h _ _
    · exact keeps_refuse h _ _
    · exact keeps_message h rfl
  | shell | wake | deleteSystem | run | cancelRun | other => exact keeps_stop h (Grows.refl g)

theorem keeps_handleShell (h : StateOk g) (hq : q ∈ g.requests) (system : ℤ) :
    Keeps g (handleShell o g q system) := by
  rw [handleShell]
  split_ifs with _ hrole hlate
  · exact keeps_stop h (Grows.refl g)
  · exact keeps_failShell h _ _
  · exact keeps_failShell h _ _
  · exact keeps_next h (authorised_of_elevated h hq (by simpa using hrole) (not_lt.1 hlate))

theorem keeps_shellAgent (h : StateOk g) (hq : Authorised g q) (system : ℤ) :
    Keeps g (shellAgent g q system) := by
  unfold shellAgent
  split
  · exact keeps_failShell h _ _
  · rename_i ac hac
    split_ifs with hshell
    · exact keeps_failShell h _ _
    · exact keeps_next h fun _ => ⟨⟨q, rfl, hq⟩, agent_announced h hac, has_eq hshell⟩

theorem keeps_wake (h : StateOk g) (q : Origin) (system : ℤ) : Keeps g (wake o g q system) := by
  rw [wake]
  split_ifs
  · exact keeps_refuse h _ _
  · exact keeps_next h trivial

theorem keeps_relay (h : StateOk g) (q : Origin) (acs : List AgentConn) :
    Keeps g (relay o g q acs) := by
  unfold relay
  split
  · split_ifs
    · exact keeps_refuse h _ _
    · exact keeps_reply h _
  · rename_i ac acs
    have hlog : StateOk { g with sent := ⟨.wake, ac.conn, some q⟩ :: g.sent } :=
      h.log fun hm => by cases hm
    simp only
    split_ifs
    · exact Keeps.after (keeps_next hlog trivial) (.of_eq rfl rfl)
    · exact Keeps.after (keeps_reply hlog _) (.of_eq rfl rfl)

theorem keeps_deleteRow (h : StateOk g) (system : ℤ) : Keeps g (deleteRow o g system) := by
  rw [deleteRow]
  split_ifs
  · exact keeps_refuse h _ _
  · exact keeps_next h trivial

theorem keeps_postRun (h : StateOk g) (hq : q ∈ g.requests)
    (hrole : roleIncludes q.session.role "operator" = true) (body : Option RunRequest) :
    Keeps g (postRun g q body) := by
  unfold postRun
  split
  · exact keeps_refuse h _ _
  · split_ifs with helevated
    · exact keeps_refuse h _ _
    · exact keeps_next h (authorised_of_elevated h hq hrole (elevated_eq helevated))

/-- A run is stored with an authorised request, which its goroutines do not check again. -/
theorem keeps_createRun (h : StateOk g) (hq : Authorised g q) (req : RunRequest) :
    Keeps g (createRun o g q req) := by
  unfold createRun
  split
  · exact keeps_refuse h _ _
  · split
    · exact keeps_refuse h _ _
    · simp only
      split_ifs
      · exact keeps_refuse h _ _
      · exact keeps_refuse h _ _
      · exact keeps_refuse h _ _
      · exact keeps_stop ((h.addRun hq _).reply _) (.of_eq rfl rfl)

theorem keeps_lookupRun (h : StateOk g) (run : ℕ) : Keeps g (lookupRun o g run) := by
  unfold lookupRun
  split
  · exact keeps_refuse h _ _
  · exact keeps_refuse h _ _
  · exact keeps_next h trivial

theorem keeps_cancelRun (h : StateOk g) (run : ℕ) (finished : Bool) :
    Keeps g (cancelRun g run finished) := by
  rw [cancelRun]
  split_ifs
  · exact keeps_refuse h _ _
  · have hstate : StateOk (g.updateRun run fun r => { r with canceled := true }) :=
      h.updateRun run fun _ => rfl
    exact keeps_stop (hstate.reply _) (.of_eq rfl rfl)

theorem keeps_runOn (h : StateOk g) {r : Run} (hr : r ∈ g.runs) (system : ℤ) :
    Keeps g (runOn g r system) := by
  have hstate : StateOk
      (g.updateRun r.id fun x => { x with pending := x.pending.erase system }) :=
    h.updateRun r.id fun _ => rfl
  unfold runOn
  simp only
  split_ifs
  · exact keeps_stop (hstate.finish _ _) (.of_eq rfl rfl)
  · exact Keeps.after (keeps_next hstate ((h.runs r hr).mono (.of_eq rfl rfl))) (.of_eq rfl rfl)

theorem keeps_runAgent (h : StateOk g) (hq : Authorised g q) (run : ℕ) (shell : String)
    (system : ℤ) : Keeps g (runAgent g q run shell system) := by
  have hskip : ∀ result, Keeps g (.next (g.finish run result) []) :=
    fun result => keeps_stop (h.finish run result) (.of_eq rfl rfl)
  unfold runAgent
  simp only
  split
  · exact hskip _
  · rename_i ac hac
    split_ifs with hshell
    · exact hskip _
    · exact hskip _
    · exact keeps_next h fun _ => ⟨⟨q, rfl, hq⟩, agent_announced h hac, has_eq hshell⟩

theorem keeps_forget {run : ℕ} {out : Outcome State Instr} (h : StateOk g)
    (ho : forget g run = some out) : Keeps g out := by
  rw [forget] at ho
  split_ifs at ho
  cases ho
  exact keeps_stop (h.step (.of_eq rfl rfl) h.requests (fun _ => .inl)
    (fun r hr => h.runs r (List.mem_filter.1 hr).1) (fun _ => .inl)) (.of_eq rfl rfl)

theorem keeps_messageFailed (h : StateOk g) (e : String) (m : Message) :
    Keeps g (messageFailed g e m) := by
  unfold messageFailed
  split
  · exact keeps_failShell h _ _
  · exact keeps_refuse h _ _
  · exact keeps_stop (h.finish _ _) (.of_eq rfl rfl)
  all_goals first | exact keeps_refuse h _ _ | exact keeps_stop h (Grows.refl g)

theorem keeps_send (h : StateOk g) {origin : Option Origin} (hi : InstrOk g (.send origin ac m)) :
    Keeps g (send o g origin ac m) := by
  have hlog : StateOk { g with sent := ⟨m, ac.conn, origin⟩ :: g.sent } := by
    refine h.log fun hm => ?_
    obtain ⟨hq, hac, hshell⟩ := hi hm
    exact ⟨hq, ac.features, hac, hshell⟩
  unfold send
  simp only
  split
  · exact Keeps.after (keeps_reply hlog _) (.of_eq rfl rfl)
  · exact Keeps.after (keeps_messageFailed hlog _ _) (.of_eq rfl rfl)

theorem keeps_hello (h : StateOk g) (system : ℤ) (features : List String) (os arch : String) :
    Keeps g (hello g system features os arch) := by
  have hgrows : Grows g (hello g system features os arch).global :=
    ⟨List.Subset.refl _, List.prefix_append _ _⟩
  refine keeps_stop (h.step hgrows h.requests (fun e he => ?_) h.runs fun _ => .inl) hgrows
  rcases List.mem_cons.1 he with rfl | he
  · exact .inr List.getElem?_concat_length
  · exact .inl (List.mem_filter.1 he).1

theorem keeps_broadcastInterval (h : StateOk g) (seconds : ℕ) :
    Keeps g (broadcastInterval g seconds) := by
  refine ⟨Grows.refl g, h, fun i hi => ?_⟩
  obtain ⟨e, -, rfl⟩ := List.mem_map.1 hi
  exact fun hm => by cases hm

theorem keeps_tick (h : StateOk g) (d : ℕ) : Keeps g (.next { g with clock := g.clock + d } []) := by
  have hunix : g.unix ≤ { g with clock := g.clock + d }.unix :=
    Nat.div_le_div_right (Nat.le_add_right _ _)
  exact keeps_stop (h.step (.of_eq rfl rfl) (fun q hq => (h.requests q hq).trans hunix)
    (fun _ => .inl) h.runs fun _ => .inl) (.of_eq rfl rfl)

theorem atomic_keeps {ins : Instr} {out : Outcome State Instr} (h : StateOk g)
    (hins : InstrOk g ins) (ho : atomic o g ins = some out) : Keeps g out := by
  cases ins with
  | tick d => cases ho; exact keeps_tick h d
  | hello system features os arch => cases ho; exact keeps_hello h system features os arch
  | unregister system conn => cases ho; exact keeps_stop (h.filterAgents _) (.of_eq rfl rfl)
  | broadcastInterval seconds => cases ho; exact keeps_broadcastInterval h seconds
  | handle crossOrigin cookie route => cases ho; exact keeps_handle h crossOrigin cookie route
  | lookupSystem q route => cases ho; exact keeps_lookupSystem h hins
  | onlineAgent q system route => cases ho; exact keeps_onlineAgent h hins system
  | act q ac route => cases ho; exact keeps_act h hins.1 hins.2
  | handleShell q system => cases ho; exact keeps_handleShell h hins system
  | shellAgent q system => cases ho; exact keeps_shellAgent h hins system
  | wake q system => cases ho; exact keeps_wake h q system
  | relay q acs => cases ho; exact keeps_relay h q acs
  | deleteRow system => cases ho; exact keeps_deleteRow h system
  | dropLink system =>
    cases ho
    exact keeps_stop ((h.filterAgents _).reply _) (.of_eq rfl rfl)
  | postRun q body => cases ho; exact keeps_postRun h hins.1 hins.2 body
  | createRun q req => cases ho; exact keeps_createRun h hins req
  | lookupRun run => cases ho; exact keeps_lookupRun h run
  | cancelRun run finished => cases ho; exact keeps_cancelRun h run finished
  | runOn run system =>
    obtain ⟨r, hr, rfl⟩ := Option.map_eq_some_iff.1 ho
    exact keeps_runOn h (List.mem_of_find?_eq_some hr) system
  | runAgent q run shell system => cases ho; exact keeps_runAgent h hins run shell system
  | forget run => exact keeps_forget h ho
  | send origin ac m => cases ho; exact keeps_send h hins

end steps

structure Inv (c : Config State Instr) : Prop where
  state : StateOk c.global
  tasks : ∀ t ∈ c.tasks, ∀ i ∈ t, InstrOk c.global i

theorem code_ok (g : State) (r : Request) : ∀ i ∈ code r, InstrOk g i := by
  cases r <;> exact fun _ hi => List.mem_singleton.1 hi ▸ trivial

theorem inv_start (c : Config State Instr) (r : Request) (h : Inv c) :
    Inv ⟨c.global, c.tasks ++ [code r]⟩ :=
  ⟨h.state, forall_start h.tasks (code_ok c.global r)⟩

theorem inv_run (c : Config State Instr) (i : ℕ) (ins : Instr) (rest : List Instr) (o : Oracle)
    (out : Outcome State Instr) (h : Inv c) (ht : c.tasks[i]? = some (ins :: rest))
    (ho : atomic o c.global ins = some out) :
    Inv ⟨out.global, c.tasks.set i (out.resume rest)⟩ := by
  have hins : InstrOk c.global ins := h.tasks _ (task_mem ht) ins List.mem_cons_self
  obtain ⟨hgrows, hstate, hcode⟩ := atomic_keeps h.state hins ho
  exact ⟨hstate, forall_step ht h.tasks (fun _ hj => hj.mono hgrows) hcode⟩

theorem inv_restart (c : Config State Instr) (g : State) (h : Inv c)
    (hg : restart c.global = some g) : Inv ⟨g, []⟩ := by
  cases hg
  exact ⟨h.state.step (.of_eq rfl rfl) h.state.requests (fun _ he => (List.not_mem_nil he).elim)
    (fun _ hr => (List.not_mem_nil hr).elim) fun _ => .inl, fun _ ht => (List.not_mem_nil ht).elim⟩

theorem inv_initial : Inv ⟨initial, []⟩ :=
  ⟨⟨fun _ hq => (List.not_mem_nil hq).elim, fun _ he => (List.not_mem_nil he).elim,
    fun _ hr => (List.not_mem_nil hr).elim, fun _ hm => (List.not_mem_nil hm).elim⟩,
    fun _ ht => (List.not_mem_nil ht).elim⟩

/-- Every session channel that the hub opened and every signal, power and service request
that it sent was sent for a request whose session, as it was loaded, has a role that
includes operator and was elevated at the time of the request, and to an agent whose hello
announced the shell feature. -/
theorem remote_actions_authorised (acts : List (Action Oracle Request))
    (c : Config State Instr) (he : Runs.exec machine.step ⟨initial, []⟩ acts = some c) :
    ∀ m ∈ c.global.sent, m.message.remoteAction = true →
      (∃ q ∈ c.global.requests, m.origin = some q ∧
        roleIncludes q.session.role "operator" = true ∧
        (q.arrived : ℤ) ≤ q.session.elevatedUntil) ∧
      ∃ features, c.global.hellos[m.conn]? = some features ∧ featureShell ∈ features := by
  have h : Inv c := machine.invariant inv_start inv_run inv_restart inv_initial he
  intro m hm haction
  obtain ⟨⟨q, hq, hauth⟩, hagent⟩ := h.state.sent m hm haction
  exact ⟨⟨q, hauth.loaded, hq, hauth.operator, hauth.elevated⟩, hagent⟩

def sampleOracle : Oracle :=
  ⟨some ⟨1, "ada", "operator", 600⟩, fun _ => .found (), none, .notFound, true, true, false, false,
    false, [], none⟩

def rebootAndRun : List (Action Oracle Request) :=
  [[.start (.hello 5 ["wake", "shell"] "linux" "amd64"), .run 0 sampleOracle,
      .start (.http false true (.power (some 5) (some "reboot")))],
    List.replicate 5 (.run 1 sampleOracle),
    [.start (.http false true (.run (some ⟨none, "", "sh", "uptime", 60, [5]⟩)))],
    List.replicate 3 (.run 2 sampleOracle),
    [.start (.target 1 5)], List.replicate 3 (.run 3 sampleOracle)].flatten

theorem reboot_and_run_authorised : ∃ c,
    Runs.exec machine.step ⟨initial, []⟩ rebootAndRun = some c ∧
    c.global.sent.map (·.message) = [.openSession (.script 1 5), .power "reboot"] ∧
    ∀ m ∈ c.global.sent, m.message.remoteAction = true →
      ∃ q ∈ c.global.requests, m.origin = some q ∧
        roleIncludes q.session.role "operator" = true := by
  have hfinal : (Runs.exec machine.step ⟨initial, []⟩ rebootAndRun).map
      (fun c => c.global.sent.map (·.message)) =
      some [.openSession (.script 1 5), .power "reboot"] := by
    decide +kernel
  obtain ⟨c, hc, hsent⟩ := Option.map_eq_some_iff.1 hfinal
  refine ⟨c, hc, hsent, fun m hm haction => ?_⟩
  obtain ⟨⟨q, hq, horigin, hrole, -⟩, -⟩ := remote_actions_authorised rebootAndRun c hc m hm haction
  exact ⟨q, hq, horigin, hrole⟩

end Lotse.Remote
