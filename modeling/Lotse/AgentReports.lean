import Lotse.Links
import Lotse.Samples

set_option autoImplicit false

/-!
# The samples of one connection

`hello` and `report` on the agent and `serveAgent` on the hub. The agent asks to be admitted
and then sends one sample after the other, the next one when the last was answered. The hub
answers a sample before it records it. Either side may give up at any time.
-/
namespace Lotse.Reports
open Samples (Metrics)
open Links (Passes)

structure Filesystem where
  mount : String
  device : String
  type : String
  used : ℕ
  total : ℕ
  deriving DecidableEq

structure Sample where
  metrics : Metrics
  filesystems : List Filesystem
  deriving DecidableEq

def maxFilesystems : ℕ := 32

def Sample.cap (m : Sample) : Sample := { m with filesystems := m.filesystems.take maxFilesystems }

@[simp] theorem Sample.cap_cap (m : Sample) : m.cap.cap = m.cap := by simp [Sample.cap, List.take_take]

inductive Request where
  | hello
  | metrics (m : Sample)
  deriving DecidableEq

structure Reply where
  ok : Bool
  interval : ℤ
  deriving DecidableEq

inductive ReportPc where
  | hello
  | awaitHello
  | sample
  | awaitReply
  | wait
  | ended
  deriving DecidableEq

/-- `samples` are the samples it has sent and `confirmed` the replies to them, which no code
reads. -/
structure Reporter where
  pc : ReportPc
  samples : List Sample
  confirmed : ℕ
  deriving DecidableEq

namespace Reporter

def init : Reporter := ⟨.hello, [], 0⟩

/-- `sample` is what the collector returns. A sample that cannot be encoded ends the
connection, as a request that is not answered in time does. -/
inductive Act where
  | hello
  | sample (metrics : Metrics) (filesystems : List Filesystem)
  | unencodable
  | timeout
  | tick
  | stop
  deriving DecidableEq

def step (s : Reporter) : Act → Option (Reporter × List Request)
  | .hello => if s.pc = .hello then some ({ s with pc := .awaitHello }, [.hello]) else none
  | .sample metrics filesystems =>
    let m := Sample.cap ⟨metrics, filesystems⟩
    if s.pc = .sample then
      some ({ s with pc := .awaitReply, samples := s.samples ++ [m] }, [.metrics m])
    else none
  | .unencodable => if s.pc = .sample then some ({ s with pc := .ended }, []) else none
  | .timeout =>
    if s.pc = .awaitHello ∨ s.pc = .awaitReply then some ({ s with pc := .ended }, []) else none
  | .tick => if s.pc = .wait then some ({ s with pc := .sample }, []) else none
  | .stop => if s.pc = .wait then some ({ s with pc := .ended }, []) else none

def receive (s : Reporter) (r : Reply) : Option (Reporter × List Request) :=
  match s.pc with
  | .awaitHello => some ({ s with pc := if r.ok then .sample else .ended }, [])
  | .awaitReply =>
    if r.ok then some ({ s with pc := .wait, confirmed := s.confirmed + 1 }, [])
    else some ({ s with pc := .ended }, [])
  | _ => none

end Reporter

def agent : Links.Party Reporter Reporter.Act Reply Request where
  step := Reporter.step
  receive := Reporter.receive
  lost s := { s with pc := .ended }

inductive ServePc where
  | hello
  | admitAgent
  | recheck
  | loop
  | record (m : Sample)
  | ended
  deriving DecidableEq

/-- `requests` wait to be read, `handled` are the samples that `record` was called for,
`recorded` those of them that it recorded and `dropped` counts the others. That the hello was
accepted and which requests were read is kept for the proofs only. -/
structure Server where
  pc : ServePc
  requests : List Request
  handled : List Sample
  recorded : List Sample
  dropped : ℕ
  accepted : Bool
  read : List Request
  deriving DecidableEq

namespace Server

def init : Server := ⟨.hello, [], [], [], 0, false, []⟩

def pending (t : Server) : List Sample :=
  match t.pc with
  | .record m => [m]
  | _ => []

/-- `admitAgent` and `recheck` are what the store answers; `live` says that there is still a
connection registered for the system; `stop` is the end of the connection, of the hub or of
the watchdog's patience. -/
inductive Act where
  | read
  | admitAgent (ok : Bool)
  | recheck (found : Bool) (interval : ℤ)
  | record (live : Bool)
  | stop
  deriving DecidableEq

def refuse : List Reply := [⟨false, 0⟩]

def readStep (t : Server) : Option (Server × List Reply) :=
  match t.requests with
  | [] => none
  | r :: rest =>
    let t := { t with requests := rest, read := t.read ++ [r] }
    match t.pc, r with
    | .hello, .hello => some ({ t with pc := .admitAgent }, [])
    | .hello, .metrics _ => some ({ t with pc := .ended }, refuse)
    | .loop, .hello => some (t, refuse)
    | .loop, .metrics m => some ({ t with pc := .record m.cap }, [⟨true, 0⟩])
    | _, _ => none

def step (t : Server) : Act → Option (Server × List Reply)
  | .read => t.readStep
  | .admitAgent ok =>
    if t.pc ≠ .admitAgent then none
    else if ok then some ({ t with pc := .recheck }, [])
    else some ({ t with pc := .ended }, refuse)
  | .recheck found interval =>
    if t.pc ≠ .recheck then none
    else if found then some ({ t with pc := .loop, accepted := true }, [⟨true, interval⟩])
    else some ({ t with pc := .ended }, refuse)
  | .record live =>
    match t.pc with
    | .record m =>
      let t := { t with pc := .loop, handled := t.handled ++ [m] }
      some (if live then { t with recorded := t.recorded ++ [m] }
        else { t with dropped := t.dropped + 1 }, [])
    | _ => none
  | .stop => if t.pc = .hello ∨ t.pc = .loop then some ({ t with pc := .ended }, []) else none

def receive (t : Server) (r : Request) : Option (Server × List Reply) :=
  some ({ t with requests := t.requests ++ [r] }, [])

end Server

def hub : Links.Party Server Server.Act Request Reply where
  step := Server.step
  receive := Server.receive
  lost t := t

abbrev System := Links.Net Reporter Server Reply Request
abbrev Action := Links.Action Reporter.Act Server.Act

def step : System → Action → Option System := Links.step agent hub

def init : System := Links.Net.init Reporter.init Server.init

def samplesOf (l : List Request) : List Sample :=
  l.filterMap fun
    | .hello => none
    | .metrics m => some m

@[simp] theorem samplesOf_append (l l' : List Request) :
    samplesOf (l ++ l') = samplesOf l ++ samplesOf l' := List.filterMap_append

@[simp] theorem samplesOf_hello : samplesOf [.hello] = [] := rfl

@[simp] theorem samplesOf_metrics (m : Sample) : samplesOf [.metrics m] = [m] := rfl

theorem samplesOf_mono {l l' : List Request} (h : l <+: l') : samplesOf l <+: samplesOf l' := by
  obtain ⟨rest, rfl⟩ := h
  rw [samplesOf_append]
  exact List.prefix_append _ _

def granted (l : List Reply) : ℕ := l.countP (·.ok)

@[simp] theorem granted_append (l l' : List Reply) : granted (l ++ l') = granted l + granted l' :=
  List.countP_append

@[simp] theorem granted_nil : granted [] = 0 := rfl

@[simp] theorem granted_one (r : Reply) : granted [r] = if r.ok then 1 else 0 := by
  simp [granted, List.countP_cons]

theorem granted_mono {l l' : List Reply} (h : l <+: l') : granted l ≤ granted l' := by
  obtain ⟨rest, rfl⟩ := h
  rw [granted_append]
  omega

/-- What holds of the agent: while it waits for a reply one sample is not confirmed. -/
structure Reporter.Ok (s : Reporter) (sent : List Request) (got : List Reply) : Prop where
  sent : samplesOf sent = s.samples
  capped : ∀ m ∈ s.samples, m.cap = m
  early : s.pc = .hello ∨ s.pc = .awaitHello → s.samples = [] ∧ s.confirmed = 0 ∧ granted got = 0
  counted : s.samples = [] ∧ s.confirmed = 0 ∨ s.confirmed + 1 = granted got
  balance : s.samples.length ≤ s.confirmed + 1
  settled : s.pc = .sample ∨ s.pc = .wait → s.samples.length = s.confirmed ∧ s.confirmed + 1 = granted got
  awaiting : s.pc = .awaitReply → s.samples.length = s.confirmed + 1 ∧ s.confirmed + 1 = granted got

namespace Reporter
variable {s s' : Reporter} {sent out : List Request} {got : List Reply}

theorem init_ok : init.Ok [] [] where
  sent := rfl
  capped m h := by cases h
  early _ := ⟨rfl, rfl, rfl⟩
  counted := .inl ⟨rfl, rfl⟩
  balance := Nat.zero_le _
  settled h := by rcases h with h | h <;> cases h
  awaiting h := by cases h

theorem Ok.ended (h : s.Ok sent got) : Ok { s with pc := .ended } sent got :=
  { h with
    early := by simp
    settled := by simp
    awaiting := by simp }

theorem step_ok {a : Act} (h : s.Ok sent got) (hs : s.step a = some (s', out)) :
    s'.Ok (sent ++ out) got := by
  cases a with
  | hello =>
    simp only [step, Option.ite_none_right_eq_some, Option.some.injEq, Prod.mk.injEq] at hs
    obtain ⟨hpc, rfl, rfl⟩ := hs
    have hearly := h.early (.inl hpc)
    exact
      { h with
        sent := by simp [h.sent]
        early := fun _ => hearly
        settled := by simp
        awaiting := by simp }
  | sample metrics filesystems =>
    simp only [step, Option.ite_none_right_eq_some, Option.some.injEq, Prod.mk.injEq] at hs
    obtain ⟨hpc, rfl, rfl⟩ := hs
    obtain ⟨hlength, hcount⟩ := h.settled (.inl hpc)
    refine
      { sent := by simp [h.sent]
        capped := fun m hm => ?_
        early := by simp
        counted := .inr hcount
        balance := by simp [hlength]
        settled := by simp
        awaiting := fun _ => ⟨by simp [hlength], hcount⟩ }
    rcases List.mem_append.1 hm with hm | hm
    · exact h.capped m hm
    · rw [List.mem_singleton.1 hm, Sample.cap_cap]
  | tick =>
    simp only [step, Option.ite_none_right_eq_some, Option.some.injEq, Prod.mk.injEq] at hs
    obtain ⟨hpc, rfl, rfl⟩ := hs
    have hsettled := h.settled (.inr hpc)
    rw [List.append_nil]
    exact { h with early := by simp, settled := fun _ => hsettled, awaiting := by simp }
  | unencodable | timeout | stop =>
    simp only [step, Option.ite_none_right_eq_some, Option.some.injEq, Prod.mk.injEq] at hs
    obtain ⟨-, rfl, rfl⟩ := hs
    rw [List.append_nil]
    exact h.ended

theorem receive_ok {r : Reply} (h : s.Ok sent got) (hs : s.receive r = some (s', out)) :
    s'.Ok (sent ++ out) (got ++ [r]) := by
  unfold receive at hs
  split at hs
  · rename_i hpc
    obtain ⟨hsamples, hconfirmed, hgranted⟩ := h.early (.inr hpc)
    cases hs
    rw [List.append_nil]
    cases hok : r.ok with
    | true =>
      exact
        { h with
          early := by simp
          counted := .inl ⟨hsamples, hconfirmed⟩
          settled := fun _ => by simp [hsamples, hconfirmed, hgranted, hok]
          awaiting := by simp }
    | false =>
      exact
        { h with
          early := by simp
          counted := .inl ⟨hsamples, hconfirmed⟩
          settled := by simp
          awaiting := by simp }
  · rename_i hpc
    obtain ⟨hlength, hcount⟩ := h.awaiting hpc
    split_ifs at hs with hok
    · cases hs
      have hmore : s.confirmed + 1 + 1 = granted (got ++ [r]) := by simp [hok, hcount]
      rw [List.append_nil]
      exact
        { h with
          early := by simp
          counted := .inr hmore
          balance := by
            show s.samples.length ≤ s.confirmed + 1 + 1
            omega
          settled := fun _ => ⟨hlength, hmore⟩
          awaiting := by simp }
    · cases hs
      have hsame : granted (got ++ [r]) = granted got := by simp [hok]
      rw [List.append_nil]
      exact
        { h with
          early := by simp
          counted := .inr (hcount.trans hsame.symm)
          settled := by simp
          awaiting := by simp }
  · cases hs

end Reporter

theorem agent_keeps : agent.Keeps Reporter.Ok where
  step := Reporter.step_ok
  receive := Reporter.receive_ok
  lost h := h.ended

/-- What holds of the hub: in the loop it has answered and handled what it has read. -/
structure Server.Ok (t : Server) (sent : List Reply) (got : List Request) : Prop where
  queue : t.read ++ t.requests = got
  fresh : t.pc = .hello ∨ t.pc = .admitAgent ∨ t.pc = .recheck →
    granted sent = 0 ∧ t.handled = [] ∧ samplesOf t.read = []
  order : t.handled ++ t.pending <+: (samplesOf t.read).map Sample.cap
  current : t.pc = .loop ∨ t.pending ≠ [] →
    t.handled ++ t.pending = (samplesOf t.read).map Sample.cap ∧ t.accepted = true
  answered : granted sent ≤ (t.handled ++ t.pending).length + 1
  accepted : t.accepted = false → t.handled = [] ∧ granted sent = 0
  kept : t.recorded.Sublist t.handled ∧ t.recorded.length + t.dropped = t.handled.length

namespace Server
variable {t t' : Server} {sent out : List Reply} {got : List Request}

theorem init_ok : init.Ok [] [] where
  queue := rfl
  fresh _ := ⟨rfl, rfl, rfl⟩
  order := List.prefix_rfl
  current h := by rcases h with h | h <;> simp [init, pending] at h
  answered := Nat.zero_le _
  accepted _ := ⟨rfl, rfl⟩
  kept := ⟨.slnil, rfl⟩

theorem Ok.ended (h : t.Ok sent got) (hpc : t.pending = []) : Ok { t with pc := .ended } sent got := by
  have hnone : ({ t with pc := .ended } : Server).pending = [] := rfl
  exact
    { h with
      fresh := by simp
      order := by
        rw [hnone, ← hpc]
        exact h.order
      current := by simp [hnone]
      answered := by
        rw [hnone, ← hpc]
        exact h.answered }

theorem Ok.refused (h : t.Ok sent got) : t.Ok (sent ++ refuse) got := by
  have hsame : granted (sent ++ refuse) = granted sent := by simp [refuse]
  exact
    { h with
      fresh := hsame ▸ h.fresh
      answered := hsame ▸ h.answered
      accepted := hsame ▸ h.accepted }

theorem read_ok (h : t.Ok sent got) (hs : t.readStep = some (t', out)) : t'.Ok (sent ++ out) got := by
  unfold readStep at hs
  split at hs
  · cases hs
  rename_i r rest hrequests
  dsimp only at hs
  have hqueue : t.read ++ [r] ++ rest = got := by rw [← h.queue, hrequests, List.append_assoc]; rfl
  split at hs
  · rename_i hpc
    obtain ⟨hgranted, hhandled, hsamples⟩ := h.fresh (.inl hpc)
    cases hs
    rw [List.append_nil]
    exact
      { queue := hqueue
        fresh := fun _ => ⟨hgranted, hhandled, by simp [hsamples]⟩
        order := by simp [pending, hhandled]
        current := by simp [pending]
        answered := by simp [hgranted]
        accepted := h.accepted
        kept := h.kept }
  · rename_i hpc
    obtain ⟨hgranted, hhandled, -⟩ := h.fresh (.inl hpc)
    cases hs
    exact
      { queue := hqueue
        fresh := by simp
        order := by simp [pending, hhandled]
        current := by simp [pending]
        answered := by simp [hgranted, refuse]
        accepted := fun _ => ⟨hhandled, by simp [hgranted, refuse]⟩
        kept := h.kept }
  · rename_i hpc
    obtain ⟨hcurrent, haccepted⟩ := h.current (.inl hpc)
    cases hs
    refine Ok.refused (t := { t with requests := rest, read := t.read ++ [.hello] }) ?_
    have hsame : (samplesOf (t.read ++ [.hello])).map Sample.cap = (samplesOf t.read).map Sample.cap := by
      simp
    exact
      { h with
        queue := hqueue
        fresh := by simp [hpc]
        order := hsame ▸ h.order
        current := hsame ▸ h.current }
  · rename_i m hpc
    obtain ⟨hcurrent, haccepted⟩ := h.current (.inl hpc)
    have hnone : t.pending = [] := by simp [pending, hpc]
    rw [hnone, List.append_nil] at hcurrent
    have hanswered := h.answered
    rw [hnone, List.append_nil] at hanswered
    cases hs
    have hmore : t.handled ++ [m.cap] = (samplesOf (t.read ++ [.metrics m])).map Sample.cap := by
      simp [hcurrent]
    exact
      { queue := hqueue
        fresh := by simp
        order := hmore ▸ List.prefix_rfl
        current := fun _ => ⟨hmore, haccepted⟩
        answered := by simpa [pending] using hanswered
        accepted := fun hno => by simp [haccepted] at hno
        kept := h.kept }
  · cases hs

theorem record_ok {m : Sample} (h : t.Ok sent got) (hpc : t.pc = .record m) (live : Bool) :
    (if live then { t with
        pc := .loop, handled := t.handled ++ [m], recorded := t.recorded ++ [m] }
      else { t with pc := .loop, handled := t.handled ++ [m], dropped := t.dropped + 1 } :
      Server).Ok sent got := by
  have hpending : t.pending = [m] := by simp [pending, hpc]
  have hmoved : t.handled ++ [m] ++ [] = t.handled ++ t.pending := by simp [hpending]
  obtain ⟨hcurrent, haccepted⟩ := h.current (.inr (by simp [hpending]))
  have hok : ∀ recorded dropped, recorded.Sublist (t.handled ++ [m]) ∧
      recorded.length + dropped = (t.handled ++ [m]).length →
      Server.Ok { t with pc := .loop, handled := t.handled ++ [m], recorded, dropped } sent got :=
    fun recorded dropped hkept =>
      { h with
        fresh := by simp
        order := hmoved ▸ h.order
        current := fun _ => ⟨hmoved.trans hcurrent, haccepted⟩
        answered := hmoved ▸ h.answered
        accepted := fun hno => by simp [haccepted] at hno
        kept := hkept }
  obtain ⟨hsub, hcount⟩ := h.kept
  cases live with
  | true => exact hok _ _ ⟨hsub.append (.refl [m]), by simp; omega⟩
  | false => exact hok _ _ ⟨hsub.trans (List.sublist_append_left _ _), by simp; omega⟩

theorem step_ok {a : Act} (h : t.Ok sent got) (hs : t.step a = some (t', out)) :
    t'.Ok (sent ++ out) got := by
  cases a with
  | read => exact read_ok h hs
  | admitAgent ok =>
    simp only [step] at hs
    split_ifs at hs with hpc hok
    · cases hs
      rw [not_not] at hpc
      obtain ⟨hgranted, hhandled, hsamples⟩ := h.fresh (.inr (.inl hpc))
      rw [List.append_nil]
      exact
        { h with
          fresh := fun _ => ⟨hgranted, hhandled, hsamples⟩
          order := by simp [pending, hhandled]
          current := by simp [pending]
          answered := by simp [hgranted] }
    · cases hs
      rw [not_not] at hpc
      exact h.refused.ended (by simp [pending, hpc])
  | recheck found interval =>
    simp only [step] at hs
    split_ifs at hs with hpc hok
    · cases hs
      rw [not_not] at hpc
      obtain ⟨hgranted, hhandled, hsamples⟩ := h.fresh (.inr (.inr hpc))
      exact
        { h with
          fresh := by simp
          order := by simp [pending, hhandled]
          current := fun _ => by simp [pending, hhandled, hsamples]
          answered := by simp [hgranted]
          accepted := fun hno => by simp at hno }
    · cases hs
      rw [not_not] at hpc
      exact h.refused.ended (by simp [pending, hpc])
  | record live =>
    simp only [step] at hs
    split at hs
    · rename_i m hpc
      cases hs
      rw [List.append_nil]
      exact record_ok h hpc live
    · cases hs
  | stop =>
    simp only [step, Option.ite_none_right_eq_some, Option.some.injEq, Prod.mk.injEq] at hs
    obtain ⟨hpc, rfl, rfl⟩ := hs
    rw [List.append_nil]
    exact h.ended (by rcases hpc with hpc | hpc <;> simp [pending, hpc])

theorem receive_ok {r : Request} (h : t.Ok sent got) (hs : t.receive r = some (t', out)) :
    t'.Ok (sent ++ out) (got ++ [r]) := by
  cases hs
  rw [List.append_nil]
  exact { h with queue := by rw [← h.queue, List.append_assoc] }

end Server

theorem hub_keeps : hub.Keeps Server.Ok where
  step := Server.step_ok
  receive := Server.receive_ok
  lost h := h

def idle : Metrics := ⟨1, 0, 0, 0, 0, 0, 0, 0, 0, 0, 0, 0, 0, 0⟩

/-- Two samples are sent; the link breaks when the hub has answered the second. -/
def twoSamples : List Action :=
  [.left .hello, .toRight, .right .read, .right (.admitAgent true), .right (.recheck true 60), .toLeft,
   .left (.sample idle []), .toRight, .right .read, .toLeft, .left .tick, .right (.record true),
   .left (.sample idle []), .toRight, .right .read, .cut 0 0, .leftLost]

end Lotse.Reports
