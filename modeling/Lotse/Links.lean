import Lotse.Runs

set_option autoImplicit false

/-!
# Streams through buffers, and two parties joined by a link

What has passed a buffer is a beginning of what came in. A link is such a buffer in each
direction: it carries messages in order until it is cut, when a part of what is under way is
lost and whatever is sent later. Each of the two parties takes steps of its own, receives
messages and notices that the link is gone. A party is verified by itself, against what it
has sent and received; the link adds that each has received a beginning of what the other
has sent.
-/
namespace Lotse.Links

/-- `done` of `src` has left and `buf` is held; that is everything while nothing was lost. -/
structure Passes {μ : Type*} (whole : Prop) (src done buf : List μ) : Prop where
  le : done ++ buf <+: src
  eq : whole → done ++ buf = src

namespace Passes
variable {μ : Type*} {whole whole' : Prop} {src done buf more : List μ}

theorem nil : Passes whole ([] : List μ) [] [] := ⟨List.prefix_rfl, fun _ => rfl⟩

theorem of_eq (h : done ++ buf = src) : Passes whole src done buf := ⟨h ▸ List.prefix_rfl, fun _ => h⟩

theorem mono (h : Passes whole src done buf) (hw : whole' → whole) : Passes whole' src done buf :=
  ⟨h.le, fun hw' => h.eq (hw hw')⟩

theorem push (h : Passes whole src done buf) (hw : whole) (more : List μ) :
    Passes whole' (src ++ more) done (buf ++ more) :=
  .of_eq (by rw [← List.append_assoc, h.eq hw])

theorem grow (h : Passes whole src done buf) (hw : ¬ whole') (more : List μ) :
    Passes whole' (src ++ more) done buf :=
  ⟨h.le.trans (List.prefix_append _ _), fun hw' => absurd hw' hw⟩

theorem pull {rest : List μ} (h : Passes whole src done buf) (hbuf : buf = more ++ rest) :
    Passes whole src (done ++ more) rest := by
  subst hbuf
  exact ⟨by simpa using h.le, fun hw => by simpa using h.eq hw⟩

theorem lose (h : Passes whole src done buf) (hw : ¬ whole') {kept : List μ} (hk : kept <+: buf) :
    Passes whole' src done kept :=
  ⟨((List.prefix_append_right_inj done).2 hk).trans h.le, fun hw' => absurd hw' hw⟩

theorem done_le (h : Passes whole src done buf) : done <+: src :=
  (List.prefix_append _ _).trans h.le

theorem done_eq (h : Passes whole src done []) (hw : whole) : done = src := by
  simpa using h.eq hw

end Passes

/-- A party with states `σ`, actions `α`, incoming messages `ι` and outgoing messages `ο`. -/
structure Party (σ α ι ο : Type*) where
  step : σ → α → Option (σ × List ο)
  receive : σ → ι → Option (σ × List ο)
  lost : σ → σ

/-- What every step of the party keeps, in terms of its state, all it has sent and all it has
received. -/
structure Party.Keeps {σ α ι ο : Type*} (P : Party σ α ι ο) (J : σ → List ο → List ι → Prop) :
    Prop where
  step : ∀ {s s' a out sent got}, J s sent got → P.step s a = some (s', out) →
    J s' (sent ++ out) got
  receive : ∀ {s s' m out sent got}, J s sent got → P.receive s m = some (s', out) →
    J s' (sent ++ out) (got ++ [m])
  lost : ∀ {s sent got}, J s sent got → J (P.lost s) sent got

/-- `up` and `down` are under way. What was sent and received is kept for the proofs only. -/
structure Net (σ τ ι ο : Type*) where
  left : σ
  right : τ
  up : List ο
  down : List ι
  cut : Bool
  sentUp : List ο
  gotUp : List ο
  sentDown : List ι
  gotDown : List ι

inductive Action (α β : Type*) where
  | left (a : α)
  | right (b : β)
  | toRight
  | toLeft
  | cut (up down : ℕ)
  | leftLost
  | rightLost
  deriving DecidableEq

section net
variable {σ τ α β ι ο : Type*} (L : Party σ α ι ο) (R : Party τ β ο ι)

def carry {μ : Type*} (cut : Bool) (queue out : List μ) : List μ :=
  if cut then queue else queue ++ out

namespace Net

def sendUp (n : Net σ τ ι ο) (s : σ) (out : List ο) : Net σ τ ι ο :=
  { n with left := s, up := carry n.cut n.up out, sentUp := n.sentUp ++ out }

def sendDown (n : Net σ τ ι ο) (t : τ) (out : List ι) : Net σ τ ι ο :=
  { n with right := t, down := carry n.cut n.down out, sentDown := n.sentDown ++ out }

def init (s : σ) (t : τ) : Net σ τ ι ο := ⟨s, t, [], [], false, [], [], [], []⟩

end Net

def step (n : Net σ τ ι ο) : Action α β → Option (Net σ τ ι ο)
  | .left a => (L.step n.left a).map fun r => n.sendUp r.1 r.2
  | .right b => (R.step n.right b).map fun r => n.sendDown r.1 r.2
  | .toRight =>
    match n.up with
    | [] => none
    | m :: up => (R.receive n.right m).map fun r =>
        { n with up := up, gotUp := n.gotUp ++ [m] }.sendDown r.1 r.2
  | .toLeft =>
    match n.down with
    | [] => none
    | m :: down => (L.receive n.left m).map fun r =>
        { n with down := down, gotDown := n.gotDown ++ [m] }.sendUp r.1 r.2
  | .cut up down => some { n with cut := true, up := n.up.take up, down := n.down.take down }
  | .leftLost => if n.cut then some { n with left := L.lost n.left } else none
  | .rightLost => if n.cut then some { n with right := R.lost n.right } else none

structure Inv (J : σ → List ο → List ι → Prop) (K : τ → List ι → List ο → Prop)
    (n : Net σ τ ι ο) : Prop where
  left : J n.left n.sentUp n.gotDown
  right : K n.right n.sentDown n.gotUp
  up : Passes (n.cut = false) n.sentUp n.gotUp n.up
  down : Passes (n.cut = false) n.sentDown n.gotDown n.down

variable {L R}

theorem Passes.carry {μ : Type*} {cut : Bool} {got queue sent : List μ}
    (h : Passes (cut = false) sent got queue) (out : List μ) :
    Passes (cut = false) (sent ++ out) got (carry cut queue out) := by
  cases cut with
  | true => exact h.grow (by simp) out
  | false => exact h.push rfl out

variable {J : σ → List ο → List ι → Prop} {K : τ → List ι → List ο → Prop} {n m : Net σ τ ι ο}

theorem step_inv (hL : L.Keeps J) (hR : R.Keeps K) {a : Action α β} (h : Inv J K n)
    (hstep : step L R n a = some m) : Inv J K m := by
  cases a with
  | left a =>
    obtain ⟨⟨s, out⟩, hs, rfl⟩ := Option.map_eq_some_iff.1 hstep
    exact { h with left := hL.step h.left hs, up := h.up.carry out }
  | right b =>
    obtain ⟨⟨t, out⟩, ht, rfl⟩ := Option.map_eq_some_iff.1 hstep
    exact { h with right := hR.step h.right ht, down := h.down.carry out }
  | toRight =>
    simp only [step] at hstep
    split at hstep
    · cases hstep
    · rename_i msg up hup
      obtain ⟨⟨t, out⟩, ht, rfl⟩ := Option.map_eq_some_iff.1 hstep
      exact ⟨h.left, hR.receive h.right ht, h.up.pull hup, h.down.carry out⟩
  | toLeft =>
    simp only [step] at hstep
    split at hstep
    · cases hstep
    · rename_i msg down hdown
      obtain ⟨⟨s, out⟩, hs, rfl⟩ := Option.map_eq_some_iff.1 hstep
      exact ⟨hL.receive h.left hs, h.right, h.up.carry out, h.down.pull hdown⟩
  | cut up down =>
    cases hstep
    have hup := List.take_prefix up n.up
    have hdown := List.take_prefix down n.down
    exact { h with up := h.up.lose (by simp) hup, down := h.down.lose (by simp) hdown }
  | leftLost =>
    simp only [step] at hstep
    split_ifs at hstep
    cases hstep
    exact { h with left := hL.lost h.left }
  | rightLost =>
    simp only [step] at hstep
    split_ifs at hstep
    cases hstep
    exact { h with right := hR.lost h.right }

theorem exec_inv (hL : L.Keeps J) (hR : R.Keeps K) {s : σ} {t : τ} (hJ : J s [] [])
    (hK : K t [] []) {acts : List (Action α β)}
    (h : Runs.exec (step L R) (Net.init s t) acts = some n) : Inv J K n := by
  have hinit : Inv J K (Net.init s t : Net σ τ ι ο) := ⟨hJ, hK, .nil, .nil⟩
  exact Runs.exec_invariant (fun _ _ _ hn => step_inv hL hR hn) hinit h

end net

end Lotse.Links
