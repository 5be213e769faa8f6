import Lotse.TrafficRates
import Lotse.Utf8

set_option autoImplicit false

/-!
# Container figures

`docker.containers`: every poll lists the containers and asks for the stats of the running ones,
each in a goroutine of its own. Any of these calls may fail. Counters are 64-bit words; percentages
and rates are exact.
-/
namespace Lotse.Containers
open Traffic (rate elapsed rate_eq toNat_foldl_mod)
open Utf8 (Bytes)

def maxContainers : ℕ := 64

abbrev Instant := Fin (2 ^ 63)

structure DockerContainer where
  id : Bytes
  names : List Bytes
  image : String
  state : String
  status : String

/-- `total` and `system` are of `cpu_stats`, `usage`, `limit` and `stats` of `memory_stats`;
a network has the bytes received and sent. -/
structure DockerStats where
  total : UInt64
  system : UInt64
  usage : UInt64
  limit : UInt64
  stats : String → Option UInt64
  networks : List (UInt64 × UInt64)

def DockerStats.stat (s : DockerStats) (name : String) : UInt64 := (s.stats name).getD 0

/-- An answer to `/containers/json`, with what the stats requests return. The goroutines take the
lock in `order`. -/
structure Listing where
  list : List DockerContainer
  now : Instant
  stats : ℕ → Option DockerStats
  order : List ℕ
  order_perm : order.Perm (List.range (list.take maxContainers).length)

def Listing.listed (l : Listing) : List DockerContainer := l.list.take maxContainers

/-- What a poll finds: the operating system, the times at which `available` looks at the clock, a
socket, and the list or an error that may mean that the runtime is gone. -/
structure Poll where
  windows : Bool
  since : Instant
  probed : Instant
  socketFound : Bool
  answer : Except Bool Listing

structure Counters where
  cpu : UInt64
  system : UInt64
  rx : UInt64
  tx : UInt64

structure Figures where
  cpu : ℚ
  mem : UInt64
  memLimit : UInt64
  netRx : ℚ
  netTx : ℚ

structure Container where
  id : Bytes
  name : Bytes
  image : String
  state : String
  status : String
  figures : Figures

structure Docker where
  client : Bool
  lastProbe : Option Instant
  prev : Bytes → Option Counters
  prevTime : Option Instant

def new : Docker := ⟨false, none, fun _ => none, none⟩

def available (d : Docker) (p : Poll) : Docker × Bool :=
  if p.windows then (d, false)
  else if d.client then (d, true)
  else if d.lastProbe.any fun t => decide ((p.since : ℤ) - t < 60 * 10 ^ 9) then (d, false)
  else ({ d with lastProbe := some p.probed, client := p.socketFound }, p.socketFound)

def firstOr (s : List Bytes) (default : Bytes) : Bytes := s.headD default

def shortID (id : Bytes) : Bytes := if 12 < id.length then id.take 12 else id

def trimSlash (name : Bytes) : Bytes := if name.head? = some 0x2f then name.tail else name

def Figures.zero : Figures := ⟨0, 0, 0, 0, 0⟩

def DockerContainer.entry (c : DockerContainer) : Container :=
  ⟨shortID c.id, trimSlash (firstOr c.names c.id), c.image, c.state, c.status, Figures.zero⟩

def DockerStats.counters (s : DockerStats) : Counters :=
  s.networks.foldl (fun c n => { c with rx := c.rx + n.1, tx := c.tx + n.2 }) ⟨s.total, s.system, 0, 0⟩

def DockerStats.mem (s : DockerStats) : UInt64 :=
  s.usage - min s.usage (s.stat "inactive_file" + s.stat "total_inactive_file")

def cpu (prev cur : Counters) : ℚ :=
  if prev.system < cur.system ∧ prev.cpu ≤ cur.cpu then
    (cur.cpu - prev.cpu).toNat / (cur.system - prev.system).toNat * 100
  else 0

def figures (prev : Option Counters) (elapsed : ℚ) (s : DockerStats) : Figures :=
  match prev with
  | some prev =>
    if 0 < elapsed then
      ⟨cpu prev s.counters, s.mem, s.limit, rate prev.rx s.counters.rx elapsed,
        rate prev.tx s.counters.tx elapsed⟩
    else ⟨0, s.mem, s.limit, 0, 0⟩
  | none => ⟨0, s.mem, s.limit, 0, 0⟩

def Listing.reading (l : Listing) (i : ℕ) : Option (DockerContainer × DockerStats) :=
  match l.listed[i]? with
  | some c => if c.state = "running" then (l.stats i).map fun s => (c, s) else none
  | none => none

/-- A goroutine, under the lock, on `counters` and `out`. -/
def record (prev : Bytes → Option Counters) (elapsed : ℚ) (l : Listing)
    (acc : (Bytes → Option Counters) × List Container) (i : ℕ) :
    (Bytes → Option Counters) × List Container :=
  match l.reading i with
  | some (c, s) =>
    (Function.update acc.1 c.id (some s.counters),
      acc.2.modify i fun e => { e with figures := figures (prev c.id) elapsed s })
  | none => acc

/-- `now.Sub(d.prevTime).Seconds()`; the zero time is more than the longest duration ago. -/
def elapsedSince (prevTime : Option Instant) (now : Instant) : ℚ :=
  match prevTime with
  | some t => elapsed t now
  | none => (2 ^ 63 - 1) / 10 ^ 9

def containers (d : Docker) (p : Poll) : Docker × Option (List Container) :=
  let (d, ok) := available d p
  if ok then
    match p.answer with
    | .error gone => (if gone then { d with client := false } else d, none)
    | .ok l =>
      let acc := l.order.foldl (record d.prev (elapsedSince d.prevTime l.now) l)
        (fun _ => none, l.listed.map DockerContainer.entry)
      ({ d with prev := acc.1, prevTime := some l.now }, some acc.2)
  else (d, none)

def trace (d : Docker) : List Poll → List (Listing × List Container)
  | [] => []
  | p :: ps =>
    match (containers d p).2, p.answer with
    | some out, .ok l => (l, out) :: trace (containers d p).1 ps
    | _, _ => trace (containers d p).1 ps

def checkedSub (a b : UInt64) : Option UInt64 := if b ≤ a then some (a - b) else none

def checkedDiv (x y : ℚ) : Option ℚ := if y = 0 then none else some (x / y)

def checkedRate (prev cur : UInt64) (seconds : ℚ) : Option ℚ :=
  if cur < prev then some 0
  else do
    let d ← checkedSub cur prev
    checkedDiv d.toNat seconds

def checkedCpu (prev cur : Counters) : Option ℚ :=
  if prev.system < cur.system ∧ prev.cpu ≤ cur.cpu then do
    let used ← checkedSub cur.cpu prev.cpu
    let passed ← checkedSub cur.system prev.system
    let share ← checkedDiv used.toNat passed.toNat
    return share * 100
  else some 0

def checkedFigures (prev : Option Counters) (elapsed : ℚ) (s : DockerStats) : Option Figures := do
  let mem ← checkedSub s.usage
    (min s.usage (s.stat "inactive_file" + s.stat "total_inactive_file"))
  match prev with
  | some prev =>
    if 0 < elapsed then
      let cpu ← checkedCpu prev s.counters
      let netRx ← checkedRate prev.rx s.counters.rx elapsed
      let netTx ← checkedRate prev.tx s.counters.tx elapsed
      return ⟨cpu, mem, s.limit, netRx, netTx⟩
    else return ⟨0, mem, s.limit, 0, 0⟩
  | none => return ⟨0, mem, s.limit, 0, 0⟩

theorem checkedSub_eq {a b : UInt64} (h : b ≤ a) : checkedSub a b = some (a - b) := if_pos h

theorem checkedDiv_eq {x y : ℚ} (h : y ≠ 0) : checkedDiv x y = some (x / y) := if_neg h

theorem checkedRate_eq (prev cur : UInt64) {seconds : ℚ} (h : 0 < seconds) :
    checkedRate prev cur seconds = some (rate prev cur seconds) := by
  unfold checkedRate rate
  split_ifs with hback
  · rfl
  · rw [checkedSub_eq (UInt64.not_lt.1 hback), Option.bind_eq_bind, Option.bind_some,
      checkedDiv_eq h.ne']

theorem checkedCpu_eq (prev cur : Counters) : checkedCpu prev cur = some (cpu prev cur) := by
  unfold checkedCpu cpu
  split_ifs with h
  · have hpassed : ((cur.system - prev.system).toNat : ℚ) ≠ 0 := by
      rw [UInt64.toNat_sub_of_le _ _ (UInt64.le_of_lt h.1), Nat.cast_ne_zero]
      exact (Nat.sub_pos_of_lt (UInt64.lt_iff_toNat_lt.1 h.1)).ne'
    rw [checkedSub_eq h.2, checkedSub_eq (UInt64.le_of_lt h.1)]
    simp only [Option.bind_eq_bind, Option.bind_some, checkedDiv_eq hpassed, Option.pure_def]
  · rfl

theorem min_le (a b : UInt64) : min a b ≤ a := by
  change (if a ≤ b then a else b) ≤ a
  split_ifs with h
  · exact UInt64.le_refl a
  · exact UInt64.le_of_lt (UInt64.not_le.1 h)

theorem checkedFigures_eq (prev : Option Counters) (elapsed : ℚ) (s : DockerStats) :
    checkedFigures prev elapsed s = some (figures prev elapsed s) := by
  unfold checkedFigures figures
  rw [checkedSub_eq (min_le _ _), Option.bind_eq_bind, Option.bind_some]
  cases prev with
  | none => rfl
  | some prev =>
    dsimp only
    split_ifs with hpos
    · rw [checkedCpu_eq, checkedRate_eq _ _ hpos, checkedRate_eq _ _ hpos]
      rfl
    · rfl

/-- The page cache that can be dropped: cgroup v1 reports it with a total. -/
def DockerStats.cache (s : DockerStats) : ℕ :=
  match s.stats "total_inactive_file" with
  | some total => total.toNat
  | none => (s.stat "inactive_file").toNat

def DockerStats.received (s : DockerStats) : ℕ := (s.networks.map fun n => n.1.toNat).sum

def DockerStats.sent (s : DockerStats) : ℕ := (s.networks.map fun n => n.2.toNat).sum

def Listing.keep (l : Listing) (m : Bytes → Option DockerStats) (i : ℕ) :
    Bytes → Option DockerStats :=
  match l.reading i with
  | some (c, s) => Function.update m c.id (some s)
  | none => m

def Listing.kept (l : Listing) : Bytes → Option DockerStats := l.order.foldl l.keep fun _ => none

def baseline (q : Option Listing) (l : Listing) (id : Bytes) : Option (DockerStats × ℚ) :=
  match q with
  | some q => if q.now < l.now then (q.kept id).map fun r => (r, (l.now - q.now : ℚ) / 10 ^ 9) else none
  | none => none

def increase (prev cur : ℕ) (seconds : ℚ) : ℚ := if cur < prev then 0 else (cur - prev) / seconds

def share (r s : DockerStats) : ℚ :=
  if r.system < s.system ∧ r.total ≤ s.total then
    (s.total.toNat - r.total.toNat) / (s.system.toNat - r.system.toNat) * 100
  else 0

structure FiguresSound (q : Option Listing) (l : Listing) (c : DockerContainer) (s : DockerStats)
    (f : Figures) : Prop where
  mem : f.mem.toNat = s.usage.toNat - s.cache
  rates : ∀ r seconds, baseline q l c.id = some (r, seconds) → f.cpu = share r s ∧
    f.netRx = increase r.received s.received seconds ∧ f.netTx = increase r.sent s.sent seconds
  noRates : baseline q l c.id = none → f.cpu = 0 ∧ f.netRx = 0 ∧ f.netTx = 0

/-- Every running container that answers has sound figures, and all others have none. -/
def ListingSound (q : Option Listing) (l : Listing) (out : List Container) : Prop :=
  out.length = l.listed.length ∧ ∀ i e, out[i]? = some e → match l.reading i with
    | some (c, s) => FiguresSound q l c s e.figures
    | none => e.figures = Figures.zero

def previous (q : Option Listing) (t : List (Listing × List Container)) : ℕ → Option Listing
  | 0 => q
  | n + 1 => t[n]?.map Prod.fst

def Sound (polls : List Poll) : Prop :=
  ∀ n l out, (trace new polls)[n]? = some (l, out) →
    ListingSound (previous none (trace new polls) n) l out

section order

variable {prev : Bytes → Option Counters} {elapsed : ℚ} {l : Listing}

theorem record_kept (order : List ℕ) (m : Bytes → Option DockerStats) (out : List Container) :
    (order.foldl (record prev elapsed l) (fun id => (m id).map DockerStats.counters, out)).1 =
      fun id => (order.foldl l.keep m id).map DockerStats.counters := by
  induction order generalizing m out with
  | nil => rfl
  | cons i order ih =>
    rw [List.foldl_cons, List.foldl_cons, record, Listing.keep]
    cases l.reading i with
    | none => exact ih m out
    | some cs =>
      obtain ⟨c, s⟩ := cs
      have hupdate : Function.update (fun id => (m id).map DockerStats.counters) c.id
          (some s.counters) =
            fun id => (Function.update m c.id (some s) id).map DockerStats.counters := by
        funext id
        by_cases hid : id = c.id
        · subst hid
          simp
        · simp [hid]
      dsimp only
      rw [hupdate]
      exact ih _ _

def written (prev : Bytes → Option Counters) (elapsed : ℚ) (l : Listing) (i : ℕ) (e : Container) :
    Container :=
  match l.reading i with
  | some (c, s) => { e with figures := figures (prev c.id) elapsed s }
  | none => e

theorem record_out (acc : (Bytes → Option Counters) × List Container) (i : ℕ) :
    (record prev elapsed l acc i).2 = acc.2.modify i (written prev elapsed l i) := by
  unfold record written
  cases l.reading i with
  | some cs => rfl
  | none => exact (List.modify_id i acc.2).symm

theorem foldl_record_out {order : List ℕ} (h : order.Nodup)
    (acc : (Bytes → Option Counters) × List Container) (i : ℕ) :
    (order.foldl (record prev elapsed l) acc).2[i]? =
      if i ∈ order then acc.2[i]?.map (written prev elapsed l i) else acc.2[i]? := by
  induction order generalizing acc with
  | nil => simp
  | cons j order ih =>
    obtain ⟨hj, hnodup⟩ := List.nodup_cons.1 h
    rw [List.foldl_cons, ih hnodup, record_out, List.getElem?_modify]
    by_cases hij : i = j
    · subst hij
      simp [hj]
    · simp [hij, Ne.symm hij]

end order

/-- What is kept between two polls is what the listing `q` left. -/
structure Follows (d : Docker) (q : Option Listing) : Prop where
  prev : d.prev = fun id => (q.bind fun q => q.kept id).map DockerStats.counters
  prevTime : d.prevTime = q.map Listing.now

def entryAfter (q : Option Listing) (l : Listing) (i : ℕ) (c : DockerContainer) : Container :=
  written (fun id => (q.bind fun q => q.kept id).map DockerStats.counters)
    (elapsedSince (q.map Listing.now) l.now) l i c.entry

theorem available_keeps (d : Docker) (p : Poll) :
    (available d p).1.prev = d.prev ∧ (available d p).1.prevTime = d.prevTime := by
  unfold available
  split_ifs <;> exact ⟨rfl, rfl⟩

theorem mem_order {l : Listing} {i : ℕ} : i ∈ l.order ↔ i < l.listed.length := by
  rw [l.order_perm.mem_iff, List.mem_range]
  rfl

theorem order_nodup (l : Listing) : l.order.Nodup := l.order_perm.nodup_iff.2 List.nodup_range

theorem containers_listed {d : Docker} {q : Option Listing} (hd : Follows d q) {p : Poll}
    {l : Listing} (hp : p.answer = .ok l) {out : List Container}
    (hout : (containers d p).2 = some out) :
    Follows (containers d p).1 (some l) ∧
      ∀ i, out[i]? = l.listed[i]?.map (entryAfter q l i) := by
  obtain ⟨hprev, htime⟩ := available_keeps d p
  rw [hd.prev] at hprev
  rw [hd.prevTime] at htime
  unfold containers at hout ⊢
  dsimp only at hout ⊢
  split_ifs at hout ⊢ with hok
  rw [hp] at hout ⊢
  dsimp only at hout ⊢
  rw [hprev, htime] at hout ⊢
  refine ⟨⟨record_kept l.order (fun _ => none) _, rfl⟩, fun i => ?_⟩
  rw [← Option.some.inj hout, foldl_record_out (order_nodup l), List.getElem?_map]
  by_cases hi : i < l.listed.length
  · rw [if_pos (mem_order.2 hi), Option.map_map]
    rfl
  · rw [List.getElem?_eq_none (not_lt.1 hi)]
    simp

theorem containers_failed {d : Docker} {q : Option Listing} (hd : Follows d q) {p : Poll}
    (hfail : (containers d p).2 = none ∨ ∃ gone, p.answer = .error gone) :
    Follows (containers d p).1 q := by
  obtain ⟨hprev, htime⟩ := available_keeps d p
  have havailable : Follows (available d p).1 q := ⟨hprev.trans hd.prev, htime.trans hd.prevTime⟩
  unfold containers at hfail ⊢
  dsimp only at hfail ⊢
  split_ifs at hfail ⊢ with hok
  · cases hanswer : p.answer with
    | error gone =>
      dsimp only
      split_ifs
      · exact ⟨havailable.prev, havailable.prevTime⟩
      · exact havailable
    | ok l =>
      rw [hanswer] at hfail
      rcases hfail with hnone | ⟨gone, heq⟩
      · cases hnone
      · cases heq
  · exact havailable

theorem trace_entries {d : Docker} {q : Option Listing} (hd : Follows d q) {polls : List Poll}
    {n : ℕ} {l : Listing} {out : List Container} (h : (trace d polls)[n]? = some (l, out)) (i : ℕ) :
    out[i]? = l.listed[i]?.map (entryAfter (previous q (trace d polls) n) l i) := by
  induction polls generalizing d q n with
  | nil => cases h
  | cons p polls ih =>
    rw [trace] at h ⊢
    split at h
    case h_1 out' l' hout hp =>
      obtain ⟨hnext, hentries⟩ := containers_listed hd hp hout
      cases n with
      | zero =>
        cases h
        exact hentries i
      | succ n =>
        -- the listing of this poll is the one before for the rest of the trace
        rw [ih hnext h]
        cases n <;> rfl
    case h_2 hnot =>
      refine ih (containers_failed hd ?_) h
      cases hout : (containers d p).2 with
      | none => exact Or.inl rfl
      | some out' =>
        cases hp : p.answer with
        | error gone => exact Or.inr ⟨gone, rfl⟩
        | ok l' => exact absurd hp (hnot out' l' hout)

/-- Without the total, with the total alone, or with a usage that is below both the total and the
sum of the two words. -/
def CountedOnce (s : DockerStats) : Prop :=
  ∀ total, s.stats "total_inactive_file" = some total → s.stat "inactive_file" = 0 ∨
    s.usage ≤ total ∧ s.usage ≤ s.stat "inactive_file" + total

/-- A sum has not passed a multiple of 2^64 on its way, or it went back and so did the word. -/
def WordsFollow (prev cur : ℕ) : Prop :=
  cur / 2 ^ 64 = prev / 2 ^ 64 ∨ cur < prev ∧ cur % 2 ^ 64 ≤ prev % 2 ^ 64

theorem toNat_mem (s : DockerStats) :
    s.mem.toNat =
      s.usage.toNat - (s.stat "inactive_file" + s.stat "total_inactive_file").toNat := by
  unfold DockerStats.mem
  rw [UInt64.toNat_sub_of_le _ _ (min_le _ _)]
  change _ - (if _ ≤ _ then _ else _ : UInt64).toNat = _
  split_ifs with h
  · have := UInt64.le_iff_toNat_le.1 h
    omega
  · rfl

theorem mem_sound_iff (s : DockerStats) :
    s.mem.toNat = s.usage.toNat - s.cache ↔ CountedOnce s := by
  rw [toNat_mem]
  unfold DockerStats.cache CountedOnce
  cases htotal : s.stats "total_inactive_file" with
  | none => simp [DockerStats.stat, htotal]
  | some total =>
    have hstat : s.stat "total_inactive_file" = total := by rw [DockerStats.stat, htotal]; rfl
    simp only [hstat, Option.some.injEq, forall_eq']
    rw [← UInt64.toNat_inj, UInt64.le_iff_toNat_le, UInt64.le_iff_toNat_le, UInt64.toNat_add,
      UInt64.toNat_zero]
    have := (s.stat "inactive_file").toNat_lt
    have := total.toNat_lt
    omega

theorem counters_foldl (networks : List (UInt64 × UInt64)) (c : Counters) :
    networks.foldl (fun c n => { c with rx := c.rx + n.1, tx := c.tx + n.2 }) c =
      ⟨c.cpu, c.system, networks.foldl (fun x n => x + n.1) c.rx,
        networks.foldl (fun x n => x + n.2) c.tx⟩ := by
  induction networks generalizing c with
  | nil => rfl
  | cons n networks ih => exact ih _

theorem counters_eq (s : DockerStats) :
    s.counters.cpu = s.total ∧ s.counters.system = s.system ∧
      s.counters.rx.toNat = s.received % 2 ^ 64 ∧ s.counters.tx.toNat = s.sent % 2 ^ 64 := by
  unfold DockerStats.counters
  rw [counters_foldl]
  refine ⟨rfl, rfl, ?_, ?_⟩
  · rw [toNat_foldl_mod, UInt64.toNat_zero, Nat.zero_add]
    rfl
  · rw [toNat_foldl_mod, UInt64.toNat_zero, Nat.zero_add]
    rfl

theorem increase_eq (prev cur : ℕ) (seconds : ℚ) :
    increase prev cur seconds = (cur - prev : ℕ) / seconds := by
  unfold increase
  split_ifs with h
  · rw [Nat.sub_eq_zero_of_le h.le, Nat.cast_zero, zero_div]
  · rw [Nat.cast_sub (not_lt.1 h)]

theorem rate_sound_iff {prev cur : ℕ} {p c : UInt64} (hp : p.toNat = prev % 2 ^ 64)
    (hc : c.toNat = cur % 2 ^ 64) {seconds : ℚ} (h : 0 < seconds) :
    rate p c seconds = increase prev cur seconds ↔ WordsFollow prev cur := by
  rw [rate_eq, increase_eq, hp, hc, div_left_inj' h.ne', Nat.cast_inj]
  unfold WordsFollow
  omega

theorem cpu_eq_share (r s : DockerStats) : cpu r.counters s.counters = share r s := by
  obtain ⟨hr, hrs, -⟩ := counters_eq r
  obtain ⟨hs, hss, -⟩ := counters_eq s
  unfold cpu share
  rw [hr, hrs, hs, hss]
  split_ifs with h
  · rw [UInt64.toNat_sub_of_le _ _ h.2, UInt64.toNat_sub_of_le _ _ (UInt64.le_of_lt h.1),
      Nat.cast_sub (UInt64.le_iff_toNat_le.1 h.2),
      Nat.cast_sub (UInt64.lt_iff_toNat_lt.1 h.1).le]
  · rfl

theorem elapsed_instants (t now : Instant) : elapsed t now = ((now : ℚ) - t) / 10 ^ 9 := by
  have hclamp : max (-2 ^ 63) (min (2 ^ 63 - 1) ((now : ℤ) - t)) = (now : ℤ) - t := by omega
  unfold elapsed
  rw [hclamp]
  push_cast
  rfl

theorem elapsed_instants_pos {t now : Instant} : 0 < elapsed t now ↔ t < now := by
  rw [elapsed_instants, div_pos_iff_of_pos_right (by norm_num), sub_pos, Nat.cast_lt]
  rfl

section baseline

variable {q : Option Listing} {l : Listing} {id : Bytes}

theorem baseline_pos {r : DockerStats} {seconds : ℚ} (h : baseline q l id = some (r, seconds)) :
    0 < seconds := by
  cases q with
  | none => cases h
  | some q =>
    simp only [baseline] at h
    split_ifs at h with hlt
    obtain ⟨r', -, heq⟩ := Option.map_eq_some_iff.1 h
    cases heq
    rw [← elapsed_instants]
    exact elapsed_instants_pos.2 hlt

theorem figures_baseline (q : Option Listing) (l : Listing) (id : Bytes) (s : DockerStats) :
    figures ((q.bind fun q => q.kept id).map DockerStats.counters)
        (elapsedSince (q.map Listing.now) l.now) s =
      match baseline q l id with
      | some (r, seconds) => ⟨cpu r.counters s.counters, s.mem, s.limit,
          rate r.counters.rx s.counters.rx seconds, rate r.counters.tx s.counters.tx seconds⟩
      | none => ⟨0, s.mem, s.limit, 0, 0⟩ := by
  cases q with
  | none => rfl
  | some q =>
    simp only [Option.bind_some, Option.map_some, elapsedSince, baseline]
    cases q.kept id with
    | none => simp [figures]
    | some r =>
      by_cases hlt : q.now < l.now
      · have hpos := elapsed_instants_pos.2 hlt
        rw [elapsed_instants] at hpos
        simp only [figures, Option.map_some, elapsed_instants, hpos, hlt, if_true]
      · simp only [figures, Option.map_some, elapsed_instants_pos, hlt, if_false]

end baseline

theorem figures_sound_iff (q : Option Listing) (l : Listing) (c : DockerContainer)
    (s : DockerStats) :
    FiguresSound q l c s (figures ((q.bind fun q => q.kept c.id).map DockerStats.counters)
        (elapsedSince (q.map Listing.now) l.now) s) ↔
      CountedOnce s ∧ ∀ r seconds, baseline q l c.id = some (r, seconds) →
        WordsFollow r.received s.received ∧ WordsFollow r.sent s.sent := by
  rw [figures_baseline, ← mem_sound_iff]
  obtain ⟨-, -, hrx, htx⟩ := counters_eq s
  cases hbase : baseline q l c.id with
  | none =>
    constructor
    · intro h
      exact ⟨h.mem, by simp⟩
    · intro h
      exact ⟨h.1, by simp [hbase], fun _ => ⟨rfl, rfl, rfl⟩⟩
  | some base =>
    obtain ⟨r, seconds⟩ := base
    have hpos := baseline_pos hbase
    obtain ⟨-, -, hrrx, hrtx⟩ := counters_eq r
    constructor
    · intro h
      refine ⟨h.mem, ?_⟩
      rintro r' seconds' heq
      cases heq
      obtain ⟨-, hnetRx, hnetTx⟩ := h.rates r seconds hbase
      exact ⟨(rate_sound_iff hrrx hrx hpos).1 hnetRx, (rate_sound_iff hrtx htx hpos).1 hnetTx⟩
    · rintro ⟨hmem, hwords⟩
      obtain ⟨hreceived, hsent⟩ := hwords r seconds rfl
      refine ⟨hmem, ?_, by simp [hbase]⟩
      rintro r' seconds' heq
      rw [hbase] at heq
      cases heq
      exact ⟨cpu_eq_share r s, (rate_sound_iff hrrx hrx hpos).2 hreceived,
        (rate_sound_iff hrtx htx hpos).2 hsent⟩

/-- The readings with which the figures are sound. -/
def Clean (polls : List Poll) : Prop :=
  ∀ n l out i c s, (trace new polls)[n]? = some (l, out) → l.reading i = some (c, s) →
    CountedOnce s ∧
    ∀ r seconds, baseline (previous none (trace new polls) n) l c.id = some (r, seconds) →
      WordsFollow r.received s.received ∧ WordsFollow r.sent s.sent

theorem follows_new : Follows new none := ⟨rfl, rfl⟩

theorem reading_listed {l : Listing} {i : ℕ} {c : DockerContainer} {s : DockerStats}
    (h : l.reading i = some (c, s)) : l.listed[i]? = some c := by
  unfold Listing.reading at h
  split at h
  case h_1 c' hc =>
    split_ifs at h
    obtain ⟨s', -, heq⟩ := Option.map_eq_some_iff.1 h
    cases heq
    exact hc
  case h_2 => cases h

theorem foldl_keep (l : Listing) (order : List ℕ) (m : Bytes → Option DockerStats) {id : Bytes}
    {r : DockerStats} (h : order.foldl l.keep m id = some r) :
    m id = some r ∨ ∃ i c, l.reading i = some (c, r) ∧ c.id = id := by
  induction order generalizing m with
  | nil => exact Or.inl h
  | cons i order ih =>
    rcases ih (l.keep m i) h with hkeep | hread
    · unfold Listing.keep at hkeep
      cases hi : l.reading i with
      | none =>
        rw [hi] at hkeep
        exact Or.inl hkeep
      | some cs =>
        obtain ⟨c, s⟩ := cs
        rw [hi] at hkeep
        dsimp only at hkeep
        by_cases hid : id = c.id
        · rw [hid, Function.update_self] at hkeep
          cases hkeep
          exact Or.inr ⟨i, c, hi, hid.symm⟩
        · rw [Function.update_of_ne hid] at hkeep
          exact Or.inl hkeep
    · exact Or.inr hread

theorem baseline_reading {q : Option Listing} {l : Listing} {id : Bytes} {r : DockerStats}
    {seconds : ℚ} (h : baseline q l id = some (r, seconds)) :
    ∃ q' i c, q = some q' ∧ q'.reading i = some (c, r) ∧ c.id = id ∧
      seconds = ((l.now : ℚ) - q'.now) / 10 ^ 9 ∧ 0 < seconds := by
  have hpos := baseline_pos h
  cases q with
  | none => cases h
  | some q =>
    simp only [baseline] at h
    split_ifs at h with hlt
    obtain ⟨r', hkept, heq⟩ := Option.map_eq_some_iff.1 h
    cases heq
    rcases foldl_keep q q.order _ hkept with hnone | ⟨i, c, hread, hid⟩
    · cases hnone
    · exact ⟨q, i, c, rfl, hread, hid, rfl, hpos⟩

theorem length_of_entries {out : List Container} {xs : List DockerContainer}
    {f : ℕ → DockerContainer → Container} (h : ∀ i, out[i]? = xs[i]?.map (f i)) :
    out.length = xs.length := by
  refine le_antisymm ?_ ?_
  · rw [← List.getElem?_eq_none_iff, h, Option.map_eq_none_iff, List.getElem?_eq_none_iff]
  · rw [← List.getElem?_eq_none_iff, ← Option.map_eq_none_iff, ← h, List.getElem?_eq_none_iff]

theorem sound_iff_clean (polls : List Poll) : Sound polls ↔ Clean polls := by
  constructor
  · intro h n l out i c s hn hread
    have he := trace_entries follows_new hn i
    rw [reading_listed hread, Option.map_some] at he
    have hsound := (h n l out hn).2 i _ he
    rw [hread] at hsound
    simp only [entryAfter, written, hread] at hsound
    exact (figures_sound_iff _ l c s).1 hsound
  · intro h n l out hn
    have hentries := trace_entries follows_new hn
    refine ⟨length_of_entries hentries, fun i e he => ?_⟩
    rw [hentries i] at he
    obtain ⟨c, hc, rfl⟩ := Option.map_eq_some_iff.1 he
    cases hread : l.reading i with
    | none => simp only [entryAfter, written, hread, DockerContainer.entry]
    | some cs =>
      obtain ⟨c', s⟩ := cs
      simp only [entryAfter, written, hread]
      exact (figures_sound_iff _ l c' s).2 (h n l out i c' s hn hread)

/-- The arithmetic never fails; rates are of two readings of one container in successive polls;
and over all polls the figures are sound exactly if the page cache is not counted twice and no sum
of network counters is cut off. -/
theorem container_figures_sound_iff (polls : List Poll) :
    (∀ prev seconds s, checkedFigures prev seconds s = some (figures prev seconds s)) ∧
    (∀ q l id r seconds, baseline q l id = some (r, seconds) →
      ∃ q' i c, q = some q' ∧ q'.reading i = some (c, r) ∧ c.id = id ∧
        seconds = ((l.now : ℚ) - q'.now) / 10 ^ 9 ∧ 0 < seconds) ∧
    (Sound polls ↔ Clean polls) := by
  refine ⟨checkedFigures_eq, ?_, sound_iff_clean polls⟩
  intro q l id r seconds
  exact baseline_reading

/-- A container with 300 bytes in use, of which 100 are page cache. Cgroup v1 reports these with
both names. -/
def cgroupV1 : DockerStats where
  total := 0
  system := 0
  usage := 300
  limit := 1000
  stats name :=
    if name = "inactive_file" ∨ name = "total_inactive_file" then some 100 else none
  networks := []

def oneContainer : Listing where
  list := [⟨[0x61], [[0x2f, 0x77, 0x65, 0x62]], "nginx", "running", "Up 1 hour"⟩]
  now := ⟨10 ^ 9, by norm_num⟩
  stats _ := some cgroupV1
  order := [0]
  order_perm := List.Perm.refl _

def cgroupV1Poll : Poll := ⟨false, oneContainer.now, oneContainer.now, true, .ok oneContainer⟩

/-- Only 100 of the 200 bytes that are in use without the cache are reported. -/
theorem cgroup_v1_cache_counted_twice :
    cgroupV1.usage.toNat - cgroupV1.cache = 200 ∧
    (trace new [cgroupV1Poll]).map (fun t => t.2.map fun e => e.figures.mem.toNat) = [[100]] ∧
    ¬ Sound [cgroupV1Poll] := by
  refine ⟨by decide, by decide, fun h => ?_⟩
  have hsound := (h 0 oneContainer _ rfl).2 0 _ rfl
  exact absurd hsound.mem (by decide)

theorem trace_answer {d : Docker} {polls : List Poll} {l : Listing} {out : List Container}
    (h : (l, out) ∈ trace d polls) : ∃ p ∈ polls, p.answer = .ok l := by
  induction polls generalizing d with
  | nil => cases h
  | cons p polls ih =>
    rw [trace] at h
    have htail {d : Docker} (h : (l, out) ∈ trace d polls) :
        ∃ p' ∈ p :: polls, p'.answer = .ok l := by
      obtain ⟨p', hp', hanswer⟩ := ih h
      exact ⟨p', List.mem_cons_of_mem p hp', hanswer⟩
    split at h
    case h_1 out' l' _ hp =>
      rcases List.mem_cons.1 h with heq | h
      · cases heq
        exact ⟨p, List.mem_cons_self, hp⟩
      · exact htail h
    case h_2 => exact htail h

/-- Without the total of cgroup v1, and with sums below 2^64, all figures are sound. -/
theorem cgroup_v2_sound {polls : List Poll}
    (h : ∀ p ∈ polls, ∀ l, p.answer = .ok l → ∀ i c s, l.reading i = some (c, s) →
      s.stats "total_inactive_file" = none ∧ s.received < 2 ^ 64 ∧ s.sent < 2 ^ 64) :
    Sound polls := by
  have hread {l : Listing} {out : List Container} (hl : (l, out) ∈ trace new polls) {i : ℕ}
      {c : DockerContainer} {s : DockerStats} (hs : l.reading i = some (c, s)) :
      s.stats "total_inactive_file" = none ∧ s.received < 2 ^ 64 ∧ s.sent < 2 ^ 64 := by
    obtain ⟨p, hp, hanswer⟩ := trace_answer hl
    exact h p hp l hanswer i c s hs
  have hwords {m n : ℕ} (hm : m < 2 ^ 64) (hn : n < 2 ^ 64) : WordsFollow m n :=
    Or.inl (by rw [Nat.div_eq_of_lt hm, Nat.div_eq_of_lt hn])
  refine (sound_iff_clean polls).2 ?_
  intro n l out i c s hn hs
  obtain ⟨htotal, hreceived, hsent⟩ := hread (List.mem_of_getElem? hn) hs
  refine ⟨by simp [CountedOnce, htotal], fun r seconds hbase => ?_⟩
  obtain ⟨q, j, c', hq, hr, -⟩ := baseline_reading hbase
  cases n with
  | zero => cases hq
  | succ n =>
    obtain ⟨⟨q', out'⟩, hn', rfl⟩ := Option.map_eq_some_iff.1 hq
    obtain ⟨-, hreceived', hsent'⟩ := hread (List.mem_of_getElem? hn') hr
    exact ⟨hwords hreceived' hreceived, hwords hsent' hsent⟩

end Lotse.Containers
