import Mathlib.Tactic

set_option autoImplicit false

/-!
# Rates of traffic

The part of `Collector.Sample` that turns the counters of the network and the disks into rates.
Every sample may fail to read either of them. Counters are 64-bit words, elapsed times and rates
exact.
-/
namespace Lotse.Traffic

structure IfStat where
  name : String
  bytesRecv : UInt64
  bytesSent : UInt64

structure DiskStat where
  name : String
  readBytes : UInt64
  writeBytes : UInt64

def virtualIfPrefixes : List String :=
  ["lo", "docker", "veth", "br-", "virbr", "vmnet", "vboxnet", "cni", "flannel", "cali", "kube",
    "tun", "tap", "wg", "tailscale", "zt", "utun", "awdl", "llw", "bridge", "anpi", "ap1", "gif",
    "stf", "Loopback", "vEthernet", "isatap", "Teredo", "Local Area Connection*"]

def hasPrefix (name p : String) : Bool := p.toList.isPrefixOf name.toList

def virtualInterface (name : String) : Bool := virtualIfPrefixes.any (hasPrefix name)

def stackedDiskPrefixes : List String := ["loop", "ram", "zram", "dm-", "md", "sr", "fd", "nbd"]

structure Host where
  goos : String
  ifs : List IfStat
  disks : List DiskStat
  sysBlock : String → Bool

def physicalDisk (h : Host) (name : String) : Bool :=
  h.goos ≠ "linux" || (!stackedDiskPrefixes.any (hasPrefix name) && h.sysBlock name)

structure Counters where
  a : UInt64
  b : UInt64

def netCounters (h : Host) (ok : Bool) : Counters :=
  if ok then
    h.ifs.foldl (fun c s =>
      if virtualInterface s.name then c else ⟨c.a + s.bytesRecv, c.b + s.bytesSent⟩) ⟨0, 0⟩
  else ⟨0, 0⟩

def diskCounters (h : Host) (ok : Bool) : Counters :=
  if ok then
    h.disks.foldl (fun c s =>
      if !physicalDisk h s.name then c else ⟨c.a + s.readBytes, c.b + s.writeBytes⟩) ⟨0, 0⟩
  else ⟨0, 0⟩

/-- What a call of `Sample` finds: the clock in nanoseconds, the host, and whether its counters
can be read. -/
structure Moment where
  now : ℤ
  host : Host
  netOk : Bool
  diskOk : Bool

/-- `prevTime` is the zero time before the first sample. -/
structure Collector where
  prevTime : Option ℤ
  prevNet : Counters
  prevDisk : Counters

structure Metrics where
  netRx : ℚ
  netTx : ℚ
  diskRead : ℚ
  diskWrite : ℚ

def rate (prev cur : UInt64) (seconds : ℚ) : ℚ :=
  if cur < prev then 0 else (cur - prev).toNat / seconds

/-- `now.Sub(prev).Seconds()`; a duration has 64 bits and saturates. -/
def elapsed (prev now : ℤ) : ℚ := (max (-2 ^ 63) (min (2 ^ 63 - 1) (now - prev)) : ℤ) / 10 ^ 9

def zero : Collector := ⟨none, ⟨0, 0⟩, ⟨0, 0⟩⟩

def sample (c : Collector) (m : Moment) : Metrics × Collector :=
  let netNow := netCounters m.host m.netOk
  let diskNow := diskCounters m.host m.diskOk
  let rates : Metrics :=
    match c.prevTime with
    | none => ⟨0, 0, 0, 0⟩
    | some prev =>
      let seconds := elapsed prev m.now
      if 0 < seconds then
        ⟨rate c.prevNet.a netNow.a seconds, rate c.prevNet.b netNow.b seconds,
          rate c.prevDisk.a diskNow.a seconds, rate c.prevDisk.b diskNow.b seconds⟩
      else ⟨0, 0, 0, 0⟩
  (rates, ⟨some m.now, netNow, diskNow⟩)

def samples (c : Collector) : List Moment → List Metrics
  | [] => []
  | m :: ms => (sample c m).1 :: samples (sample c m).2 ms

inductive Col where
  | netRx
  | netTx
  | diskRead
  | diskWrite
  deriving DecidableEq

def Metrics.get (m : Metrics) : Col → ℚ
  | .netRx => m.netRx
  | .netTx => m.netTx
  | .diskRead => m.diskRead
  | .diskWrite => m.diskWrite

def Host.total (h : Host) : Col → ℕ
  | .netRx => ((h.ifs.filter fun s => !virtualInterface s.name).map (·.bytesRecv.toNat)).sum
  | .netTx => ((h.ifs.filter fun s => !virtualInterface s.name).map (·.bytesSent.toNat)).sum
  | .diskRead => ((h.disks.filter fun s => physicalDisk h s.name).map (·.readBytes.toNat)).sum
  | .diskWrite => ((h.disks.filter fun s => physicalDisk h s.name).map (·.writeBytes.toNat)).sum

def Moment.ok (m : Moment) : Col → Bool
  | .netRx | .netTx => m.netOk
  | .diskRead | .diskWrite => m.diskOk

/-- Times increase, and no counter goes back or reaches 2^64. -/
structure Steady (ms : List Moment) : Prop where
  times : ms.IsChain fun p m => p.now < m.now
  counters : ms.IsChain fun p m => ∀ col, p.host.total col ≤ m.host.total col
  words : ∀ m ∈ ms, ∀ col, m.host.total col < 2 ^ 64

/-- No rate is above the increase of its counter since the sample before; the first sample has
no rates. -/
structure Bounded (ms : List Moment) : Prop where
  first : ∀ r, (samples zero ms)[0]? = some r → ∀ col, r.get col = 0
  later : ∀ i p m r, ms[i]? = some p → ms[i + 1]? = some m → (samples zero ms)[i + 1]? = some r →
    ∀ col, r.get col * elapsed p.now m.now ≤ m.host.total col - p.host.total col

/-- A counter is read right after it could not be read only if it was still 0. -/
def SoundBaselines (ms : List Moment) : Prop :=
  ∀ i p m, ms[i]? = some p → ms[i + 1]? = some m →
    ∀ col, p.ok col ∨ ¬ m.ok col ∨ p.host.total col = 0

section sums

variable {σ : Type*}

theorem foldl_counters (skip : σ → Bool) (a b : σ → UInt64) (xs : List σ) (c : Counters) :
    xs.foldl (fun c s => if skip s then c else ⟨c.a + a s, c.b + b s⟩) c =
      ⟨xs.foldl (fun x s => if skip s then x else x + a s) c.a,
        xs.foldl (fun x s => if skip s then x else x + b s) c.b⟩ := by
  induction xs generalizing c with
  | nil => rfl
  | cons s xs ih =>
    rw [List.foldl_cons, List.foldl_cons, List.foldl_cons, ih]
    cases skip s <;> rfl

theorem toNat_foldl_mod (f : σ → UInt64) (xs : List σ) (x : UInt64) :
    (xs.foldl (fun x s => x + f s) x).toNat =
      (x.toNat + (xs.map fun s => (f s).toNat).sum) % 2 ^ 64 := by
  induction xs generalizing x with
  | nil => simp
  | cons s xs ih =>
    rw [List.foldl_cons, ih, List.map_cons, List.sum_cons, UInt64.toNat_add, Nat.mod_add_mod,
      Nat.add_assoc]

theorem toNat_foldl (skip : σ → Bool) (f : σ → UInt64) (xs : List σ) (x : UInt64)
    (h : x.toNat + ((xs.filter fun s => !skip s).map fun s => (f s).toNat).sum < 2 ^ 64) :
    (xs.foldl (fun x s => if skip s then x else x + f s) x).toNat =
      x.toNat + ((xs.filter fun s => !skip s).map fun s => (f s).toNat).sum := by
  have hskip : (fun x s => if skip s then x else x + f s) =
      fun x s => if !skip s then x + f s else x := by
    funext x s
    cases skip s <;> rfl
  rw [hskip, ← List.foldl_filter, toNat_foldl_mod, Nat.mod_eq_of_lt h]

theorem toNat_foldl_zero {skip : σ → Bool} {f : σ → UInt64} {xs : List σ}
    (h : ((xs.filter fun s => !skip s).map fun s => (f s).toNat).sum < 2 ^ 64) :
    (xs.foldl (fun x s => if skip s then x else x + f s) 0).toNat =
      ((xs.filter fun s => !skip s).map fun s => (f s).toNat).sum := by
  rw [toNat_foldl skip f xs 0 (by simpa using h), UInt64.toNat_zero, Nat.zero_add]

end sums

def Moment.read (m : Moment) : Col → UInt64
  | .netRx => (netCounters m.host m.netOk).a
  | .netTx => (netCounters m.host m.netOk).b
  | .diskRead => (diskCounters m.host m.diskOk).a
  | .diskWrite => (diskCounters m.host m.diskOk).b

theorem toNat_read {m : Moment} {col : Col} (h : m.host.total col < 2 ^ 64) :
    (m.read col).toNat = if m.ok col then m.host.total col else 0 := by
  have hdisks : (m.host.disks.filter fun s => physicalDisk m.host s.name) =
      m.host.disks.filter fun s => !(!physicalDisk m.host s.name) := by simp
  cases hok : m.ok col with
  | false => cases col <;> simp_all [Moment.ok, Moment.read, netCounters, diskCounters]
  | true =>
    cases col with
    | netRx | netTx =>
      simp only [Moment.ok] at hok
      simp only [Moment.read, netCounters, hok, if_true, foldl_counters]
      exact toNat_foldl_zero h
    | diskRead | diskWrite =>
      simp only [Moment.ok] at hok
      simp only [Host.total, hdisks] at h ⊢
      simp only [Moment.read, diskCounters, hok, if_true, foldl_counters]
      exact toNat_foldl_zero h

theorem rate_eq (prev cur : UInt64) (seconds : ℚ) :
    rate prev cur seconds = (cur.toNat - prev.toNat : ℕ) / seconds := by
  unfold rate
  split_ifs with hlt
  · rw [Nat.sub_eq_zero_of_le (UInt64.lt_iff_toNat_lt.1 hlt).le, Nat.cast_zero, zero_div]
  · rw [UInt64.toNat_sub_of_le _ _ (UInt64.not_lt.1 hlt)]

theorem elapsed_pos {prev now : ℤ} (h : prev < now) : 0 < elapsed prev now := by
  have hclamp : 0 < max (-2 ^ 63) (min (2 ^ 63 - 1) (now - prev)) := by omega
  unfold elapsed
  exact div_pos (by exact_mod_cast hclamp) (by norm_num)

def after (p : Moment) : Collector :=
  ⟨some p.now, netCounters p.host p.netOk, diskCounters p.host p.diskOk⟩

theorem get_sample_after {p m : Moment} (h : p.now < m.now) (col : Col) :
    (sample (after p) m).1.get col = rate (p.read col) (m.read col) (elapsed p.now m.now) := by
  have hpos := elapsed_pos h
  simp only [sample, after, hpos, if_true]
  cases col <;> rfl

theorem samples_succ {ms : List Moment} {i : ℕ} {p m : Moment} (c : Collector) (hp : ms[i]? = some p)
    (hm : ms[i + 1]? = some m) : (samples c ms)[i + 1]? = some (sample (after p) m).1 := by
  induction ms generalizing c i with
  | nil => cases hp
  | cons first ms ih =>
    cases i with
    | succ i => exact ih _ hp hm
    | zero =>
      cases hp
      cases ms with
      | nil => cases hm
      | cons second ms =>
        cases hm
        rfl

theorem first_sample {ms : List Moment} {r : Metrics} (h : (samples zero ms)[0]? = some r)
    (col : Col) : r.get col = 0 := by
  cases ms with
  | nil => cases h
  | cons m ms =>
    cases h
    cases col <;> rfl

section pair

variable {ms : List Moment} (hs : Steady ms) {i : ℕ} {p m : Moment} (hp : ms[i]? = some p)
  (hm : ms[i + 1]? = some m)
include hs hp hm

theorem Steady.time_lt : p.now < m.now := by
  obtain ⟨hi, rfl⟩ := List.getElem?_eq_some_iff.1 hp
  obtain ⟨hj, rfl⟩ := List.getElem?_eq_some_iff.1 hm
  exact List.isChain_iff_getElem.1 hs.times i hj

theorem Steady.total_le (col : Col) : p.host.total col ≤ m.host.total col := by
  obtain ⟨hi, rfl⟩ := List.getElem?_eq_some_iff.1 hp
  obtain ⟨hj, rfl⟩ := List.getElem?_eq_some_iff.1 hm
  exact List.isChain_iff_getElem.1 hs.counters i hj col

theorem Steady.reported (col : Col) :
    (sample (after p) m).1.get col * elapsed p.now m.now =
      ((if m.ok col then m.host.total col else 0) - (if p.ok col then p.host.total col else 0) : ℕ) := by
  have hlt := hs.time_lt hp hm
  have hword := hs.words p (List.mem_of_getElem? hp) col
  have hword' := hs.words m (List.mem_of_getElem? hm) col
  rw [get_sample_after hlt, rate_eq, toNat_read hword, toNat_read hword',
    div_mul_cancel₀ _ (elapsed_pos hlt).ne']

theorem Steady.bounded_iff (col : Col) :
    (sample (after p) m).1.get col * elapsed p.now m.now ≤
        (m.host.total col - p.host.total col : ℚ) ↔
      p.ok col ∨ ¬ m.ok col ∨ p.host.total col = 0 := by
  have hle := hs.total_le hp hm col
  rw [hs.reported hp hm, ← Nat.cast_sub hle, Nat.cast_le]
  cases p.ok col with
  | true => cases m.ok col <;> simp
  | false =>
    cases m.ok col with
    | false => simp
    | true =>
      simp only [if_true, Bool.false_eq_true, if_false, Nat.sub_zero, not_true, false_or]
      omega

end pair

/-- The unsigned subtraction does not wrap. Over samples at increasing times, with counters that
never go back, no rate is above the increase of its counter exactly if no counter above 0 is
read right after it could not be read. -/
theorem rates_bounded_iff (ms : List Moment) (hs : Steady ms) :
    (∀ prev cur seconds, rate prev cur seconds = (cur.toNat - prev.toNat : ℕ) / seconds) ∧
      (Bounded ms ↔ SoundBaselines ms) := by
  refine ⟨rate_eq, ⟨?_, ?_⟩⟩
  · intro h i p m hp hm col
    exact (hs.bounded_iff hp hm col).1 (h.later i p m _ hp hm (samples_succ zero hp hm) col)
  · intro h
    refine ⟨fun r hr => first_sample hr, fun i p m r hp hm hr col => ?_⟩
    rw [samples_succ zero hp hm] at hr
    cases hr
    exact (hs.bounded_iff hp hm col).2 (h i p m hp hm col)

def oneCard (received : UInt64) : Host := ⟨"linux", [⟨"eth0", received, 0⟩], [], fun _ => false⟩

def readAt (seconds : ℤ) (received : UInt64) (ok : Bool) : Moment :=
  ⟨seconds * 10 ^ 9, oneCard received, ok, true⟩

theorem total_oneCard (received : UInt64) (col : Col) :
    (oneCard received).total col = if col = .netRx then received.toNat else 0 := by
  have hname : virtualInterface "eth0" = false := by decide +kernel
  cases col <;> simp [oneCard, Host.total, hname]

theorem steady_reads {a b c : UInt64} (hab : a.toNat ≤ b.toNat) (hbc : b.toNat ≤ c.toNat)
    (first second third : Bool) :
    Steady [readAt 1 a first, readAt 2 b second, readAt 3 c third] := by
  refine ⟨by simp [readAt], ?_, ?_⟩
  · simp only [List.isChain_cons_cons, List.isChain_singleton, and_true, readAt, total_oneCard]
    constructor
    · intro col
      split_ifs <;> omega
    · intro col
      split_ifs <;> omega
  · intro m hm col
    have hword (x : UInt64) (t : ℤ) (ok : Bool) : (readAt t x ok).host.total col < 2 ^ 64 := by
      have hx := x.toNat_lt
      simp only [readAt, total_oneCard]
      split_ifs <;> omega
    simp only [List.mem_cons, List.not_mem_nil, or_false] at hm
    rcases hm with rfl | rfl | rfl <;> exact hword _ _ _

def readTwice : List Moment := [readAt 1 1000 true, readAt 2 1500 true, readAt 3 1500 false]

theorem rates_bounded_read_twice : Steady readTwice ∧ Bounded readTwice := by
  have hs : Steady readTwice := steady_reads (by decide) (by decide) _ _ _
  refine ⟨hs, (rates_bounded_iff readTwice hs).2.2 ?_⟩
  intro i p m hp hm col
  match i with
  | 0 =>
    cases hp
    cases col <;> exact Or.inl rfl
  | 1 =>
    cases hp
    cases col <;> exact Or.inl rfl
  | i + 2 => cases hm

def failedOnce : List Moment := [readAt 1 1000 true, readAt 2 1000 false, readAt 3 1000 true]

/-- Nothing is received, and the third sample reports all that ever was. -/
theorem failed_reading_becomes_traffic : Steady failedOnce ∧
    failedOnce.map (·.host.total .netRx) = [1000, 1000, 1000] ∧
    (samples zero failedOnce).map Metrics.netRx = [0, 0, 1000] ∧ ¬ Bounded failedOnce := by
  have hs : Steady failedOnce := steady_reads le_rfl le_rfl _ _ _
  refine ⟨hs, by simp [failedOnce, readAt, total_oneCard], by decide +kernel, fun h => ?_⟩
  have hp : failedOnce[1]? = some (readAt 2 1000 false) := rfl
  have hm : failedOnce[1 + 1]? = some (readAt 3 1000 true) := rfl
  have hrate := h.later 1 _ _ _ hp hm (samples_succ zero hp hm) .netRx
  rcases (hs.bounded_iff hp hm .netRx).1 hrate with hok | hok | hzero
  · cases hok
  · exact hok rfl
  · simp [readAt, total_oneCard] at hzero

end Lotse.Traffic
