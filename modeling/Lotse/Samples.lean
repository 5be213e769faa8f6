import Mathlib.Data.Int.Log
import Mathlib.Data.Rat.Floor
import Mathlib.Tactic

set_option autoImplicit false

namespace Lotse.Samples

/-- The nearest number with 53 bits, and of two the even one. The exponents that occur are far
from the limits of the type. -/
def float64 (q : ℚ) : ℚ :=
  let unit : ℚ := 2 ^ (Int.log 2 q - 52)
  let n := ⌊q / unit⌋
  if q / unit - n < 1 / 2 ∨ (q / unit - n = 1 / 2 ∧ n % 2 = 0) then n * unit else (n + 1) * unit

structure Metrics where
  cpu : ℚ
  memUsed : ℕ
  memTotal : ℕ
  swapUsed : ℕ
  swapTotal : ℕ
  diskUsed : ℕ
  diskTotal : ℕ
  diskRead : ℚ
  diskWrite : ℚ
  netRx : ℚ
  netTx : ℚ
  load1 : ℚ
  load5 : ℚ
  load15 : ℚ
  deriving DecidableEq

inductive MetricCol where
  | cpu
  | memUsed
  | memTotal
  | swapUsed
  | swapTotal
  | diskUsed
  | diskTotal
  | diskRead
  | diskWrite
  | netRx
  | netTx
  | load1
  | load5
  | load15
  deriving DecidableEq

def Values : Type := MetricCol → ℚ

def metricValues (m : Metrics) : Values
  | .cpu => m.cpu
  | .memUsed => m.memUsed
  | .memTotal => m.memTotal
  | .swapUsed => m.swapUsed
  | .swapTotal => m.swapTotal
  | .diskUsed => m.diskUsed
  | .diskTotal => m.diskTotal
  | .diskRead => m.diskRead
  | .diskWrite => m.diskWrite
  | .netRx => m.netRx
  | .netTx => m.netTx
  | .load1 => m.load1
  | .load5 => m.load5
  | .load15 => m.load15

end Lotse.Samples
