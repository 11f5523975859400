import Mathlib

/-! # Time, sleeping and randomness

Instants and durations are nanosecond counts. `Core` is the engine's access to
time and randomness: it holds the present instant together with a script of what
its coming readings observe, so that two readings in one stretch of code may
differ by any amount, and the answers of the random generator.
-/

namespace ExecutionPolicy

/-- `Duration::MAX`: `u64::MAX` seconds and 999 999 999 nanoseconds. -/
def Duration.max : Nat := 2 ^ 64 * 10 ^ 9 - 1

def Duration.checkedMul (d k : Nat) : Option Nat :=
  if d * k ≤ Duration.max then some (d * k) else none

def Instant.checkedSub (t d : Nat) : Option Nat :=
  if d ≤ t then some (t - d) else none

/-- `Instant::duration_since` and `saturating_duration_since`: zero when `earlier` is later. -/
def Instant.durationSince (t earlier : Nat) : Nat := t - earlier

/--
The clock and the random generator of one runtime.

`ticks` says how far the clock moves before each of the coming readings and
`draws` what the generator answers next; an exhausted script means no movement
and the answer zero.
-/
structure Core where
  time : Nat
  ticks : List Nat
  draws : List UInt64
deriving DecidableEq, Repr

namespace Core

/-- One reading of the clock; the value read is the `time` of the result. -/
def tick (k : Core) : Core :=
  match k.ticks with
  | [] => k
  | d :: ds => { k with time := k.time + d, ticks := ds }

/-- Time passes without being read. -/
def elapse (k : Core) (d : Nat) : Core := { k with time := k.time + d }

/-- `Core::sleep`: the instant from which the returned future is ready. -/
def sleep (k : Core) (d : Nat) : Nat × Core :=
  (k.tick.time + d, k.tick)

/-- The idiom `core.sleep(deadline.saturating_duration_since(core.now()))`. -/
def sleepUntil (k : Core) (deadline : Nat) : Nat × Core :=
  let now := k.tick
  now.sleep (Instant.durationSince deadline now.time)

/-- Poll an armed timer; an absent timer is never ready and reads no clock. -/
def pollTimer (k : Core) : Option Nat → Bool × Core
  | none => (false, k)
  | some wake => (decide (wake ≤ k.tick.time), k.tick)

def nextU64 (k : Core) : UInt64 × Core :=
  match k.draws with
  | [] => (0, k)
  | r :: rs => (r, { k with draws := rs })

theorem time_le_tick (k : Core) : k.time ≤ k.tick.time := by
  unfold tick
  cases k.ticks <;> simp

theorem tick_of_still {k : Core} (h : k.ticks = []) : k.tick = k := by
  simp [tick, h]

/-- A clock that stands still between readings. -/
def still (time : Nat) : Core := { time, ticks := [], draws := [] }

@[simp] theorem tick_still (time : Nat) : (still time).tick = still time := rfl

theorem time_le_pollTimer (k : Core) (timer : Option Nat) :
    k.time ≤ (k.pollTimer timer).2.time := by
  cases timer with
  | none => exact Nat.le_refl _
  | some wake => exact k.time_le_tick

@[simp] theorem nextU64_time (k : Core) : k.nextU64.2.time = k.time := by
  unfold nextU64
  cases k.draws <;> rfl

end Core

end ExecutionPolicy
