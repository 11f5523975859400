import ExecutionPolicy.Foundation.Checked
import ExecutionPolicy.Time

/-! # Additions that panic

`Instant + Duration` panics past `latest`, the largest instant, and `+=` on a `u32` panics
past its maximum.
-/

namespace ExecutionPolicy

inductive Panic where
  | instantOverflow
  | counterOverflow
  /-- `lock().unwrap()` on a poisoned lock. -/
  | poisonedLock
deriving DecidableEq, Repr

def Instant.add {σ : Type} (latest t d : Nat) : EStateM Panic σ Nat :=
  Checked.within latest .instantOverflow (t + d)

def U32.max : Nat := 2 ^ 32 - 1

/-- `n += 1` on a `u32`. -/
def U32.succ {σ : Type} (n : Nat) : EStateM Panic σ Nat :=
  Checked.within U32.max .counterOverflow (n + 1)

section Additions

variable {σ : Type} {latest t d n : Nat} {s : σ}

theorem run_add_of_le (h : t + d ≤ latest) : (Instant.add latest t d).run s = .ok (t + d) s :=
  Checked.run_within_of_le h _ s

theorem run_add_of_lt (h : latest < t + d) :
    (Instant.add latest t d).run s = .error .instantOverflow s := Checked.run_within_of_lt h _ s

theorem run_succ_of_lt (h : n < U32.max) : (U32.succ n).run s = .ok (n + 1) s :=
  Checked.run_within_of_le h _ s

theorem run_succ_of_le (h : U32.max ≤ n) :
    (U32.succ n).run s = .error .counterOverflow s :=
  Checked.run_within_of_lt (Nat.lt_succ_of_le h) _ s

end Additions

end ExecutionPolicy
