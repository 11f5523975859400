import Mathlib
import ExecutionPolicy.Concurrency.Semaphore
import ExecutionPolicy.Foundation.StepSystem
import ExecutionPolicy.Foundation.TaskPool

/-! # Wake-ups of queued callers

Any number of `Acquire` futures on one semaphore, polled, re-polled, dropped and
overtaken by `try_acquire` in any order. A sleeping future is woken only through
its entry in the waker queue, so what matters is whether each entry stands for
exactly one sleeper.
-/

namespace ExecutionPolicy

/-- The life of one `Acquire`; `pending` records whether it was woken since its last poll. -/
inductive Acquire where
  | fresh
  | pending (woken : Bool)
  | ready
  | dropped
deriving DecidableEq, Repr

namespace Acquire

/-- Its last poll returned `Pending` and it has not been dropped. -/
def isPending : Acquire → Bool
  | pending _ => true
  | _ => false

def isWoken : Acquire → Bool
  | pending true => true
  | _ => false

def isAsleep : Acquire → Bool
  | pending false => true
  | _ => false

def wake : Acquire → Acquire
  | pending _ => pending true
  | a => a

end Acquire

/-- One semaphore, the futures created on it and the number of permits held. -/
structure WaitRoom where
  sem : SemState
  acquires : List Acquire
  held : Nat
deriving DecidableEq, Repr

namespace WaitRoom

open StepSystem

inductive Label where
  | acquire
  | tryAcquire
  | poll (i : Nat)
  | dropAcquire (i : Nat)
  | dropPermit
deriving DecidableEq, Repr

def init (permits : Nat) : WaitRoom := { sem := .new permits, acquires := [], held := 0 }

def wake (r : WaitRoom) (i : Nat) : WaitRoom :=
  match r.acquires[i]? with
  | some a => { r with acquires := r.acquires.set i a.wake }
  | none => r

def polled (r : WaitRoom) (i : Nat) : WaitRoom :=
  match r.sem.pollAcquire i with
  | (true, sem) => { sem, acquires := r.acquires.set i .ready, held := r.held + 1 }
  | (false, sem) => { r with sem, acquires := r.acquires.set i (.pending false) }

def released (r : WaitRoom) : WaitRoom :=
  match r.sem.release with
  | (some w, sem) => { r with sem, held := r.held - 1 }.wake w
  | (none, sem) => { r with sem, held := r.held - 1 }

/-- One step; a finished or dropped future is not polled again. -/
def step (r : WaitRoom) : Label → Option WaitRoom
  | .acquire => some { r with acquires := r.acquires ++ [.fresh] }
  | .tryAcquire =>
      match r.sem.tryAcquire with
      | some sem => some { r with sem, held := r.held + 1 }
      | none => some r
  | .poll i =>
      match r.acquires[i]? with
      | some .fresh | some (.pending _) => some (r.polled i)
      | _ => none
  | .dropAcquire i =>
      match r.acquires[i]? with
      | some .fresh | some (.pending _) => some { r with acquires := r.acquires.set i .dropped }
      | _ => none
  | .dropPermit => if 0 < r.held then some r.released else none

def wokenCount (r : WaitRoom) : Nat := TaskPool.count Acquire.isWoken r.acquires

/-- A free permit with somebody pending has woken a pending future. -/
def NoLostWakeUp (r : WaitRoom) : Prop :=
  0 < r.sem.permits → 0 < TaskPool.count Acquire.isPending r.acquires → 0 < r.wokenCount

/-- The steps that leave the waker queue and the wake-ups given out with the
sleepers: no sleeper is polled again or dropped, and a woken future is dropped
only when its wake-up is not needed by anybody else. -/
def WakersKept (r : WaitRoom) : Label → Prop
  | .poll i => r.acquires[i]? ≠ some (.pending false)
  | .dropAcquire i =>
      r.acquires[i]? ≠ some (.pending false) ∧
        (r.acquires[i]? = some (.pending true) →
          TaskPool.count Acquire.isAsleep r.acquires = 0 ∨ r.sem.permits < r.wokenCount)
  | _ => True

instance (r : WaitRoom) : (l : Label) → Decidable (WakersKept r l)
  | .poll _ => inferInstanceAs (Decidable (_ ≠ _))
  | .dropAcquire _ => inferInstanceAs (Decidable (_ ∧ _))
  | .acquire | .tryAcquire | .dropPermit => inferInstanceAs (Decidable True)

/-! ## Inversion of steps -/

section Inversion

variable {r r' : WaitRoom} {i : Nat}

theorem step_poll (h : r.step (.poll i) = some r') :
    ∃ a, r.acquires[i]? = some a ∧ (a = .fresh ∨ a.isPending = true) ∧ r' = r.polled i := by
  simp only [step] at h
  split at h
  next hi => exact ⟨_, hi, .inl rfl, (Option.some.inj h).symm⟩
  next hi => exact ⟨_, hi, .inr rfl, (Option.some.inj h).symm⟩
  next => cases h

theorem step_dropAcquire (h : r.step (.dropAcquire i) = some r') :
    ∃ a, r.acquires[i]? = some a ∧ (a = .fresh ∨ a.isPending = true) ∧
      r' = { r with acquires := r.acquires.set i .dropped } := by
  simp only [step] at h
  split at h
  next hi => exact ⟨_, hi, .inl rfl, (Option.some.inj h).symm⟩
  next hi => exact ⟨_, hi, .inr rfl, (Option.some.inj h).symm⟩
  next => cases h

theorem step_dropPermit (h : r.step .dropPermit = some r') : r' = r.released := by
  simp only [step] at h
  split at h
  next => exact (Option.some.inj h).symm
  next => cases h

end Inversion

/-! ## One entry for each sleeper -/

/-- The queue lists each sleeping future exactly once, and while somebody sleeps
every free permit has a woken future to take it. -/
structure Attended (r : WaitRoom) : Prop where
  nodup : r.sem.waiters.Nodup
  mem_iff : ∀ i, i ∈ r.sem.waiters ↔ r.acquires[i]? = some (.pending false)
  enough : r.sem.waiters ≠ [] → r.sem.permits ≤ r.wokenCount

theorem attended_init (permits : Nat) : Attended (init permits) where
  nodup := List.nodup_nil
  mem_iff i := by simp [init, SemState.new]
  enough h := absurd rfl h

/-- Overwriting a future that is not asleep by one that is not asleep keeps the entries. -/
theorem mem_iff_set {pool : List Acquire} {waiters : List Nat} {i : Nat} {a b : Acquire}
    (h : ∀ j, j ∈ waiters ↔ pool[j]? = some (.pending false)) (hi : pool[i]? = some a)
    (ha : a ≠ .pending false) (hb : b ≠ .pending false) (j : Nat) :
    j ∈ waiters ↔ (pool.set i b)[j]? = some (.pending false) := by
  rw [h j]
  by_cases hij : i = j
  · subst hij
    rw [TaskPool.getElem?_set_self_of_some hi b, hi]
    simp [ha, hb]
  · rw [List.getElem?_set_ne hij]

theorem asleep_pos_of_waiters {r : WaitRoom} (h : Attended r) (hne : r.sem.waiters ≠ []) :
    0 < TaskPool.count Acquire.isAsleep r.acquires := by
  obtain ⟨i, ws, heq⟩ := List.exists_cons_of_ne_nil hne
  have hi := (h.mem_iff i).mp (by simp [heq])
  exact TaskPool.count_pos hi rfl

theorem Attended.noLostWakeUp {r : WaitRoom} (h : Attended r) : NoLostWakeUp r := by
  intro hfree hpending
  obtain ⟨i, a, hi, ha⟩ := TaskPool.exists_of_count_pos hpending
  cases a with
  | pending woken =>
      cases woken with
      | true => exact TaskPool.count_pos hi rfl
      | false =>
          have hne : r.sem.waiters ≠ [] := List.ne_nil_of_mem ((h.mem_iff i).mpr hi)
          exact Nat.lt_of_lt_of_le hfree (h.enough hne)
  | _ => simp [Acquire.isPending] at ha

theorem attended_acquire {r : WaitRoom} (h : Attended r) :
    Attended { r with acquires := r.acquires ++ [.fresh] } where
  nodup := h.nodup
  mem_iff j := by
    rw [h.mem_iff j]
    constructor
    · intro hj
      rw [List.getElem?_append_left (List.getElem?_eq_some_iff.mp hj).1]
      exact hj
    · intro hj
      rcases TaskPool.getElem?_snoc_cases hj with ⟨_, heq⟩ | hold
      · cases heq
      · exact hold
  enough hne := by
    have hle := h.enough hne
    simp only [wokenCount, TaskPool.count_snoc] at hle ⊢
    omega

theorem attended_polled {r : WaitRoom} {i : Nat} {a : Acquire} (h : Attended r)
    (hi : r.acquires[i]? = some a) (ha : a ≠ .pending false) : Attended (r.polled i) := by
  rcases Nat.eq_zero_or_pos r.sem.permits with hz | hpos
  · -- no permit: the future falls asleep behind a new entry
    have hnot : i ∉ r.sem.waiters := by
      rw [h.mem_iff i, hi]
      simpa using ha
    simp only [polled, SemState.pollAcquire_of_zero hz]
    refine ⟨?_, fun j => ?_, fun _ => Nat.le_trans (Nat.le_of_eq hz) (Nat.zero_le _)⟩
    · rw [← List.concat_eq_append]
      exact List.Nodup.concat hnot h.nodup
    · rw [List.mem_append, List.mem_singleton, h.mem_iff j]
      by_cases hij : i = j
      · subst hij
        simp [TaskPool.getElem?_set_self_of_some hi]
      · rw [List.getElem?_set_ne hij]
        simp [Ne.symm hij]
  · simp only [polled, SemState.pollAcquire_of_pos hpos]
    refine ⟨h.nodup, mem_iff_set h.mem_iff hi ha (by simp), fun hne => ?_⟩
    have hle := h.enough hne
    have hcount := TaskPool.count_set Acquire.isWoken hi .ready
    have hone : (if a.isWoken = true then 1 else 0) ≤ 1 := by split <;> omega
    simp only [wokenCount] at hle ⊢
    simp only [Acquire.isWoken, Bool.false_eq_true, if_false] at hcount hone
    omega

theorem attended_dropAcquire {r : WaitRoom} {i : Nat} {a : Acquire} (h : Attended r)
    (hi : r.acquires[i]? = some a) (ha : a = .fresh ∨ a.isPending = true)
    (hcond : WakersKept r (.dropAcquire i)) :
    Attended { r with acquires := r.acquires.set i .dropped } := by
  have hawake : a ≠ .pending false := by
    rintro rfl
    exact hcond.1 hi
  refine ⟨h.nodup, mem_iff_set h.mem_iff hi hawake (by simp), fun hne => ?_⟩
  have hle := h.enough hne
  have hasleep := asleep_pos_of_waiters h hne
  have hcount := TaskPool.count_set Acquire.isWoken hi .dropped
  simp only [wokenCount, Acquire.isWoken, Bool.false_eq_true, if_false] at hle hcount ⊢
  rcases ha with rfl | hp
  · simpa [Acquire.isWoken] using Nat.le_trans hle (Nat.le_of_eq hcount.symm)
  · have hwoken : a = .pending true := by
      cases a with
      | pending woken => cases woken <;> simp_all
      | _ => simp [Acquire.isPending] at hp
    subst hwoken
    have hspare := (hcond.2 hi).resolve_left (by omega)
    simp only [wokenCount] at hspare
    simp only [if_true] at hcount
    omega

theorem attended_released {r : WaitRoom} (h : Attended r) : Attended r.released := by
  unfold released SemState.release
  cases hw : r.sem.waiters with
  | nil =>
      exact ⟨List.nodup_nil, fun j => by simpa [hw] using h.mem_iff j, fun hne => absurd rfl hne⟩
  | cons w ws =>
      have hi : r.acquires[w]? = some (.pending false) := (h.mem_iff w).mp (by simp [hw])
      have hnodup := h.nodup
      rw [hw, List.nodup_cons] at hnodup
      have hcount := TaskPool.count_set_enter Acquire.isWoken hi rfl
        (b := .pending true) rfl
      have hle := h.enough (by simp [hw])
      simp only [wake, hi, Acquire.wake]
      refine ⟨hnodup.2, fun j => ?_, fun _ => ?_⟩
      · by_cases hij : w = j
        · subst hij
          simp [TaskPool.getElem?_set_self_of_some hi, hnodup.1]
        · rw [List.getElem?_set_ne hij, ← h.mem_iff j, hw]
          simp [Ne.symm hij]
      · simp only [wokenCount] at hle ⊢
        omega

theorem attended_step (r : WaitRoom) (l : Label) (r' : WaitRoom) (h : Attended r)
    (hcond : WakersKept r l) (hstep : r.step l = some r') : Attended r' := by
  cases l with
  | acquire =>
      cases hstep
      exact attended_acquire h
  | tryAcquire =>
      simp only [step] at hstep
      split at hstep
      next sem htake =>
        obtain ⟨_, rfl⟩ := SemState.tryAcquire_eq_some htake
        cases hstep
        exact ⟨h.nodup, h.mem_iff, fun hne => Nat.le_trans (Nat.sub_le _ _) (h.enough hne)⟩
      next =>
        cases hstep
        exact h
  | poll i =>
      obtain ⟨a, hi, _, rfl⟩ := step_poll hstep
      refine attended_polled h hi ?_
      rintro rfl
      exact hcond hi
  | dropAcquire i =>
      obtain ⟨a, hi, ha, rfl⟩ := step_dropAcquire hstep
      exact attended_dropAcquire h hi ha hcond
  | dropPermit =>
      rw [step_dropPermit hstep]
      exact attended_released h

/-- A run that never re-polls or drops a sleeper, and drops no future whose wake-up
is still needed, loses no wake-up in any state it passes. -/
theorem noLostWakeUp_of_wakersKept (permits : Nat) (ls : List Label)
    (hobeys : Obeys step WakersKept (init permits) ls) :
    Throughout step NoLostWakeUp (init permits) ls :=
  (throughout_of_step attended_step (attended_init permits) hobeys).mono
    fun _ h => h.noLostWakeUp

/-- One permit, one waiter: taken, awaited, given back, taken over. -/
def handOver : List Label := [.tryAcquire, .acquire, .poll 0, .dropPermit, .poll 0]

theorem noLostWakeUp_of_wakersKept_handOver :
    (run step (init 1) handOver).isSome = true ∧
      Throughout step NoLostWakeUp (init 1) handOver :=
  ⟨rfl, noLostWakeUp_of_wakersKept 1 handOver (by decide)⟩

/-- The first of two sleepers is dropped; its entry swallows the wake-up. -/
theorem cancelled_sleeper_loses_wakeUp :
    ∃ r, run step (init 1)
        [.tryAcquire, .acquire, .poll 0, .acquire, .poll 1, .dropAcquire 0, .dropPermit] = some r ∧
      ¬ NoLostWakeUp r :=
  ⟨_, rfl, by unfold NoLostWakeUp; decide⟩

end WaitRoom

end ExecutionPolicy
