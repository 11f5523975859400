import ExecutionPolicy.Arithmetic

/-! # The stall watchdog

`stall_timeout` polled any number of times, with ticks from inside the operation's polls and
from elsewhere between them. The addition that makes a deadline is a parameter: it is exact,
or it panics past the largest instant.
-/

namespace ExecutionPolicy

open Checked History

variable {T E : Type}

/-- The outcome of a stall-guarded operation that does not give its value. -/
inductive StallError (E : Type) where
  | stalled (idle : Nat)
  | operation (e : E)
deriving DecidableEq, Repr

/-- The counter behind a `Progress` handle, a `u64`, after `n` more calls of `tick`. -/
def Progress.tick (ticks n : Nat) : Nat := (ticks + n) % 2 ^ 64

/-- The locals of `stall_timeout` that live across its await point. -/
structure Watch where
  lastTicks : Nat
  deadline : Nat
  /-- The instant from which the armed sleep is ready. -/
  sleep : Option Nat
deriving DecidableEq, Repr

inductive StallStage (T E : Type) where
  | created
  | watching (w : Watch)
  | returned (r : Except (StallError E) T)

/-- What one poll observes: clock movement before each reading, the time the operation's own
poll takes and the ticks it makes, and its answer. -/
structure StallScript (T E : Type) where
  moves : List Nat
  opElapsed : Nat
  opTicks : Nat
  op : Option (Except E T)

def StallScript.pending : StallScript T E :=
  { moves := [], opElapsed := 0, opTicks := 0, op := none }

/-- One future of `stall_timeout` with the clock and its counter. -/
structure StallTimeout (T E : Type) where
  time : Nat
  ticks : Nat
  stage : StallStage T E

namespace Watch

section Source

variable {m : Type → Type} [Monad m] (add : Nat → Nat → m Nat)

/-- Observe forward progress; a new tick resets the silence deadline. -/
def observe (budget nowTicks : Nat) (w : Watch) (core : Core) : m (Watch × Core) :=
  if nowTicks = w.lastTicks then pure (w, core)
  else do
    let core := core.tick
    let deadline ← add core.time budget
    pure ({ lastTicks := nowTicks, deadline, sleep := none }, core)

end Source

/-- Arm the silence timer, unless it is, and poll it. -/
def pollSleep (w : Watch) (core : Core) : Bool × Watch × Core :=
  let (wake, core) := match w.sleep with
    | some wake => (wake, core)
    | none => core.sleepUntil w.deadline
  let core := core.tick
  (decide (wake ≤ core.time), { w with sleep := some wake }, core)

end Watch

namespace StallTimeout

inductive Label (T E : Type) where
  | elapse (d : Nat)
  /-- A tick from outside the operation's polls. -/
  | tick
  | poll (script : StallScript T E)

def init (start : Nat) : StallTimeout T E := { time := start, ticks := 0, stage := .created }

/-- The clock of a poll whose readings follow the script. -/
def core (s : StallTimeout T E) (script : StallScript T E) : Core :=
  { time := s.time, ticks := script.moves, draws := [] }

section Source

variable {m : Type → Type} [Monad m] (add : Nat → Nat → m Nat) (budget : Nat)

/-- The closure given to `poll_fn`: the operation first, then its ticks, then the timer. -/
def pollWatch (w : Watch) (script : StallScript T E) (ticks : Nat) (core : Core) :
    m (StallTimeout T E) := do
  let core := core.elapse script.opElapsed
  let ticks := Progress.tick ticks script.opTicks
  match script.op with
  | some r => pure { time := core.time, ticks, stage := .returned (r.mapError .operation) }
  | none =>
      let (w, core) ← w.observe add budget ticks core
      let (ready, w, core) := w.pollSleep core
      pure
        { time := core.time
          ticks
          stage := if ready then .returned (.error (.stalled budget)) else .watching w }

def poll (script : StallScript T E) (s : StallTimeout T E) : m (StallTimeout T E) :=
  match s.stage with
  | .created => do
      let core := (s.core script).tick
      let deadline ← add core.time budget
      pollWatch add budget { lastTicks := s.ticks, deadline, sleep := none } script s.ticks core
  | .watching w => pollWatch add budget w script s.ticks (s.core script)
  | .returned _ => pure s

def step (s : StallTimeout T E) : Label T E → m (StallTimeout T E)
  | .elapse d => pure { s with time := s.time + d }
  | .tick => pure { s with ticks := Progress.tick s.ticks 1 }
  | .poll script => s.poll add budget script

end Source

/-- The addition that never panics. -/
def exactly (t d : Nat) : Id Nat := t + d

def next (budget : Nat) (s : StallTimeout T E) (l : Label T E) : StallTimeout T E :=
  s.step exactly budget l

/-- A step with the additions of `Instant`. -/
def stepChecked (latest budget : Nat) (l : Label T E) : EStateM Panic (StallTimeout T E) Unit := do
  let s ← get
  set (← s.step (Instant.add latest) budget l)

def exec (budget start : Nat) (ls : List (Label T E)) : StallTimeout T E :=
  replay (next budget) (init start) ls

def execChecked (latest budget start : Nat) (ls : List (Label T E)) :
    EStateM.Result Panic (StallTimeout T E) Unit :=
  (forM ls (stepChecked latest budget)).run (init start)

/-! ## The readings that set a deadline -/

/-- The reading at which a poll finds a new tick of a pending operation. -/
def resetReading (lastTicks : Nat) (script : StallScript T E) (ticks : Nat) (core : Core) :
    List Nat :=
  if script.op.isSome ∨ Progress.tick ticks script.opTicks = lastTicks then []
  else [(core.elapse script.opElapsed).tick.time]

/-- The readings at which a poll sets the silence deadline: the first reading of all, and the
one that follows a new tick. -/
def deadlineReadings (script : StallScript T E) (s : StallTimeout T E) : List Nat :=
  match s.stage with
  | .created =>
      (s.core script).tick.time :: resetReading s.ticks script s.ticks (s.core script).tick
  | .watching w => resetReading w.lastTicks script s.ticks (s.core script)
  | .returned _ => []

def InRange (latest budget : Nat) (s : StallTimeout T E) : Label T E → Prop
  | .poll script => ∀ t ∈ s.deadlineReadings script, t + budget ≤ latest
  | _ => True

section Polls

variable {latest budget : Nat} {σ : Type} {t : σ}

theorem run_observe_of_same {w : Watch} {nowTicks : Nat} (h : nowTicks = w.lastTicks)
    (core : Core) :
    (w.observe (Instant.add latest) budget nowTicks core).run t =
      .ok (w.observe exactly budget nowTicks core) t := by
  simp only [Watch.observe, if_pos h]
  rfl

theorem run_observe_of_new {w : Watch} {nowTicks : Nat} (h : nowTicks ≠ w.lastTicks)
    {core : Core} (hroom : core.tick.time + budget ≤ latest) :
    (w.observe (Instant.add latest) budget nowTicks core).run t =
      .ok (w.observe exactly budget nowTicks core) t := by
  simp only [Watch.observe, if_neg h, EStateM.run_bind, run_add_of_le hroom]
  rfl

theorem run_observe_of_late {w : Watch} {nowTicks : Nat} (h : nowTicks ≠ w.lastTicks)
    {core : Core} (hlate : latest < core.tick.time + budget) :
    (w.observe (Instant.add latest) budget nowTicks core).run t = .error .instantOverflow t := by
  simp only [Watch.observe, if_neg h, EStateM.run_bind, run_add_of_lt hlate]

theorem resetReading_of_pending {script : StallScript T E} (hop : script.op = none)
    (lastTicks ticks : Nat) (core : Core) :
    resetReading lastTicks script ticks core =
      if Progress.tick ticks script.opTicks = lastTicks then []
      else [(core.elapse script.opElapsed).tick.time] := by
  simp [resetReading, hop]

theorem run_pollWatch_of_inRange {w : Watch} {script : StallScript T E} {ticks : Nat} {core : Core}
    (h : ∀ r ∈ resetReading w.lastTicks script ticks core, r + budget ≤ latest) :
    (pollWatch (Instant.add latest) budget w script ticks core).run t =
      .ok (pollWatch exactly budget w script ticks core) t := by
  unfold pollWatch
  cases hop : script.op with
  | some r => rfl
  | none =>
      rw [resetReading_of_pending hop] at h
      by_cases hsame : Progress.tick ticks script.opTicks = w.lastTicks
      · simp only [EStateM.run_bind, run_observe_of_same hsame]
        rfl
      · rw [if_neg hsame] at h
        simp only [EStateM.run_bind, run_observe_of_new hsame (h _ List.mem_cons_self)]
        rfl

theorem run_pollWatch_of_late {w : Watch} {script : StallScript T E} {ticks : Nat} {core : Core}
    {r : Nat} (hr : r ∈ resetReading w.lastTicks script ticks core) (hlate : latest < r + budget) :
    (pollWatch (Instant.add latest) budget w script ticks core).run t =
      .error .instantOverflow t := by
  unfold pollWatch
  cases hop : script.op with
  | some answer => simp [resetReading, hop] at hr
  | none =>
      rw [resetReading_of_pending hop] at hr
      by_cases hsame : Progress.tick ticks script.opTicks = w.lastTicks
      · simp [hsame] at hr
      · rw [if_neg hsame, List.mem_singleton] at hr
        subst hr
        simp only [EStateM.run_bind, run_observe_of_late hsame hlate]

theorem run_poll_of_inRange {script : StallScript T E} {s : StallTimeout T E}
    (h : ∀ r ∈ s.deadlineReadings script, r + budget ≤ latest) :
    (s.poll (Instant.add latest) budget script).run t = .ok (s.poll exactly budget script) t := by
  unfold poll
  unfold deadlineReadings at h
  cases hstage : s.stage with
  | created =>
      simp only [hstage, List.forall_mem_cons] at h
      simp only [EStateM.run_bind, run_add_of_le h.1]
      exact run_pollWatch_of_inRange h.2
  | watching w =>
      simp only [hstage] at h
      exact run_pollWatch_of_inRange h
  | returned r => rfl

theorem run_poll_of_late {script : StallScript T E} {s : StallTimeout T E} {r : Nat}
    (hr : r ∈ s.deadlineReadings script) (hlate : latest < r + budget) :
    (s.poll (Instant.add latest) budget script).run t = .error .instantOverflow t := by
  unfold poll
  unfold deadlineReadings at hr
  cases hstage : s.stage with
  | created =>
      simp only [hstage, List.mem_cons] at hr
      by_cases hfirst : (s.core script).tick.time + budget ≤ latest
      · have hsecond := hr.resolve_left fun heq => by omega
        simp only [EStateM.run_bind, run_add_of_le hfirst]
        exact run_pollWatch_of_late hsecond hlate
      · simp only [EStateM.run_bind, run_add_of_lt (Nat.lt_of_not_le hfirst)]
  | watching w =>
      simp only [hstage] at hr
      exact run_pollWatch_of_late hr hlate
  | returned result => simp [hstage] at hr

theorem follows_stepChecked (latest budget : Nat) (s : StallTimeout T E) (l : Label T E) :
    Follows (stepChecked latest budget l) s (s.next budget l) (s.InRange latest budget l) := by
  cases l with
  | elapse d => exact ⟨fun _ => rfl, fun hno => absurd trivial hno⟩
  | tick => exact ⟨fun _ => rfl, fun hno => absurd trivial hno⟩
  | poll script =>
      constructor
      · intro h
        simp only [stepChecked, step, EStateM.run_bind, EStateM.run_get, run_poll_of_inRange h]
        rfl
      · intro h
        unfold InRange at h
        push Not at h
        obtain ⟨r, hr, hlate⟩ := h
        refine ⟨.instantOverflow, s, ?_⟩
        simp only [stepChecked, step, EStateM.run_bind, EStateM.run_get, run_poll_of_late hr hlate]

end Polls

/-- A run returns exactly when each deadline that is set in it is an instant. -/
theorem execChecked_eq_ok_iff (latest budget start : Nat) (ls : List (Label T E)) :
    execChecked latest budget start ls = .ok () (exec budget start ls) ↔
      Justified (fun past l => (exec budget start past).InRange latest budget l) ls := by
  have hfollows : Follows (forM ls (stepChecked latest budget)) (init start)
      (exec budget start ls)
      (Justified (fun past l => (exec budget start past).InRange latest budget l) ls) := by
    have hsteps : ∀ (s : StallTimeout T E) l, True → Follows (stepChecked latest budget l)
        (id s) (id (s.next budget l)) (s.InRange latest budget l) :=
      fun s l _ => follows_stepChecked latest budget s l
    exact follows_forM (I := fun _ => True) (fun _ _ _ => trivial) hsteps trivial ls
  exact hfollows.returns_iff

end StallTimeout

end ExecutionPolicy
