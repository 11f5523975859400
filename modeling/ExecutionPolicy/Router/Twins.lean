import ExecutionPolicy.Engine.Boxed
import ExecutionPolicy.Router.InFlight

/-! # The three entry points of a router

`run`, `run_owned` and `run_boxed` are three copies of one loop. Each is written down here
from its own text; the scan, the choice, the bookkeeping and the classification are
functions all three call. The third drives the members through the boxed pipeline.
-/

namespace ExecutionPolicy

open StepSystem

variable {Id T E : Type}

/-- One step of the calls of policy `p`, which run the boxed pipeline. -/
def Commons.onPolicyBoxed (net : Network Id T E) (c : Commons T E) (p : Nat)
    (l : System.Label T E) : Option (Commons T E) :=
  (System.stepVia (fun _ => true) (net.plans p) ((c.systems p).atTime c.time) l).map fun s =>
    { c with time := s.shared.core.time, systems := Function.update c.systems p s }

namespace Loop

/-- The shared state, and what the stretch still observes of clock and generator. -/
structure Desk (T E : Type) where
  commons : Commons T E
  ticks : List Nat
  draws : List UInt64

/-- Code that runs within one poll of a run; `failure` stands for a panic. -/
abbrev Act (T E α : Type) := StateT (Desk T E) Option α

/-! ## What all three call -/

def onCore {α : Type} (g : Core → α × Core) : Act T E α := do
  let s ← get
  let r := g ⟨s.commons.time, s.ticks, s.draws⟩
  set (Desk.mk { s.commons with time := r.2.time } r.2.ticks r.2.draws)
  return r.1

def now : Act T E Nat := onCore fun k => (k.tick.time, k.tick)

def scan (net : Network Id T E) (p : RouterPolicy Id E) : Act T E Scan := do
  let members := p.targets.map ((← get).commons.member net)
  onCore (healthyMembers members .empty)

def choose (p : RouterPolicy Id E) (healthy : List Nat) :
    Act T E (Except (RouterError Id E) (Option Nat)) := do
  onCore (p.choose (← get).commons.loads healthy)

def onLoad (i : Nat) (g : MemberState → MemberState) : Act T E Unit :=
  modify fun s => { s with commons := s.commons.withLoad i (g (s.commons.loads i)) }

/-- `self.record_attempt(target, attempt_start, ok)`. -/
def recordAttempt (p : RouterPolicy Id E) (target : Target Id) (attemptStart : Nat) (ok : Bool) :
    Act T E Unit := do
  let load := (← get).commons.loads target.state
  let recorded ← onCore (load.recordAttempt p.meter attemptStart ok)
  onLoad target.state fun _ => recorded

/-- A way of calling the policies. -/
abbrev Engine (T E : Type) :=
  Commons T E → Nat → System.Label T E → Option (Commons T E)

def call (engine : Engine T E) (policy : Nat) : Act T E Nat := do
  let s ← get
  let commons ← engine s.commons policy .call
  set { s with commons }
  return (s.commons.systems policy).calls.length

def poll (engine : Engine T E) (policy i : Nat) (script : Script T E) :
    Act T E (Option (Except (ExecutionError E) T)) := do
  let s ← get
  let commons ← engine s.commons policy (.poll i script)
  set { s with commons }
  return (commons.systems policy).resultOf i

/-! ## The loops -/

/-- `run`: the operation gets the id by reference. -/
def run (net : Network Id T E) (route : Route Id T E) (script : RouteScript T E) :
    Act T E (Route Id T E) := do
  let p := net.routers route.router
  match route.stage with
  | .created =>
      let scan ← scan net p
      if scan.healthy = [] then
        return { route with scan, stage := .returned (.error (.allUnavailable scan.soonest)) }
      return { route with scan, stage := .choosing scan.healthy }
  | .choosing healthy =>
      match ← choose p healthy with
      | .error e => return { route with stage := .returned (.error e) }
      | .ok none => failure
      | .ok (some chosen) =>
          let target ← p.targets[chosen]?
          let attempts := route.attempts + 1
          let attemptStart ← now
          onLoad target.state MemberState.acquire
          let call ← call (Commons.onPolicy net) target.policy
          return { route with attempts, stage := .calling healthy chosen target call attemptStart }
  | .calling healthy chosen target call attemptStart =>
      let some outcome ← poll (Commons.onPolicy net) target.policy call script.member
        | return route
      recordAttempt p target attemptStart outcome.isOk
      onLoad target.state MemberState.release
      let history := route.history ++ [⟨chosen, target, call, outcome⟩]
      match p.afterAttempt target route.attempts outcome route.lastErr with
      | .stop result => return { route with history, stage := .returned result }
      | .advance lastErr =>
          let healthy := healthy.filter fun i => i != chosen
          if healthy ≠ [] then
            return { route with history, lastErr, stage := .choosing healthy }
          match lastErr with
          | some e =>
              return { route with history, lastErr, stage := .returned (.error (.exhausted e)) }
          | none =>
              let soonest := route.scan.soonest
              return { route with
                history, lastErr, stage := .returned (.error (.allUnavailable soonest)) }
  | .returned _ => failure
  | .dropped => failure

/-- `run_owned`: the operation gets a clone of the id. -/
def runOwned (net : Network Id T E) (route : Route Id T E) (script : RouteScript T E) :
    Act T E (Route Id T E) := do
  let p := net.routers route.router
  match route.stage with
  | .created =>
      let scan ← scan net p
      if scan.healthy = [] then
        return { route with scan, stage := .returned (.error (.allUnavailable scan.soonest)) }
      return { route with scan, stage := .choosing scan.healthy }
  | .choosing healthy =>
      match ← choose p healthy with
      | .error e => return { route with stage := .returned (.error e) }
      | .ok none => failure
      | .ok (some chosen) =>
          let target ← p.targets[chosen]?
          let attempts := route.attempts + 1
          let attemptStart ← now
          onLoad target.state MemberState.acquire
          let call ← call (Commons.onPolicy net) target.policy
          return { route with attempts, stage := .calling healthy chosen target call attemptStart }
  | .calling healthy chosen target call attemptStart =>
      let some outcome ← poll (Commons.onPolicy net) target.policy call script.member
        | return route
      recordAttempt p target attemptStart outcome.isOk
      onLoad target.state MemberState.release
      let history := route.history ++ [⟨chosen, target, call, outcome⟩]
      match p.afterAttempt target route.attempts outcome route.lastErr with
      | .stop result => return { route with history, stage := .returned result }
      | .advance lastErr =>
          let healthy := healthy.filter fun i => i != chosen
          if healthy ≠ [] then
            return { route with history, lastErr, stage := .choosing healthy }
          match lastErr with
          | some e =>
              return { route with history, lastErr, stage := .returned (.error (.exhausted e)) }
          | none =>
              let soonest := route.scan.soonest
              return { route with
                history, lastErr, stage := .returned (.error (.allUnavailable soonest)) }
  | .returned _ => failure
  | .dropped => failure

/-- `run_boxed`: the operation gets a clone of the id, and the member runs the boxed
pipeline. -/
def runBoxed (net : Network Id T E) (route : Route Id T E) (script : RouteScript T E) :
    Act T E (Route Id T E) := do
  let p := net.routers route.router
  match route.stage with
  | .created =>
      let scan ← scan net p
      if scan.healthy = [] then
        return { route with scan, stage := .returned (.error (.allUnavailable scan.soonest)) }
      return { route with scan, stage := .choosing scan.healthy }
  | .choosing healthy =>
      match ← choose p healthy with
      | .error e => return { route with stage := .returned (.error e) }
      | .ok none => failure
      | .ok (some chosen) =>
          let target ← p.targets[chosen]?
          let attempts := route.attempts + 1
          let attemptStart ← now
          onLoad target.state MemberState.acquire
          let call ← call (Commons.onPolicyBoxed net) target.policy
          return { route with attempts, stage := .calling healthy chosen target call attemptStart }
  | .calling healthy chosen target call attemptStart =>
      let some outcome ← poll (Commons.onPolicyBoxed net) target.policy call script.member
        | return route
      recordAttempt p target attemptStart outcome.isOk
      onLoad target.state MemberState.release
      let history := route.history ++ [⟨chosen, target, call, outcome⟩]
      match p.afterAttempt target route.attempts outcome route.lastErr with
      | .stop result => return { route with history, stage := .returned result }
      | .advance lastErr =>
          let healthy := healthy.filter fun i => i != chosen
          if healthy ≠ [] then
            return { route with history, lastErr, stage := .choosing healthy }
          match lastErr with
          | some e =>
              return { route with history, lastErr, stage := .returned (.error (.exhausted e)) }
          | none =>
              let soonest := route.scan.soonest
              return { route with
                history, lastErr, stage := .returned (.error (.allUnavailable soonest)) }
  | .returned _ => failure
  | .dropped => failure

/-! ## Agreement -/

section Agreement

variable {net : Network Id T E} {route : Route Id T E} {script : RouteScript T E}
  {c : Commons T E} {ticks : List Nat} {draws : List UInt64}

@[simp] theorem run_onCore {α : Type} (g : Core → α × Core) :
    (onCore g : Act T E α).run ⟨c, ticks, draws⟩ =
      pure ((g ⟨c.time, ticks, draws⟩).1,
        ⟨{ c with time := (g ⟨c.time, ticks, draws⟩).2.time }, (g ⟨c.time, ticks, draws⟩).2.ticks,
          (g ⟨c.time, ticks, draws⟩).2.draws⟩) := rfl

@[simp] theorem run_onLoad (i : Nat) (g : MemberState → MemberState) :
    (onLoad i g : Act T E Unit).run ⟨c, ticks, draws⟩ =
      pure ((), ⟨c.withLoad i (g (c.loads i)), ticks, draws⟩) := rfl

@[simp] theorem withLoad_withLoad (i : Nat) (m m' : MemberState) :
    (c.withLoad i m).withLoad i m' = c.withLoad i m' := by
  simp [Commons.withLoad]

def polled (act : Act T E (Route Id T E)) (script : RouteScript T E) (c : Commons T E) :
    Option (Route Id T E × Commons T E) :=
  (act.run ⟨c, script.ticks, script.draws⟩).map fun done => (done.1, done.2.commons)

theorem polled_run : polled (run net route script) script c = route.poll net script c := by
  unfold polled run Route.poll
  cases hstage : route.stage with
  | created =>
      unfold Route.enter
      by_cases hnil : (healthyMembers ((net.routers route.router).targets.map (c.member net)) .empty
        ⟨c.time, script.ticks, script.draws⟩).1.healthy = []
      · simp [scan, hnil]
      · simp [scan, hnil]
  | choosing healthy =>
      unfold Route.choose
      rcases hchoose : (net.routers route.router).choose c.loads healthy
        ⟨c.time, script.ticks, script.draws⟩ with ⟨e | _ | chosen, k⟩
      · simp [choose, hchoose]
      · simp [choose, hchoose]
      · cases htarget : (net.routers route.router).targets[chosen]? with
        | none => simp [choose, hchoose, htarget]
        | some target =>
            cases hcall : Commons.onPolicy net ({ c with time := k.tick.time }.withLoad target.state
              (c.loads target.state).acquire) target.policy .call with
            | none => simp [choose, hchoose, htarget, now, call, hcall]
            | some c' =>
                simp [choose, hchoose, htarget, now, call, hcall]
                rfl
  | calling healthy chosen target call attemptStart =>
      unfold Route.await Route.settle Route.goOn
      cases hpoll : Commons.onPolicy net c target.policy (.poll call script.member) with
      | none => simp [poll, hpoll]
      | some c' =>
          cases houtcome : (c'.systems target.policy).resultOf call with
          | none => simp [poll, hpoll, houtcome]
          | some outcome =>
              cases hcontrol : (net.routers route.router).afterAttempt target route.attempts outcome
                  route.lastErr with
              | stop r =>
                  simp [poll, hpoll, houtcome, recordAttempt, hcontrol, Commons.withLoad_self]
              | advance lastErr =>
                  by_cases hnil : healthy.filter (fun i => i != chosen) = []
                  · cases lastErr <;>
                      simp [poll, hpoll, houtcome, recordAttempt, hcontrol, hnil,
                        Commons.withLoad_self, -List.filter_eq_nil_iff]
                  · simp [poll, hpoll, houtcome, recordAttempt, hcontrol, hnil,
                      Commons.withLoad_self, -List.filter_eq_nil_iff]
  | returned r => rfl
  | dropped => rfl

theorem onPolicyBoxed_eq :
    (Commons.onPolicyBoxed net : Engine T E) = Commons.onPolicy net := by
  funext c p l
  unfold Commons.onPolicyBoxed Commons.onPolicy
  rw [System.stepVia_eq]

theorem runOwned_eq : runOwned net route script = run net route script := rfl

theorem runBoxed_eq : runBoxed net route script = run net route script := by
  unfold runBoxed
  rw [onPolicyBoxed_eq]
  rfl

end Agreement

end Loop

/-! ## Runs by entry point -/

/-- The code of the entry point the run was created through. -/
def Route.code (net : Network Id T E) (route : Route Id T E) (script : RouteScript T E) :
    Loop.Act T E (Route Id T E) :=
  match route.entry with
  | .run => Loop.run net route script
  | .runOwned => Loop.runOwned net route script
  | .runBoxed => Loop.runBoxed net route script

theorem Route.polled_code (net : Network Id T E) (route : Route Id T E)
    (script : RouteScript T E) (c : Commons T E) :
    Loop.polled (route.code net script) script c = route.poll net script c := by
  rw [← Loop.polled_run]
  unfold Route.code
  cases route.entry with
  | run => rfl
  | runOwned => rw [Loop.runOwned_eq]
  | runBoxed => rw [Loop.runBoxed_eq]

/-- How the run's entry point calls the members' policies. -/
def Route.engine (net : Network Id T E) (route : Route Id T E) : Loop.Engine T E :=
  match route.entry with
  | .run | .runOwned => Commons.onPolicy net
  | .runBoxed => Commons.onPolicyBoxed net

theorem Route.engine_eq (net : Network Id T E) (route : Route Id T E) :
    route.engine net = Commons.onPolicy net := by
  unfold Route.engine
  cases route.entry with
  | run => rfl
  | runOwned => rfl
  | runBoxed => exact Loop.onPolicyBoxed_eq

/-- A poll that panics once the member's call has returned, in the fold of the meter. -/
def Route.panicThrough (engine : Loop.Engine T E) (route : Route Id T E)
    (script : RouteScript T E) (c : Commons T E) : Option (Route Id T E × Commons T E) :=
  match route.stage with
  | .calling _ _ target call _ =>
      (engine c target.policy (.poll call script.member)).bind fun c =>
        ((c.systems target.policy).resultOf call).map fun _ =>
          ({ route with stage := .dropped },
            c.withLoad target.state (c.loads target.state).release)
  | _ => none

def Route.throughRun (route : Route Id T E) : Route Id T E := { route with entry := .run }

section Entries

variable {net : Network Id T E} {route : Route Id T E} {script : RouteScript T E}
  {c : Commons T E}

theorem Route.settle_throughRun (healthy : List Nat) (tried : Tried Id T E) (attemptStart : Nat) :
    Prod.map Route.throughRun id (route.settle net healthy tried attemptStart script c) =
      route.throughRun.settle net healthy tried attemptStart script c := by
  unfold Route.settle
  dsimp only [Route.throughRun]
  cases (net.routers route.router).afterAttempt tried.target route.attempts tried.outcome
    route.lastErr <;> rfl

theorem Route.choose_throughRun (healthy : List Nat) :
    (route.choose net healthy script c).map (Prod.map Route.throughRun id) =
      route.throughRun.choose net healthy script c := by
  unfold Route.choose
  dsimp only [Route.throughRun]
  rcases (net.routers route.router).choose c.loads healthy
    ⟨c.time, script.ticks, script.draws⟩ with ⟨e | _ | chosen, k⟩
  · rfl
  · rfl
  · cases htarget : (net.routers route.router).targets[chosen]? with
    | none => simp [htarget]
    | some target =>
        simp only [htarget, Option.bind_some, Option.map_map]
        rfl

theorem Route.poll_throughRun :
    (route.poll net script c).map (Prod.map Route.throughRun id) =
      route.throughRun.poll net script c := by
  have hstage : route.throughRun.stage = route.stage := rfl
  unfold Route.poll
  rw [hstage]
  cases route.stage with
  | created => rfl
  | choosing healthy => exact Route.choose_throughRun healthy
  | calling healthy chosen target call attemptStart =>
      unfold Route.await
      rw [Option.map_map]
      congr 1
      funext c'
      dsimp only [Function.comp]
      cases (c'.systems target.policy).resultOf call with
      | none => rfl
      | some outcome => exact Route.settle_throughRun _ _ _
  | returned r => rfl
  | dropped => rfl

theorem Route.drop_throughRun :
    (route.drop net c).map (Prod.map Route.throughRun id) = route.throughRun.drop net c := by
  have hstage : route.throughRun.stage = route.stage := rfl
  unfold Route.drop
  rw [hstage]
  cases route.stage with
  | calling healthy chosen target call attemptStart =>
      dsimp only
      rw [Option.map_map]
      rfl
  | _ => rfl

theorem Route.panic_throughRun :
    (route.panic net script c).map (Prod.map Route.throughRun id) =
      route.throughRun.panic net script c := by
  have hstage : route.throughRun.stage = route.stage := rfl
  unfold Route.panic
  rw [hstage]
  cases route.stage with
  | calling healthy chosen target call attemptStart =>
      dsimp only
      rw [Option.map_bind]
      congr 1
      funext c'
      exact Option.map_map _ _ _
  | _ => rfl

end Entries

namespace Fleet

/-- A step in which every run is polled by the code of its own entry point. -/
def stepByEntry (net : Network Id T E) (s : Fleet Id T E) : Label T E → Option (Fleet Id T E)
  | .poll r script =>
      s.routes[r]?.bind fun route =>
        (Loop.polled (route.code net script) script s.commons).map (s.settle r)
  | .panic r script =>
      s.routes[r]?.bind fun route =>
        (route.panicThrough (route.engine net) script s.commons).map (s.settle r)
  -- no code of the loops runs in the other steps
  | l => step net s l

theorem stepByEntry_eq (net : Network Id T E) : stepByEntry net = step net := by
  funext s l
  cases l with
  | poll r script =>
      unfold stepByEntry step
      simp only [Route.polled_code]
  | panic r script =>
      unfold stepByEntry step
      simp only [Route.engine_eq]
      rfl
  | _ => rfl

/-- The same routers at work with every run created through `run`. -/
def throughRun (s : Fleet Id T E) : Fleet Id T E :=
  { s with routes := s.routes.map Route.throughRun }

def Label.throughRun : Label T E → Label T E
  | .route router _ => .route router .run
  | l => l

theorem getElem?_throughRun (s : Fleet Id T E) (r : Nat) :
    s.throughRun.routes[r]? = s.routes[r]?.map Route.throughRun := List.getElem?_map

theorem settle_throughRun (s : Fleet Id T E) (r : Nat) (done : Route Id T E × Commons T E) :
    (s.settle r done).throughRun = s.throughRun.settle r (Prod.map Route.throughRun id done) := by
  simp [settle, throughRun, List.map_set]

theorem owned_throughRun (s : Fleet Id T E) (p i : Nat) : s.throughRun.owned p i = s.owned p i := by
  simp only [owned, throughRun, List.any_map]
  rfl

/-- What a run does in one stretch does not depend on its entry point. -/
theorem stretch_throughRun {stretch : Route Id T E → Commons T E →
      Option (Route Id T E × Commons T E)}
    (h : ∀ route c, (stretch route c).map (Prod.map Route.throughRun id) =
      stretch route.throughRun c) (s : Fleet Id T E) (r : Nat) :
    (s.routes[r]?.bind fun route => (stretch route s.commons).map (s.settle r)).map throughRun =
      s.throughRun.routes[r]?.bind fun route =>
        (stretch route s.throughRun.commons).map (s.throughRun.settle r) := by
  have hcommons : s.throughRun.commons = s.commons := rfl
  rw [getElem?_throughRun, hcommons]
  cases s.routes[r]? with
  | none => rfl
  | some route =>
      simp only [Option.map_some, Option.bind_some, ← h route s.commons, Option.map_map]
      congr 1
      funext done
      exact settle_throughRun s r done

theorem step_throughRun (net : Network Id T E) (s : Fleet Id T E) (l : Label T E) :
    (step net s l).map throughRun = step net s.throughRun l.throughRun := by
  cases l with
  | elapse d => rfl
  | route router entry => simp [step, throughRun, Label.throughRun, Route.throughRun, Route.create]
  | poll r script => exact stretch_throughRun (fun _ _ => Route.poll_throughRun) s r
  | drop r => exact stretch_throughRun (fun _ _ => Route.drop_throughRun) s r
  | panic r script => exact stretch_throughRun (fun _ _ => Route.panic_throughRun) s r
  | other p l =>
      have howned : s.throughRun.owned p = s.owned p := funext (owned_throughRun s p)
      simp only [step, Label.throughRun, howned]
      split
      · rfl
      · rw [Option.map_map]
        rfl

end Fleet

/-- The twins agree. Calls of one policy, from any state of its breaker, semaphore and
budget and under any script, go the same way whichever of them run the boxed pipeline: the
same results with the same contexts, events, attempts and shared state. Runs of routers go
the same way whichever entry points they were created through. -/
theorem twins_agree :
    (∀ (plan : Plan T E) (boxed : Nat → Bool) (s : System T E) (ls : List (System.Label T E)),
      run (System.stepVia boxed plan) s ls = run (System.step plan) s ls) ∧
    ∀ (net : Network Id T E) (s : Fleet Id T E) (ls : List (Fleet.Label T E)),
      (run (Fleet.stepByEntry net) s ls).map Fleet.throughRun =
        run (Fleet.stepByEntry net) s.throughRun (ls.map Fleet.Label.throughRun) := by
  constructor
  · intro plan boxed s ls
    rw [System.stepVia_eq]
  · intro net s ls
    rw [Fleet.stepByEntry_eq]
    exact map_run (Fleet.step_throughRun net) s ls

end ExecutionPolicy
