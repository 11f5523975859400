import ExecutionPolicy.Engine.System
import ExecutionPolicy.Router.Choose

/-! # One run of a router

`run`, `run_owned` and `run_boxed` have one body and differ in how they lend the id
and the operation to the member's policy. It is cut at its await points, which are
those of the member's call, and at the head of its loop.
-/

namespace ExecutionPolicy

variable {Id T E : Type}

/-! ## The initial scan -/

def Plan.circuitState (plan : Plan T E) (b : BreakerRuntime) (now : Nat) : Option BreakerState :=
  plan.breaker.map fun _ => b.stateAt now

def Plan.coolingUntil (plan : Plan T E) (b : BreakerRuntime) (now : Nat) : Option Nat :=
  plan.breaker.bind fun _ => b.coolingUntil now

inductive Look where
  | healthy
  | cooling (ends : Nat)
  /-- `Open` at the first reading, not cooling any more at the second. -/
  | lapsed
deriving DecidableEq, Repr

/-- Both reads of one member; the second is made of an open one only. -/
def look (m : Plan T E × BreakerRuntime) (k : Core) : Look × Core :=
  let k := k.tick
  if m.1.circuitState m.2 k.time = some .open then
    let k := k.tick
    (match m.1.coolingUntil m.2 k.time with
      | some ends => .cooling ends
      | none => .lapsed, k)
  else (.healthy, k)

/-- The locals of `healthy_members`, with what was seen so far. -/
structure Scan where
  healthy : List Nat
  soonest : Option Nat
  looks : List Look
deriving DecidableEq, Repr

namespace Scan

def empty : Scan := { healthy := [], soonest := none, looks := [] }

def see (s : Scan) (l : Look) : Scan :=
  match l with
  | .healthy => { s with healthy := s.healthy ++ [s.looks.length], looks := s.looks ++ [l] }
  | .cooling ends =>
      { s with
        soonest := some (match s.soonest with
          | none => ends
          | some t => Nat.min t ends)
        looks := s.looks ++ [l] }
  | .lapsed => { s with looks := s.looks ++ [l] }

end Scan

def healthyMembers : List (Plan T E × BreakerRuntime) → Scan → Core → Scan × Core
  | [], s, k => (s, k)
  | m :: ms, s, k => healthyMembers ms (s.see (look m k).1) (look m k).2

/-! ## The end of an attempt -/

inductive Control (Id T E : Type) where
  | stop (r : Except (RouterError Id E) (Served Id T))
  | advance (lastErr : Option E)

def RouterPolicy.afterAttempt (p : RouterPolicy Id E) (target : Target Id) (attempts : Nat)
    (outcome : Except (ExecutionError E) T) (lastErr : Option E) : Control Id T E :=
  match outcome with
  | .ok value => .stop (.ok { value, target := target.id, attempts })
  | .error e =>
      match e with
      | .operation source _ =>
          if p.advanceWhen source then .advance (e.intoInner.or lastErr)
          else .stop (.error (.exhausted source))
      | _ => .advance (e.intoInner.or lastErr)

/-! ## The run -/

inductive Entry where
  | run
  | runOwned
  | runBoxed
deriving DecidableEq, Repr

/-- A finished member call: call `call` of the target's policy. -/
structure Tried (Id T E : Type) where
  chosen : Nat
  target : Target Id
  call : Nat
  outcome : Except (ExecutionError E) T

inductive RouteStage (Id T E : Type) where
  | created
  /-- At the head of the loop, with somebody healthy left. -/
  | choosing (healthy : List Nat)
  /-- In the call of a member's policy, its `InFlightGuard` held. -/
  | calling (healthy : List Nat) (chosen : Nat) (target : Target Id) (call attemptStart : Nat)
  | returned (r : Except (RouterError Id E) (Served Id T))
  | dropped

/-- One run of router number `router`: its locals and where it is suspended. The scan
and the finished member calls are kept to the end; of the scan the code keeps `soonest`. -/
structure Route (Id T E : Type) where
  entry : Entry
  router : Nat
  stage : RouteStage Id T E
  /-- A `u32`; no router has as many members. -/
  attempts : Nat
  lastErr : Option E
  scan : Scan
  history : List (Tried Id T E)

structure Network (Id T E : Type) where
  plans : Nat → Plan T E
  routers : Nat → RouterPolicy Id E

/-- What runs share: the clock, the calls of every policy, the load of every member. -/
structure Commons (T E : Type) where
  time : Nat
  systems : Nat → System T E
  loads : Nat → MemberState

/-- What one stretch of a run observes of the clock and the generator; `member` is for
the poll of the member's call. -/
structure RouteScript (T E : Type) where
  ticks : List Nat
  draws : List UInt64
  member : Script T E

/-- The system at the present instant of a shared clock. -/
def System.atTime (s : System T E) (t : Nat) : System T E :=
  { s with shared := { s.shared with core := { s.shared.core with time := t } } }

def System.resultOf (s : System T E) (i : Nat) : Option (Except (ExecutionError E) T) :=
  s.calls[i]?.bind fun call =>
    match call.stage with
    | .returned r => some r
    | _ => none

namespace Commons

def onPolicy (net : Network Id T E) (c : Commons T E) (p : Nat) (l : System.Label T E) :
    Option (Commons T E) :=
  (System.step (net.plans p) ((c.systems p).atTime c.time) l).map fun s =>
    { c with time := s.shared.core.time, systems := Function.update c.systems p s }

def withLoad (c : Commons T E) (i : Nat) (m : MemberState) : Commons T E :=
  { c with loads := Function.update c.loads i m }

def member (net : Network Id T E) (c : Commons T E) (t : Target Id) :
    Plan T E × BreakerRuntime :=
  (net.plans t.policy, (c.systems t.policy).shared.breaker)

end Commons

namespace Route

def create (router : Nat) (entry : Entry) : Route Id T E :=
  { entry, router, stage := .created, attempts := 0, lastErr := none, scan := .empty, history := [] }

def enter (net : Network Id T E) (route : Route Id T E) (script : RouteScript T E)
    (c : Commons T E) : Route Id T E × Commons T E :=
  let members := (net.routers route.router).targets.map (c.member net)
  let seen := healthyMembers members .empty ⟨c.time, script.ticks, script.draws⟩
  let stage := if seen.1.healthy = [] then
      .returned (.error (.allUnavailable seen.1.soonest))
    else .choosing seen.1.healthy
  ({ route with scan := seen.1, stage }, { c with time := seen.2.time })

/-- `while !healthy.is_empty()`, and what follows the loop. -/
def goOn (route : Route Id T E) (healthy : List Nat) (lastErr : Option E) : Route Id T E :=
  let stage := if healthy = [] then
      .returned (.error (match lastErr with
        | some e => .exhausted e
        | none => .allUnavailable route.scan.soonest))
    else .choosing healthy
  { route with lastErr, stage }

/-- Choose a member and create the call of its policy; `none` stands for a panic. -/
def choose (net : Network Id T E) (route : Route Id T E) (healthy : List Nat)
    (script : RouteScript T E) (c : Commons T E) : Option (Route Id T E × Commons T E) :=
  let p := net.routers route.router
  match p.choose c.loads healthy ⟨c.time, script.ticks, script.draws⟩ with
  | (.error e, k) => some ({ route with stage := .returned (.error e) }, { c with time := k.time })
  | (.ok none, _) => none
  | (.ok (some chosen), k) =>
      p.targets[chosen]?.bind fun target =>
        let now := k.tick.time
        let call := (c.systems target.policy).calls.length
        let c := { c with time := now }.withLoad target.state (c.loads target.state).acquire
        (c.onPolicy net target.policy .call).map fun c =>
          ({ route with
              attempts := route.attempts + 1
              stage := .calling healthy chosen target call now }, c)

/-- The member's call has returned: record it, drop the guard, resolve or advance. -/
def settle (net : Network Id T E) (route : Route Id T E) (healthy : List Nat)
    (tried : Tried Id T E) (attemptStart : Nat) (script : RouteScript T E) (c : Commons T E) :
    Route Id T E × Commons T E :=
  let p := net.routers route.router
  let recorded := (c.loads tried.target.state).recordAttempt p.meter attemptStart
    tried.outcome.isOk ⟨c.time, script.ticks, script.draws⟩
  let c := { c with time := recorded.2.time }.withLoad tried.target.state recorded.1.release
  let route := { route with history := route.history ++ [tried] }
  match p.afterAttempt tried.target route.attempts tried.outcome route.lastErr with
  | .stop r => ({ route with stage := .returned r }, c)
  | .advance lastErr => (route.goOn (healthy.filter fun i => i != tried.chosen) lastErr, c)

/-- Poll the member's call, and go on when it has returned. -/
def await (net : Network Id T E) (route : Route Id T E) (healthy : List Nat) (chosen : Nat)
    (target : Target Id) (call attemptStart : Nat) (script : RouteScript T E) (c : Commons T E) :
    Option (Route Id T E × Commons T E) :=
  (c.onPolicy net target.policy (.poll call script.member)).map fun c =>
    match (c.systems target.policy).resultOf call with
    | some outcome =>
        route.settle net healthy { chosen, target, call, outcome } attemptStart script c
    | none => (route, c)

/-- One stretch of a run; a finished future is not polled. -/
def poll (net : Network Id T E) (route : Route Id T E) (script : RouteScript T E)
    (c : Commons T E) : Option (Route Id T E × Commons T E) :=
  match route.stage with
  | .created => some (route.enter net script c)
  | .choosing healthy => route.choose net healthy script c
  | .calling healthy chosen target call attemptStart =>
      route.await net healthy chosen target call attemptStart script c
  | .returned _ => none
  | .dropped => none

def drop (net : Network Id T E) (route : Route Id T E) (c : Commons T E) :
    Option (Route Id T E × Commons T E) :=
  let dropped : Route Id T E := { route with stage := .dropped }
  match route.stage with
  | .created | .choosing _ => some (dropped, c)
  | .calling _ _ target call _ =>
      (c.onPolicy net target.policy (.drop call)).map fun c =>
        (dropped, c.withLoad target.state (c.loads target.state).release)
  | .returned _ => none
  | .dropped => none

/-- A poll of a run panics after the member's call has returned, in the fold of its meter:
the guard is dropped while unwinding. A panic before that is like a drop. -/
def panic (net : Network Id T E) (route : Route Id T E) (script : RouteScript T E)
    (c : Commons T E) : Option (Route Id T E × Commons T E) :=
  let dropped : Route Id T E := { route with stage := .dropped }
  match route.stage with
  | .calling _ _ target call _ =>
      (c.onPolicy net target.policy (.poll call script.member)).bind fun c =>
        ((c.systems target.policy).resultOf call).map fun _ =>
          (dropped, c.withLoad target.state (c.loads target.state).release)
  | _ => none

def owns (route : Route Id T E) : Option (Nat × Nat) :=
  match route.stage with
  | .calling _ _ target call _ => some (target.policy, call)
  | _ => none

end Route

end ExecutionPolicy
