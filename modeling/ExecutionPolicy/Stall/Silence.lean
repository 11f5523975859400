import ExecutionPolicy.Stall

/-! # What the watchdog owes

The history of a watched operation is kept apart from the watchdog's locals: the ticks
there were, which of them its polls have observed and since when it has seen no new one.
A poll is one instant, the one at which the operation has been polled.
-/

namespace ExecutionPolicy

open Checked History

variable {T E : Type}

/-- What happened so far, as an observer of the operation records it. -/
structure Silence where
  clock : Nat
  ticks : Nat
  /-- The instant by which the last tick had happened. -/
  lastTick : Option Nat
  seen : Nat
  /-- The last poll that observed a new tick, or the start of the first one. -/
  since : Option Nat
deriving DecidableEq, Repr

namespace Silence

open StallTimeout

def init (start : Nat) : Silence :=
  { clock := start, ticks := 0, lastTick := none, seen := 0, since := none }

def poll (q : Silence) (script : StallScript T E) : Silence :=
  let clock := q.clock + script.opElapsed
  let ticks := q.ticks + script.opTicks
  -- what there was before the first poll is nothing new
  let seen := if q.since.isSome then q.seen else q.ticks
  { clock
    ticks
    lastTick := if script.opTicks = 0 then q.lastTick else some clock
    seen := ticks
    since := some (if ticks = seen then q.since.getD q.clock else clock) }

def next (q : Silence) : Label T E → Silence
  | .elapse d => { q with clock := q.clock + d }
  | .tick => { q with ticks := q.ticks + 1, lastTick := some q.clock }
  | .poll script => q.poll script

def after (start : Nat) (ls : List (Label T E)) : Silence := replay next (init start) ls

structure Sound (q : Silence) : Prop where
  seen_le : q.seen ≤ q.ticks
  lastTick_le : ∀ t, q.lastTick = some t → t ≤ q.clock
  /-- Ticks that have all been observed were over when the last of them was. -/
  observed : ∀ t since, q.lastTick = some t → q.since = some since → q.seen = q.ticks → t ≤ since

theorem sound_init (start : Nat) : (init start).Sound :=
  ⟨Nat.le_refl _, (fun t ht => by cases ht), (fun t since ht => by cases ht)⟩

/-- After a poll the last tick was over by the instant of the last new one observed. -/
theorem lastTick_poll_le {q : Silence} (h : q.Sound) (script : StallScript T E) {t since : Nat}
    (ht : (q.poll script).lastTick = some t) (hsince : (q.poll script).since = some since) :
    t ≤ since := by
  have hseen := h.seen_le
  have hsince' := Option.some.inj hsince
  have hold : ∀ t, q.lastTick = some t → t ≤ q.clock + script.opElapsed := by
    intro t ht
    have hle := h.lastTick_le t ht
    omega
  unfold poll at ht
  dsimp only at ht hsince'
  rw [← hsince']
  by_cases hnew : q.ticks + script.opTicks = if q.since.isSome then q.seen else q.ticks
  · -- no new tick: what there was had been observed before
    rw [if_pos hnew]
    cases hq : q.since with
    | none =>
        simp only [hq, Option.isSome_none, Bool.false_eq_true, if_false] at hnew
        rw [if_pos (by omega)] at ht
        exact h.lastTick_le t ht
    | some since' =>
        simp only [hq, Option.isSome_some, if_true] at hnew
        rw [if_pos (by omega)] at ht
        exact h.observed t since' ht hq (by omega)
  · rw [if_neg hnew]
    by_cases hzero : script.opTicks = 0
    · rw [if_pos hzero] at ht
      exact hold t ht
    · rw [if_neg hzero] at ht
      cases ht
      exact Nat.le_refl _

theorem sound_next {q : Silence} (h : q.Sound) (l : Label T E) : (q.next l).Sound := by
  have hseen := h.seen_le
  cases l with
  | elapse d =>
      refine ⟨hseen, fun t ht => ?_, h.observed⟩
      have hle := h.lastTick_le t ht
      show t ≤ q.clock + d
      omega
  | tick =>
      refine ⟨Nat.le_succ_of_le hseen, fun t ht => ?_, fun t since _ _ hall => ?_⟩
      · cases ht
        exact Nat.le_refl _
      · have hall' : q.seen = q.ticks + 1 := hall
        omega
  | poll script =>
      refine ⟨Nat.le_refl _, fun t ht => ?_, fun t since ht hsince _ => ?_⟩
      · show t ≤ q.clock + script.opElapsed
        have ht' : (if script.opTicks = 0 then q.lastTick else
            some (q.clock + script.opElapsed)) = some t := ht
        by_cases hzero : script.opTicks = 0
        · rw [if_pos hzero] at ht'
          have hle := h.lastTick_le t ht'
          omega
        · rw [if_neg hzero] at ht'
          exact Nat.le_of_eq (Option.some.inj ht').symm
      · exact lastTick_poll_le h script ht hsince

theorem ticks_le_next (q : Silence) (l : Label T E) : q.ticks ≤ (q.next l).ticks := by
  cases l with
  | elapse d => exact Nat.le_refl _
  | tick => exact Nat.le_succ _
  | poll script => exact Nat.le_add_right _ _

theorem ticks_le_replay (q : Silence) (ls : List (Label T E)) :
    q.ticks ≤ (replay next q ls).ticks := by
  induction ls generalizing q with
  | nil => exact Nat.le_refl _
  | cons l ls ih => exact Nat.le_trans (q.ticks_le_next l) (ih (q.next l))

end Silence

/-! ## The locals against the record -/

structure Watch.Tracks (budget : Nat) (q : Silence) (w : Watch) : Prop where
  lastTicks : w.lastTicks = q.seen
  deadline : ∃ since, q.since = some since ∧ w.deadline = since + budget
  /-- An armed sleep that was not ready ends at the deadline. -/
  sleep : ∀ wake, w.sleep = some wake → wake = w.deadline

structure StallTimeout.Tracks (budget : Nat) (q : Silence) (s : StallTimeout T E) : Prop where
  time : s.time = q.clock
  ticks : s.ticks = q.ticks
  created : s.stage = .created → q.since = none
  watching : ∀ w, s.stage = .watching w → w.Tracks budget q

namespace StallTimeout

/-- The clock does not move between the readings of one poll. -/
def Label.Still : Label T E → Prop
  | .poll script => script.moves = []
  | _ => True

def Unfinished (s : StallTimeout T E) : Prop := ∀ r, s.stage ≠ .returned r

section Poll

variable {budget start now : Nat} {q : Silence} {s : StallTimeout T E} {w : Watch}
  {script : StallScript T E}

/-- At the deadline the sleep is ready, whenever it was armed; before it is armed for then. -/
theorem pollSleep_still (hsleep : ∀ wake, w.sleep = some wake → wake = w.deadline) (now : Nat) :
    (w.pollSleep (.still now)).1 = decide (w.deadline ≤ now) ∧
      (w.pollSleep (.still now)).2.2 = .still now ∧
      (now < w.deadline →
        (w.pollSleep (.still now)).2.1 = { w with sleep := some w.deadline }) := by
  cases hw : w.sleep with
  | some wake =>
      have hwake := hsleep wake hw
      subst hwake
      refine ⟨?_, ?_, fun _ => ?_⟩
      · simp [Watch.pollSleep, hw, Core.still, Core.tick]
      · simp [Watch.pollSleep, hw, Core.still, Core.tick]
      · simp [Watch.pollSleep, hw]
  | none =>
      have hready : (w.pollSleep (.still now)).1 = decide (now + (w.deadline - now) ≤ now) := by
        simp [Watch.pollSleep, hw, Core.sleepUntil, Core.sleep, Core.still, Core.tick,
          Instant.durationSince]
      refine ⟨?_, ?_, fun hearly => ?_⟩
      · rw [hready, decide_eq_decide]
        omega
      · simp [Watch.pollSleep, hw, Core.sleepUntil, Core.sleep, Core.still, Core.tick]
      · have hwake : now + (w.deadline - now) = w.deadline := by omega
        simp [Watch.pollSleep, hw, Core.sleepUntil, Core.sleep, Core.still, Core.tick,
          Instant.durationSince, hwake]

/-- The watch after a sample at `now`: a new tick moves the deadline. -/
def sampled (budget nowTicks now : Nat) (w : Watch) : Watch :=
  if nowTicks = w.lastTicks then w
  else { lastTicks := nowTicks, deadline := now + budget, sleep := none }

theorem observe_still (budget nowTicks now : Nat) (w : Watch) :
    w.observe exactly budget nowTicks (.still now) =
      (sampled budget nowTicks now w, Core.still now) := by
  unfold Watch.observe sampled
  split
  · rfl
  · rfl

/-- A poll of a pending operation ends the watch at the deadline, and not before. -/
theorem pollWatch_still (hop : script.op = none) {ticks time : Nat}
    (hticks : Progress.tick ticks script.opTicks = ticks + script.opTicks)
    {w' : Watch}
    (hw' : w' = sampled budget (ticks + script.opTicks) (time + script.opElapsed) w)
    (hsleep : ∀ wake, w'.sleep = some wake → wake = w'.deadline) :
    pollWatch exactly budget w script ticks (.still time) =
      { time := time + script.opElapsed
        ticks := ticks + script.opTicks
        stage := if w'.deadline ≤ time + script.opElapsed then .returned (.error (.stalled budget))
          else .watching { w' with sleep := some w'.deadline } } := by
  obtain ⟨hready, hcore, hwatch⟩ := pollSleep_still hsleep (time + script.opElapsed)
  have hclock : (Core.still time).elapse script.opElapsed =
      .still (time + script.opElapsed) := rfl
  unfold pollWatch
  simp only [hop, hclock, hticks, observe_still, ← hw']
  show ({ time := (w'.pollSleep (.still (time + script.opElapsed))).2.2.time
          ticks := ticks + script.opTicks
          stage := if (w'.pollSleep (.still (time + script.opElapsed))).1 = true then
              .returned (.error (.stalled budget))
            else .watching (w'.pollSleep (.still (time + script.opElapsed))).2.1 } :
      StallTimeout T E) = _
  rw [hcore, hready]
  by_cases hlate : w'.deadline ≤ time + script.opElapsed
  · simp [hlate, Core.still]
  · rw [hwatch (by omega)]
    simp [hlate, Core.still]

theorem sampled_spec {seen since : Nat} (hlast : w.lastTicks = seen)
    (hdeadline : w.deadline = since + budget)
    (hsleep : ∀ wake, w.sleep = some wake → wake = w.deadline) (ticks now : Nat) :
    (sampled budget ticks now w).lastTicks = ticks ∧
      (sampled budget ticks now w).deadline = (if ticks = seen then since else now) + budget ∧
      ∀ wake, (sampled budget ticks now w).sleep = some wake →
        wake = (sampled budget ticks now w).deadline := by
  unfold sampled
  rw [hlast]
  by_cases hsame : ticks = seen
  · rw [if_pos hsame, if_pos hsame]
    exact ⟨hlast.trans hsame.symm, hdeadline, hsleep⟩
  · rw [if_neg hsame, if_neg hsame]
    exact ⟨rfl, rfl, fun wake hwake => by cases hwake⟩

theorem exists_watch (h : s.Tracks budget q) (hopen : s.Unfinished)
    (hstill : script.moves = []) :
    ∃ w : Watch, w.lastTicks = (if q.since.isSome then q.seen else q.ticks) ∧
      w.deadline = q.since.getD q.clock + budget ∧
      (∀ wake, w.sleep = some wake → wake = w.deadline) ∧
      s.next budget (.poll script) =
        pollWatch exactly budget w script s.ticks (.still s.time) := by
  have hcore : s.core script = .still s.time := by
    unfold core
    rw [hstill]
    rfl
  cases hstage : s.stage with
  | created =>
      have hnone := h.created hstage
      refine ⟨{ lastTicks := s.ticks, deadline := s.time + budget, sleep := none }, ?_, ?_, ?_, ?_⟩
      · simp [hnone, h.ticks]
      · simp [hnone, h.time]
      · exact fun wake hwake => by cases hwake
      · simp only [next, step, poll, hstage, hcore, Core.tick_still]
        rfl
  | watching w =>
      have hw := h.watching w hstage
      obtain ⟨since, hsince, hdeadline⟩ := hw.deadline
      refine ⟨w, ?_, ?_, hw.sleep, ?_⟩
      · simp [hsince, hw.lastTicks]
      · simp [hsince, hdeadline]
      · simp only [next, step, poll, hstage, hcore]
  | returned r => exact absurd hstage (hopen r)

/-- One poll: a ready operation is handed out whatever the time; a pending one is given up
exactly when the silence since the last new tick has lasted for the budget. -/
theorem poll_spec (h : s.Tracks budget q) (hopen : s.Unfinished) (hstill : script.moves = [])
    (hbound : (q.poll script).ticks < 2 ^ 64) :
    (∀ r, script.op = some r →
      (s.next budget (.poll script)).stage = .returned (r.mapError .operation)) ∧
    (script.op = none → ∃ since, (q.poll script).since = some since ∧
      s.next budget (.poll script) =
        { time := (q.poll script).clock
          ticks := (q.poll script).ticks
          stage := if since + budget ≤ (q.poll script).clock then
              .returned (.error (.stalled budget))
            else .watching {
              lastTicks := (q.poll script).ticks
              deadline := since + budget
              sleep := some (since + budget) } }) := by
  obtain ⟨w, hlast, hdeadline, hsleep, hpoll⟩ := exists_watch h hopen hstill
  constructor
  · intro r hop
    rw [hpoll]
    simp only [pollWatch, hop]
    rfl
  · intro hop
    have hcount : q.ticks + script.opTicks < 2 ^ 64 := hbound
    have hticks : Progress.tick s.ticks script.opTicks = s.ticks + script.opTicks := by
      unfold Progress.tick
      rw [h.ticks]
      exact Nat.mod_eq_of_lt hcount
    obtain ⟨hlast', hdeadline', hsleep'⟩ := sampled_spec hlast hdeadline hsleep
      (s.ticks + script.opTicks) (s.time + script.opElapsed)
    refine ⟨_, rfl, ?_⟩
    rw [hpoll, pollWatch_still hop hticks rfl hsleep', hlast', hdeadline', h.time, h.ticks]
    rfl

end Poll

/-! ## Whole runs -/

section Runs

variable {budget start latest : Nat} {q : Silence} {s : StallTimeout T E}

theorem unfinished_of_next {l : Label T E} (h : (s.next budget l).Unfinished) : s.Unfinished := by
  intro r hr
  cases l with
  | elapse d => exact h r hr
  | tick => exact h r hr
  | poll script =>
      have hsame : s.next budget (.poll script) = s := by
        simp only [next, step, poll, hr]
        rfl
      have hopen := h r
      rw [hsame] at hopen
      exact hopen hr

theorem tracks_next (h : s.Tracks budget q) {l : Label T E} (hopen : (s.next budget l).Unfinished)
    (hstill : l.Still) (hbound : (q.next l).ticks < 2 ^ 64) :
    (s.next budget l).Tracks budget (q.next l) := by
  cases l with
  | elapse d =>
      exact ⟨congrArg (fun t => t + d) h.time, h.ticks, h.created,
        fun w hw => ⟨(h.watching w hw).lastTicks, (h.watching w hw).deadline,
          (h.watching w hw).sleep⟩⟩
  | tick =>
      have hcount : Progress.tick s.ticks 1 = q.ticks + 1 := by
        unfold Progress.tick
        rw [h.ticks]
        exact Nat.mod_eq_of_lt hbound
      exact ⟨h.time, hcount, h.created,
        fun w hw => ⟨(h.watching w hw).lastTicks, (h.watching w hw).deadline,
          (h.watching w hw).sleep⟩⟩
  | poll script =>
      obtain ⟨hready, hpending⟩ := poll_spec h (unfinished_of_next hopen) hstill hbound
      cases hop : script.op with
      | some r => exact absurd (hready r hop) (hopen _)
      | none =>
          obtain ⟨since, hsince, hnext⟩ := hpending hop
          have hearly : ¬ since + budget ≤ (q.poll script).clock := by
            intro hlate
            apply hopen (.error (.stalled budget))
            rw [hnext, if_pos hlate]
          rw [if_neg hearly] at hnext
          rw [hnext]
          refine ⟨rfl, rfl, (fun hcreated => by cases hcreated), fun w hw => ?_⟩
          cases hw
          exact ⟨rfl, ⟨since, hsince, rfl⟩, fun wake hwake => (Option.some.inj hwake).symm⟩

theorem tracks_after {ls : List (Label T E)} (hstill : ∀ l ∈ ls, l.Still)
    (hticks : (Silence.after start ls).ticks < 2 ^ 64) (hopen : (exec budget start ls).Unfinished) :
    (exec budget start ls).Tracks budget (Silence.after start ls) := by
  have hall : ∀ (ls : List (Label T E)) (s : StallTimeout T E) (q : Silence),
      (∀ l ∈ ls, l.Still) → (replay Silence.next q ls).ticks < 2 ^ 64 →
      (s.Unfinished → s.Tracks budget q) → (replay (next budget) s ls).Unfinished →
      (replay (next budget) s ls).Tracks budget (replay Silence.next q ls) := by
    intro ls
    induction ls with
    | nil => exact fun s q _ _ h hopen => h hopen
    | cons l ls ih =>
        intro s q hstill hticks h hopen
        have hbound := Nat.lt_of_le_of_lt ((q.next l).ticks_le_replay ls) hticks
        apply ih _ _ (fun k hk => hstill k (List.mem_cons_of_mem l hk)) hticks _ hopen
        intro hnext
        exact tracks_next (h (unfinished_of_next hnext)) hnext (hstill l List.mem_cons_self) hbound
  apply hall ls (init start) (Silence.init start) hstill hticks _ hopen
  exact fun _ => ⟨rfl, rfl, (fun _ => rfl), (fun w hw => by cases hw)⟩

theorem sound_after (start : Nat) (ls : List (Label T E)) : (Silence.after start ls).Sound :=
  replay_invariant (I := Silence.Sound) (fun _ l h => Silence.sound_next h l)
    (Silence.sound_init start) ls

/-- What the watchdog owes at a poll of an unfinished future: the operation's own result,
whatever the time; no verdict unless the last tick is a whole budget ago; and a verdict as
soon as it has been silent for a whole budget since a new tick was last observed. -/
structure Watches (budget start : Nat) (past : List (Label T E)) (script : StallScript T E) :
    Prop where
  ready : ∀ r, script.op = some r →
    (exec budget start (past ++ [.poll script])).stage = .returned (r.mapError .operation)
  sound : script.op = none → ∀ idle,
    (exec budget start (past ++ [.poll script])).stage = .returned (.error (.stalled idle)) →
    idle = budget ∧ ∀ t, (Silence.after start (past ++ [.poll script])).lastTick = some t →
      t + budget ≤ (Silence.after start (past ++ [.poll script])).clock
  complete : script.op = none → ∀ since,
    (Silence.after start (past ++ [.poll script])).since = some since →
    since + budget ≤ (Silence.after start (past ++ [.poll script])).clock →
    (exec budget start (past ++ [.poll script])).stage = .returned (.error (.stalled budget))

def WatchesAt (budget start : Nat) (past : List (Label T E)) : Label T E → Prop
  | .poll script => (exec budget start past).Unfinished → Watches budget start past script
  | _ => True

theorem watches_poll {past : List (Label T E)} {script : StallScript T E}
    (hstill : ∀ l ∈ past ++ [.poll script], l.Still)
    (hticks : (Silence.after start (past ++ [.poll script])).ticks < 2 ^ 64)
    (hopen : (exec budget start past).Unfinished) : Watches budget start past script := by
  have hafter : Silence.after start (past ++ [.poll script]) =
      (Silence.after start past).poll script := by simp [Silence.after, replay, Silence.next]
  have hexec : exec budget start (past ++ [.poll script]) =
      (exec budget start past).next budget (.poll script) := by simp [exec, replay]
  have hbound : ((Silence.after start past).poll script).ticks < 2 ^ 64 := hafter ▸ hticks
  have hpast := Nat.lt_of_le_of_lt
    ((Silence.after start past).ticks_le_next (.poll script)) hbound
  have htracks := tracks_after (fun l hl => hstill l (List.mem_append_left _ hl)) hpast hopen
  obtain ⟨hready, hpending⟩ := poll_spec htracks hopen
    (hstill (.poll script) (List.mem_append_right _ List.mem_cons_self)) hbound
  rw [← hexec] at hready hpending
  constructor
  case ready => exact hready
  case sound =>
    intro hop idle hstage
    obtain ⟨since, hsince, hnext⟩ := hpending hop
    rw [hnext] at hstage
    rw [hafter]
    by_cases hlate : since + budget ≤ ((Silence.after start past).poll script).clock
    · simp only [if_pos hlate] at hstage
      cases hstage
      refine ⟨rfl, fun t ht => ?_⟩
      have hle := Silence.lastTick_poll_le (sound_after start past) script ht hsince
      omega
    · simp only [if_neg hlate] at hstage
      cases hstage
  case complete =>
    intro hop since hsince hlate
    rw [hafter] at hsince hlate
    obtain ⟨since', hsince', hnext⟩ := hpending hop
    cases hsince.symm.trans hsince'
    rw [hnext]
    exact if_pos hlate

end Runs

/-- For every budget, every history of ticks and polls, each poll at one instant, with fewer
than 2^64 ticks: the run returns, with every poll of it giving what the watchdog owes,
exactly when each deadline that is set in it is an instant. -/
theorem watches_iff_inRange (latest budget start : Nat) (ls : List (Label T E))
    (hstill : ∀ l ∈ ls, l.Still) (hticks : (Silence.after start ls).ticks < 2 ^ 64) :
    (execChecked latest budget start ls = .ok () (exec budget start ls) ∧
      Justified (WatchesAt budget start) ls) ↔
    Justified (fun past l => (exec budget start past).InRange latest budget l) ls := by
  rw [execChecked_eq_ok_iff]
  apply and_iff_left
  rintro past l future rfl
  cases l with
  | elapse d => trivial
  | tick => trivial
  | poll script =>
      intro hopen
      have hsplit : past ++ .poll script :: future = (past ++ [.poll script]) ++ future := by simp
      rw [hsplit] at hstill hticks
      refine watches_poll (fun l hl => hstill l (List.mem_append_left _ hl)) ?_ hopen
      have hgrows := (Silence.after start (past ++ [.poll script])).ticks_le_replay future
      rw [Silence.after, replay_append] at hticks
      exact Nat.lt_of_le_of_lt hgrows hticks

def ticksOnce : StallScript Nat Nat := { moves := [], opElapsed := 0, opTicks := 1, op := none }

/-- A tick in the first poll and silence from then on. -/
def oneTick : List (Label Nat Nat) :=
  [.poll ticksOnce, .elapse 3, .poll .pending, .elapse 2, .poll .pending]

theorem watches_iff_inRange_oneTick :
    (execChecked 100 5 0 oneTick = .ok () (exec 5 0 oneTick) ∧
      Justified (WatchesAt 5 0) oneTick) ↔
    Justified (fun past l => (exec 5 0 past).InRange 100 5 l) oneTick :=
  watches_iff_inRange 100 5 0 oneTick
    (by simp [oneTick, ticksOnce, Label.Still, StallScript.pending]) (by decide)

def readyAtOnce : StallScript Nat Nat :=
  { moves := [], opElapsed := 0, opTicks := 0, op := some (.ok 1) }

/-- The largest instant where instants count seconds in an `i64`. -/
def latestInstant : Nat := 2 ^ 63 * 10 ^ 9 - 1

/-- With the largest budget there is the first poll of a ready operation panics. -/
theorem largest_budget_panics :
    execChecked latestInstant Duration.max 0 [.poll readyAtOnce] =
        .error .instantOverflow (init 0) ∧
      (exec Duration.max 0 [.poll readyAtOnce]).stage = .returned (.ok 1) := by
  refine ⟨?_, rfl⟩
  have hlate : latestInstant < 0 + Duration.max := by decide
  have hpoll : ((init 0).poll (Instant.add latestInstant) Duration.max readyAtOnce :
      EStateM Panic (StallTimeout Nat Nat) (StallTimeout Nat Nat)).run (init 0) =
        .error .instantOverflow (init 0) := run_poll_of_late List.mem_cons_self hlate
  simp only [execChecked, List.forM_cons, stepChecked, step, EStateM.run_bind, EStateM.run_get,
    hpoll]

end StallTimeout

end ExecutionPolicy
