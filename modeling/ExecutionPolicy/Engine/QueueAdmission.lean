import ExecutionPolicy.Engine.Permits

/-! # Admission to the queue

A caller that finds no free permit is turned away when the waker queue has reached the
limit. The queue holds wakers, not callers: the waker of a caller that timed out or was
dropped stays, a caller polled again has two, and one that was woken has none until it
is polled.
-/

namespace ExecutionPolicy

open StepSystem

variable {T E : Type}

/-! ## Callers and wakers -/

/-- The call has a pending `Acquire`. -/
def Stage.waits : Stage T E → Bool
  | .operationsQueue _ => true
  | .attemptsQueue _ _ _ => true
  | _ => false

namespace System

def waiting (s : System T E) : Nat := TaskPool.count (·.stage.waits) s.calls

/-- The queue holds no waker twice, and none of a caller that does not wait. -/
structure OneWakerEach (s : System T E) : Prop where
  nodup : s.shared.sem.waiters.Nodup
  waits : ∀ i ∈ s.shared.sem.waiters, ∃ call, s.calls[i]? = some call ∧ call.stage.waits = true

/-- With a waker of every waiting caller in it, the queue is as long as it should be. -/
theorem OneWakerEach.queued {s : System T E} (h : s.OneWakerEach)
    (hstored : ∀ (i : Nat) (call : Call T E), s.calls[i]? = some call →
      call.stage.waits = true → i ∈ s.shared.sem.waiters) :
    s.shared.sem.queued = s.waiting := by
  have hmem : ∀ i, i ∈ s.shared.sem.waiters ↔ i ∈ s.calls.findIdxs (·.stage.waits) := by
    intro i
    rw [List.mem_findIdxs_iff_exists_getElem_pos]
    constructor
    · intro hi
      obtain ⟨call, hcall, hwaits⟩ := h.waits i hi
      obtain ⟨hlt, rfl⟩ := List.getElem?_eq_some_iff.mp hcall
      exact ⟨hlt, hwaits⟩
    · rintro ⟨hlt, hwaits⟩
      exact hstored i _ (List.getElem?_eq_getElem hlt) hwaits
  have hperm := (List.perm_ext_iff_of_nodup h.nodup List.nodup_findIdxs).mpr hmem
  have hlength := hperm.length_eq
  rwa [List.length_findIdxs] at hlength

end System

/-! ## What a stretch decides -/

/-- From `sem` on, the call has either left the semaphore alone or given a permit back. -/
def Untouched (sem : SemState) (k : Shared) : Prop := k.sem = sem ∨ 0 < k.sem.permits

/-- The places from which the call may yet ask for a permit in this stretch. -/
def Spot.Unspent (plan : Plan T E) (sem : SemState) (call : Call T E) (k : Shared) :
    Spot T E → Prop
  | .suspended =>
      match call.stage with
      | .created => Untouched sem k
      | .backingOff _ _ => plan.scope? = some .attempts → Untouched sem k
      | _ => True
  | .entering | .asking _ => Untouched sem k
  | .waiting _ _ | .granted _ | .refused _ | .starting _ _ _ | .exiting _ | .leaving _ => True
  | _ => plan.scope? = some .attempts → Untouched sem k

/-- At the cursor the call waits, or is about to look whether it still has to. -/
def Cursor.waits (c : Cursor T E) : Bool :=
  match c.spot with
  | .suspended => c.call.stage.waits
  | .waiting _ _ => true
  | _ => false

section Hops

variable {plan : Plan T E} {id : Nat} {c c' : Cursor T E} {os : List (Obs T E)}
  {limit : ConcurrencyLimit} {maxQueued : Nat} {timeout : Option Nat} {sem : SemState}

theorem Hop.unspent (hop : Hop plan id c os c') (hlawful : c.call.Lawful plan c.spot)
    (h : c.spot.Unspent plan sem c.call c.shared) : c'.spot.Unspent plan sem c'.call c'.shared := by
  cases hop with
  | begin hs => simpa [Spot.Unspent, hs] using h
  | enterOperations => exact h
  | enter => exact fun _ => h
  | @park call a k timers hfree => cases a <;> trivial
  | grantOperation =>
      intro hattempts
      have hops : plan.scope? = some .operations := hlawful.spot.1
      rw [hops] at hattempts
      cases hattempts
  | headAsk hc => exact h hc
  | @cease call d permit timers k outcome hs =>
      intro hattempts
      have hspot : permit = true ↔ plan.scope? = some .attempts := by
        simpa [Spot.Lawful, Stage.Lawful, hs] using hlawful.spot
      simp [Untouched, hspot.mpr hattempts]
  | rouse hs => simpa [Spot.Unspent, hs] using h
  | _ => first | exact h | trivial

theorem Hop.checked (hop : Hop plan id c os c') {full : Bool} (h : Obs.queueChecked full ∈ os) :
    ∃ (limit : ConcurrencyLimit) (maxQueued : Nat) (timeout : Option Nat) (a : Applicant E),
      plan.concurrency = some limit ∧ limit.saturation = .wait maxQueued timeout ∧
      c.spot = .asking a ∧ c.shared.sem.permits = 0 ∧
      (full = true ↔ maxQueued ≤ c.shared.sem.queued) := by
  have hnews : ∀ es : List Event, Obs.queueChecked full ∉ (plan.news es : List (Obs T E)) :=
    fun es => Plan.not_mem_news fun e he => by cases he
  cases hop with
  | full hc hfree hp hfull =>
      have heq : full = true := by simpa using h
      exact ⟨_, _, _, _, hc, hp, rfl, hfree, iff_of_true heq hfull⟩
  | join timers hc hfree hp hroom =>
      have heq : full = false := by simpa using h
      exact ⟨_, _, _, _, hc, hp, rfl, hfree, iff_of_false (by simp [heq]) (Nat.not_le_of_lt hroom)⟩
  | _ => simp [hnews] at h

theorem Hop.joined (hop : Hop plan id c os c') (h : c'.waits = true) :
    c.waits = true ∨ Obs.queueChecked false ∈ os := by
  cases hop with
  | @repoll call a k timers hs =>
      refine .inl ?_
      cases a <;> simp [Cursor.waits, hs, Applicant.queue, Stage.waits]
  | join => exact .inr (List.mem_singleton_self _)
  | core | work => exact .inl h
  | park => exact .inl rfl
  | _ => cases h

/-- Who gives a permit back takes a waker out of the queue, or leaves the queue alone. -/
theorem SemState.release_sublist (sem : SemState) :
    List.Sublist sem.release.2.waiters sem.waiters := by
  unfold SemState.release
  split
  next heq => rw [heq]
  next w ws heq =>
    rw [heq]
    exact List.sublist_cons_self w ws

/-- A caller is polled in the queue only when it has no waker there, and does not time out
in the poll that puts one there. -/
def QueuesOnce (id : Nat) (c c' : Cursor T E) : Prop :=
  ∀ a timers, c.spot = .waiting a timers →
    id ∉ c.shared.sem.waiters ∧ ∀ a', c'.spot ≠ .refused a'

/-- The wakers are of callers that wait, which `others` are, and none is there twice. -/
structure Cursor.OneWaker (id : Nat) (others : Nat → Prop) (c : Cursor T E) : Prop where
  nodup : c.shared.sem.waiters.Nodup
  others : ∀ j ∈ c.shared.sem.waiters, j ≠ id → others j
  own : id ∈ c.shared.sem.waiters → c.waits = true

theorem Cursor.OneWaker.released {others : Nat → Prop} (h : c.OneWaker id others)
    (hno : c.waits = false) (permit : Bool) {call : Call T E} {spot : Spot T E} {k : Shared}
    (hk : k.sem = if permit then c.shared.sem.release.2 else c.shared.sem) :
    Cursor.OneWaker id others ⟨call, spot, k⟩ := by
  have hsub : List.Sublist k.sem.waiters c.shared.sem.waiters := by
    rw [hk]
    split
    · exact c.shared.sem.release_sublist
    · exact List.Sublist.refl _
  refine ⟨h.nodup.sublist hsub, fun j hj => h.others j (hsub.subset hj), fun hid => ?_⟩
  rw [h.own (hsub.subset hid)] at hno
  cases hno

theorem Hop.oneWaker {others : Nat → Prop} (hop : Hop plan id c os c') (hok : QueuesOnce id c c')
    (h : c.OneWaker id others) : c'.OneWaker id others := by
  have hsame : c.waits = false → c'.shared.sem.waiters = c.shared.sem.waiters →
      c'.OneWaker id others := by
    intro hno heq
    refine ⟨heq ▸ h.nodup, heq ▸ h.others, fun hid => ?_⟩
    rw [heq] at hid
    rw [h.own hid] at hno
    cases hno
  cases hop with
  | core | work => exact ⟨h.nodup, h.others, h.own⟩
  | begin hs => exact hsame (by simp [Cursor.waits, hs, Stage.waits]) rfl
  | @repoll call a k timers hs => exact ⟨h.nodup, h.others, fun _ => rfl⟩
  | pick hfree =>
      exact ⟨h.nodup, h.others, fun hid => absurd hid (hok _ _ rfl).1⟩
  | giveUp hfree => exact absurd rfl ((hok _ _ rfl).2 _)
  | @park call a k timers hfree =>
      have hnot := (hok _ _ rfl).1
      refine ⟨?_, fun j hj hne => ?_, fun _ => by cases a <;> rfl⟩
      · rw [← List.concat_eq_append]
        exact List.Nodup.concat hnot h.nodup
      · rcases List.mem_append.mp hj with hold | hself
        · exact h.others j hold hne
        · exact absurd (List.mem_singleton.mp hself) hne
  | pend timers hs => exact hsame (by simp [Cursor.waits, hs, Stage.waits]) rfl
  | @cease call d permit timers k outcome hs =>
      exact h.released (by simp [Cursor.waits, hs, Stage.waits]) permit (apply_ite Shared.sem ..)
  | rouse hs => exact hsame (by simp [Cursor.waits, hs, Stage.waits]) rfl
  | @leave call r k => exact h.released rfl call.opPermit (apply_ite Shared.sem ..)
  | _ => exact hsame rfl rfl

/-- What a stretch decides at the queue, it decides by the queue it found; and a call that
comes to wait was let in. -/
theorem decided_pollCall (hc : plan.concurrency = some limit)
    (hp : limit.saturation = .wait maxQueued timeout) {call : Call T E} {script : Script T E}
    {f : Frame T E} {done : Call T E × Frame T E} (hlawful : call.Lawful plan .suspended)
    (hnew : f.log = []) (hpoll : pollCall plan id call script f = some done) :
    (∀ full, Obs.queueChecked full ∈ done.2.log → (full = true ↔ maxQueued ≤ f.sem.queued)) ∧
      (done.1.stage.waits = true →
        call.stage.waits = true ∨ Obs.queueChecked false ∈ done.2.log) := by
  have hwalk := (reaches_pollCall hpoll).keeps (Q := fun c log => c.call.Lawful plan c.spot ∧
    c.spot.Unspent plan f.sem c.call c.shared ∧
    (∀ full, Obs.queueChecked full ∈ log → (full = true ↔ maxQueued ≤ f.sem.queued)) ∧
    (c.waits = true → call.stage.waits = true ∨ Obs.queueChecked false ∈ log)) ?_ [] ?_
  · exact hwalk.2.2
  · rintro c os c' log hop ⟨hlawful, hunspent, hexact, hjoined⟩
    refine ⟨hop.lawful hlawful, hop.unspent hlawful hunspent, fun full hmem => ?_, fun hwaits => ?_⟩
    · rcases List.mem_append.mp hmem with hold | hchecked
      · exact hexact full hold
      · obtain ⟨_, _, _, a, hc', hp', hspot, hfree, hfull⟩ := hop.checked hchecked
        cases hc.symm.trans hc'
        cases hp.symm.trans hp'
        rw [hspot] at hunspent
        have hsem : c.shared.sem = f.sem := hunspent.resolve_right (by omega)
        rw [hfull, hsem]
    · rcases hop.joined hwaits with hold | hchecked
      · exact (hjoined hold).imp_right (List.mem_append_left os)
      · exact .inr (List.mem_append_right log hchecked)
  · refine ⟨hlawful, ?_, by simp [hnew], fun h => .inl h⟩
    cases hstage : call.stage <;> simp [Place.cursor, Spot.Unspent, Untouched, hstage]

end Hops

/-! ## Over whole runs -/

namespace System

/-- In this step a caller that found no permit free took the queue to be full, or not. -/
def Decides (plan : Plan T E) (s : System T E) (l : Label T E) (full : Bool) : Prop :=
  ∃ s' i, step plan s l = some s' ∧ (i, Obs.queueChecked full) ∈ s'.trace.drop s.trace.length

/-- Whoever takes the queue to be full is right, and nobody else is. A caller that looks
at the queue does not wait yet, so all that wait are others. -/
def DecidesExactly (plan : Plan T E) (maxQueued : Nat) (s : System T E) (l : Label T E) : Prop :=
  ∀ full, Decides plan s l full → (full = true ↔ maxQueued ≤ s.waiting)

/-- The steps that keep the wakers with the callers that wait: no caller is polled in the
queue or dropped from it while its waker is stored, none times out in the poll that stores
it, and nobody looks at the queue before a caller that was woken is polled. -/
structure QueueKept (plan : Plan T E) (s : System T E) (l : Label T E) : Prop where
  polls : ∀ i script, l = .poll i script → KeepsTo (QueuesOnce i) (fun _ => True) plan s l
  drops : ∀ i, l = .drop i → i ∉ s.shared.sem.waiters
  looks : ∀ full, Decides plan s l full → ∀ (i : Nat) (call : Call T E),
    s.calls[i]? = some call → call.stage.waits = true → i ∈ s.shared.sem.waiters

variable {plan : Plan T E} {limit : ConcurrencyLimit} {maxQueued : Nat} {timeout : Option Nat}
  {n : Nat}

theorem settle_news (s : System T E) (i : Nat) (done : Call T E × Frame T E) :
    (s.settle i done).trace.drop s.trace.length = done.2.log.map (Prod.mk i) := by
  simp [settle]

theorem decides_queued (hc : plan.concurrency = some limit)
    (hp : limit.saturation = .wait maxQueued timeout) {s : System T E} {l : Label T E}
    {full : Bool} (h : s.Conserved plan n) (hdecides : Decides plan s l full) :
    full = true ↔ maxQueued ≤ s.shared.sem.queued := by
  obtain ⟨s', i, hstep, hmem⟩ := hdecides
  cases l with
  | elapse d =>
      cases hstep
      simp at hmem
  | call =>
      cases hstep
      simp at hmem
  | poll j script =>
      obtain ⟨call, done, hj, hdone, rfl⟩ := step_poll hstep
      rw [settle_news] at hmem
      obtain ⟨o, ho, heq⟩ := List.mem_map.mp hmem
      cases heq
      exact (decided_pollCall hc hp (h.lawful _ call hj) rfl hdone).1 full ho
  | drop j =>
      obtain ⟨call, done, hj, hdone, rfl⟩ := step_drop hstep
      rw [settle_news] at hmem
      obtain ⟨o, ho, heq⟩ := List.mem_map.mp hmem
      cases heq
      simp [dropCall_log hdone, frame] at ho
  | depositElsewhere =>
      obtain ⟨tokens, rfl⟩ := step_elsewhere (.inl rfl) hstep
      simp [withTokens] at hmem
  | withdrawElsewhere =>
      obtain ⟨tokens, rfl⟩ := step_elsewhere (.inr rfl) hstep
      simp [withTokens] at hmem

/-- One more caller waits only after a look at a queue with room. -/
theorem waiting_step (hc : plan.concurrency = some limit)
    (hp : limit.saturation = .wait maxQueued timeout) {s s' : System T E} {l : Label T E}
    (h : s.Conserved plan n) (hstep : step plan s l = some s') :
    s'.waiting ≤ s.waiting ∨ (s'.waiting = s.waiting + 1 ∧ Decides plan s l false) := by
  cases l with
  | elapse d =>
      cases hstep
      exact .inl (Nat.le_refl _)
  | call =>
      cases hstep
      exact .inl (by simp [waiting, created, Stage.waits])
  | poll i script =>
      obtain ⟨call, done, hi, hdone, hs'⟩ := step_poll hstep
      have hset := TaskPool.count_set (·.stage.waits) hi done.1
      have hjoined := (decided_pollCall hc hp (h.lawful i call hi) rfl hdone).2
      cases hnow : done.1.stage.waits with
      | false =>
          have hle := TaskPool.count_set_le (·.stage.waits) hi hnow
          subst hs'
          exact .inl hle
      | true =>
          cases hwas : call.stage.waits with
          | true =>
              have heq := TaskPool.count_set_of_eq (·.stage.waits) hi (hnow.trans hwas.symm)
              subst hs'
              exact .inl (Nat.le_of_eq heq)
          | false =>
              have hchecked := (hjoined hnow).resolve_left (by simp [hwas])
              have hmem : (i, Obs.queueChecked false) ∈ s'.trace.drop s.trace.length := by
                rw [hs', settle_news]
                exact List.mem_map_of_mem hchecked
              refine .inr ⟨?_, s', i, hstep, hmem⟩
              subst hs'
              exact TaskPool.count_set_enter (·.stage.waits) hi hwas hnow
  | drop i =>
      obtain ⟨call, done, hi, hdone, rfl⟩ := step_drop hstep
      have hover : done.1.stage.waits = false := by
        rw [(dropCall_cases hdone).1]
        rfl
      have hle := TaskPool.count_set_le (·.stage.waits) hi hover
      exact .inl hle
  | depositElsewhere =>
      obtain ⟨tokens, rfl⟩ := step_elsewhere (.inl rfl) hstep
      exact .inl (Nat.le_refl _)
  | withdrawElsewhere =>
      obtain ⟨tokens, rfl⟩ := step_elsewhere (.inr rfl) hstep
      exact .inl (Nat.le_refl _)

theorem decidesExactly (hc : plan.concurrency = some limit)
    (hp : limit.saturation = .wait maxQueued timeout) {s : System T E} {l : Label T E}
    (h : s.Conserved plan n) (hone : s.OneWakerEach) (hkept : QueueKept plan s l) :
    DecidesExactly plan maxQueued s l := by
  intro full hdecides
  rw [decides_queued hc hp h hdecides, hone.queued (hkept.looks full hdecides)]

theorem waiters_dropCall {call : Call T E} {f : Frame T E} {done : Call T E × Frame T E}
    (h : dropCall call f = some done) : List.Sublist done.2.sem.waiters f.sem.waiters := by
  have hop : List.Sublist
      (if call.opPermit then { f with sem := f.sem.release.2 } else f).sem.waiters
      f.sem.waiters := by
    split
    · exact f.sem.release_sublist
    · exact List.Sublist.refl _
  unfold dropCall at h
  cases hstage : call.stage with
  | running d permit timers =>
      simp only [hstage, Option.some.injEq] at h
      subst h
      cases permit with
      | false => exact hop
      | true => exact (SemState.release_sublist _).trans hop
  | returned r => simp [hstage] at h
  | dropped => simp [hstage] at h
  | _ =>
      simp only [hstage, Option.some.injEq] at h
      subst h
      exact hop

theorem oneWakerEach_settle {s : System T E} {i : Nat} {call : Call T E}
    (hi : s.calls[i]? = some call) {done : Call T E × Frame T E}
    (hdone : Cursor.OneWaker i
      (fun j => ∃ call, s.calls[j]? = some call ∧ call.stage.waits = true)
      ⟨done.1, .suspended, done.2.toShared⟩) : (s.settle i done).OneWakerEach := by
  refine ⟨hdone.nodup, fun j hj => ?_⟩
  by_cases hij : j = i
  · subst hij
    exact ⟨done.1, List.getElem?_set_self (List.getElem?_eq_some_iff.mp hi).1, hdone.own hj⟩
  · obtain ⟨other, hother, hwaits⟩ := hdone.others j hj hij
    exact ⟨other, (List.getElem?_set_ne (Ne.symm hij)).trans hother, hwaits⟩

theorem oneWakerEach_step (s : System T E) (l : Label T E) (s' : System T E)
    (h : s.OneWakerEach) (hkept : QueueKept plan s l) (hstep : step plan s l = some s') :
    s'.OneWakerEach := by
  cases l with
  | elapse d =>
      cases hstep
      exact ⟨h.nodup, h.waits⟩
  | call =>
      cases hstep
      refine ⟨h.nodup, fun i hi => ?_⟩
      obtain ⟨call, hcall, hwaits⟩ := h.waits i hi
      have hlt := (List.getElem?_eq_some_iff.mp hcall).1
      exact ⟨call, (List.getElem?_append_left hlt).trans hcall, hwaits⟩
  | poll i script =>
      obtain ⟨call, done, hi, hdone, rfl⟩ := step_poll hstep
      refine oneWakerEach_settle hi ?_
      refine (hkept.polls i script rfl call done hi hdone).keeps
        (Q := fun c _ => c.OneWaker i _) (fun c os c' _ hop hok hc => hop.oneWaker hok hc) [] ?_
      refine ⟨h.nodup, fun j hj _ => h.waits j hj, fun hself => ?_⟩
      obtain ⟨call', hcall', hwaits⟩ := h.waits i hself
      cases hi.symm.trans hcall'
      exact hwaits
  | drop i =>
      obtain ⟨call, done, hi, hdone, rfl⟩ := step_drop hstep
      have hnot := hkept.drops i rfl
      have hsub : List.Sublist done.2.sem.waiters s.shared.sem.waiters :=
        waiters_dropCall hdone
      refine oneWakerEach_settle hi ⟨h.nodup.sublist hsub, fun j hj _ =>
        h.waits j (hsub.subset hj), fun hself => absurd (hsub.subset hself) hnot⟩
  | depositElsewhere =>
      obtain ⟨tokens, rfl⟩ := step_elsewhere (.inl rfl) hstep
      exact ⟨h.nodup, h.waits⟩
  | withdrawElsewhere =>
      obtain ⟨tokens, rfl⟩ := step_elsewhere (.inr rfl) hstep
      exact ⟨h.nodup, h.waits⟩

end System

/-- In every run whose steps keep the wakers with the callers that wait, a caller is turned
away at the queue exactly when `maxQueued` others wait at that moment, and no more than that
ever do. -/
theorem queue_admission_exact (plan : Plan T E) (limit : ConcurrencyLimit)
    (hc : plan.concurrency = some limit) (maxQueued : Nat) (timeout : Option Nat)
    (hp : limit.saturation = .wait maxQueued timeout) (start : Nat)
    (ls : List (System.Label T E))
    (hkept : Obeys (System.step plan) (System.QueueKept plan) (System.init plan start) ls) :
    Obeys (System.step plan) (System.DecidesExactly plan maxQueued)
        (System.init plan start) ls ∧
      Throughout (System.step plan) (fun s => s.waiting ≤ maxQueued)
        (System.init plan start) ls := by
  have hinit : (System.init plan start).Conserved plan limit.permits ∧
      (System.init plan start).OneWakerEach :=
    ⟨System.conserved_init hc start, by simp [System.init, SemState.new], fun i hi => by
      simp [System.init, SemState.new] at hi⟩
  have hstep : ∀ s l s', (s.Conserved plan limit.permits ∧ s.OneWakerEach) →
      System.QueueKept plan s l → System.step plan s l = some s' →
      s'.Conserved plan limit.permits ∧ s'.OneWakerEach := fun s l s' h hk hs =>
    ⟨System.conserved_step s l s' h.1 hs, System.oneWakerEach_step s l s' h.2 hk hs⟩
  refine ⟨hkept.mono_of_invariant hstep
    (fun s l h hk => System.decidesExactly hc hp h.1 h.2 hk) hinit, ?_⟩
  have hboth : Throughout (System.step plan)
      (fun s => (s.Conserved plan limit.permits ∧ s.OneWakerEach) ∧ s.waiting ≤ maxQueued)
      (System.init plan start) ls := by
    refine throughout_of_step ?_ ⟨hinit, Nat.zero_le _⟩ hkept
    rintro s l s' ⟨h, hle⟩ hk hs
    refine ⟨hstep s l s' h hk hs, ?_⟩
    rcases System.waiting_step hc hp h.1 hs with hless | ⟨hmore, hdecides⟩
    · exact Nat.le_trans hless hle
    · have hexact := System.decidesExactly hc hp h.1 h.2 hk
      have hroom : ¬ maxQueued ≤ s.waiting := fun hfull =>
        Bool.false_ne_true ((hexact false hdecides).mpr hfull)
      omega
  exact hboth.mono fun s h => h.2

def oneInLine : Plan Nat Nat where
  retry := Retry.none
  attemptTimeout := none
  totalTimeout := none
  breaker := none
  concurrency := some ((ConcurrencyLimit.operations 1).maxQueued 1)
  onEvent := false
  maxAttempts_pos := Nat.one_pos
  timeouts_ordered := Plan.untimed_ordered

theorem System.stored_of_waiting_eq_zero {s : System T E} (h : s.waiting = 0) (i : Nat)
    (call : Call T E) (hi : s.calls[i]? = some call) (hwaits : call.stage.waits = true) :
    i ∈ s.shared.sem.waiters := by
  rw [TaskPool.count_eq_zero_iff.mp h i call hi] at hwaits
  cases hwaits

/-- One call is in its attempt and another queues for the permit. -/
def inLine : List (System.Label Nat Nat) := [.call, .poll 0 .pending, .call, .poll 1 .pending]

theorem queueKept_inLine :
    Obeys (System.step oneInLine) (System.QueueKept oneInLine) (System.init oneInLine 0)
      inLine := by
  refine ⟨⟨nofun, nofun, fun _ _ => System.stored_of_waiting_eq_zero rfl⟩, fun s₁ h₁ => ?_⟩
  cases h₁
  refine ⟨⟨fun i script hl call done hi hdone => ?_, nofun,
    fun _ _ => System.stored_of_waiting_eq_zero rfl⟩, fun s₂ h₂ => ?_⟩
  · -- the permit is free
    cases hl
    cases hi
    cases hdone
    refine .head ⟨.core (.tick _), fun _ _ h => by cases h⟩ ?_
    refine .head ⟨.quiet (.begin rfl), fun _ _ h => by cases h⟩ ?_
    refine .head ⟨.quiet (.enterOperations rfl), fun _ _ h => by cases h⟩ ?_
    refine .head ⟨.quiet (.take rfl (by decide)), fun _ _ h => by cases h⟩ ?_
    refine .head ⟨.quiet .grantOperation, fun _ _ h => by cases h⟩ ?_
    refine .head ⟨.quiet (.noGate rfl), fun _ _ h => by cases h⟩ ?_
    refine .head ⟨.quiet .deposit, fun _ _ h => by cases h⟩ ?_
    refine .head ⟨.core (.tick _), fun _ _ h => by cases h⟩ ?_
    refine .head ⟨.quiet (.headFree (by decide)), fun _ _ h => by cases h⟩ ?_
    exact .single ⟨.noted .start, fun _ _ h => by cases h⟩
  cases h₂
  refine ⟨⟨nofun, nofun, fun _ _ => System.stored_of_waiting_eq_zero rfl⟩, fun s₃ h₃ => ?_⟩
  cases h₃
  refine ⟨⟨fun i script hl call done hi hdone => ?_, nofun,
    fun _ _ => System.stored_of_waiting_eq_zero rfl⟩, fun _ _ => trivial⟩
  · -- it is taken, and the queue is empty
    cases hl
    cases hi
    cases hdone
    refine .head ⟨.core (.tick _), fun _ _ h => by cases h⟩ ?_
    refine .head ⟨.quiet (.begin rfl), fun _ _ h => by cases h⟩ ?_
    refine .head ⟨.quiet (.enterOperations rfl), fun _ _ h => by cases h⟩ ?_
    refine .head ⟨.noted (.join ⟨none, none⟩ rfl rfl rfl (by decide)), fun _ _ h => by cases h⟩ ?_
    refine .single ⟨.quiet (.park rfl), fun a timers _ => ⟨by decide, fun a' h => by cases h⟩⟩

theorem queue_admission_exact_inLine :
    Throughout (System.step oneInLine) (fun s => s.waiting ≤ 1) (System.init oneInLine 0) inLine :=
  (queue_admission_exact oneInLine ((ConcurrencyLimit.operations 1).maxQueued 1) rfl 1 none rfl 0
    inLine queueKept_inLine).2

/-- Call 1 queues behind call 0 and is dropped; its waker stays. -/
def droppedInLine : List (System.Label Nat Nat) :=
  [.call, .poll 0 .pending, .call, .poll 1 .pending, .drop 1, .call]

/-- Call 1 is woken when call 0 ends, but call 2 takes the permit first and call 3 queues. -/
def overtakenInLine : List (System.Label Nat Nat) :=
  [.call, .poll 0 .pending, .call, .poll 1 .pending, .poll 0 (.answer 0 (.ok 7)),
    .call, .poll 2 .pending, .call, .poll 3 .pending]

theorem stored_wakers_misjudge_queue :
    (∃ s, run (System.step oneInLine) (System.init oneInLine 0) droppedInLine = some s ∧
      s.waiting = 0 ∧ System.Decides oneInLine s (.poll 2 .pending) true) ∧
    (∃ s, run (System.step oneInLine) (System.init oneInLine 0) overtakenInLine = some s ∧
      1 < s.waiting) := by
  refine ⟨⟨(run (System.step oneInLine) (System.init oneInLine 0) droppedInLine).get rfl, rfl, rfl,
    _, 2, rfl, List.mem_of_getElem? (i := 0) rfl⟩,
    ⟨(run (System.step oneInLine) (System.init oneInLine 0) overtakenInLine).get rfl, rfl, ?_⟩⟩
  decide

end ExecutionPolicy
