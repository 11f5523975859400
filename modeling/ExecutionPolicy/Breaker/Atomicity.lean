import ExecutionPolicy.Breaker.Threads

/-! # The threads of a breaker against the atomic breaker

A run of the threads is a run of the atomic breaker, seen from outside: an operation that
writes the state word is done at that write, any other that takes the mutex when it writes
`Inner`, and one that its first look decides at that look. A poll that saw OPEN does not
look again under the mutex, where the breaker may have closed since: it is done at a moment
since its call at which the breaker was OPEN with the cooldown it finds.
-/

namespace ExecutionPolicy

open StepSystem Linearization

namespace SharedBreaker

open BreakerRuntime (atomic)

variable {cfg : BreakerConfig}

/-- A poll that saw OPEN knows a breaker that was OPEN with the cooldown this one has. -/
def SawOpen (b : BreakerRuntime) (seen : List BreakerRuntime) : Prop :=
  ∃ past ∈ seen, past.state = .open ∧ past.openUntil = b.openUntil

/-- Where a thread stands, beside the caller of the atomic breaker `b` that it plays. An
operation that writes the state word is done when it writes it, any other when it writes
`Inner`, and a poll under the mutex when the breaker last was as the poll finds it. -/
inductive Stands (cfg : BreakerConfig) (s : SharedBreaker) (b : BreakerRuntime) :
    BreakerThread → Caller BreakerRuntime BreakerOp BreakerAnswer → Prop where
  | called {op : BreakerOp} {seen : List BreakerRuntime} (hb : b ∈ seen) :
      Stands cfg s b { op, stage := .called } (.called op seen)
  | locking {op : BreakerOp} {seen : List BreakerRuntime}
      (hpoll : op.isPoll = true → SawOpen b seen) :
      Stands cfg s b { op, stage := .locking } (.called op seen)
  | locked {op : BreakerOp} {seen : List BreakerRuntime}
      (hpoll : op.isPoll = true → SawOpen b seen) (hb : b = s.inner.under s.state) :
      Stands cfg s b { op, stage := .locked } (.called op seen)
  | read {op : BreakerOp} {seen : List BreakerRuntime} (hpoll : op.isPoll = false)
      (hb : b = s.inner.under s.state) :
      Stands cfg s b { op, stage := .read s.state } (.called op seen)
  | storing {op : BreakerOp} {seen : List BreakerRuntime} {state : StateWord} {last : Inner}
      {answer : BreakerAnswer} (hdone : (atomic cfg).apply b op = (answer, last.under state)) :
      Stands cfg s b { op, stage := .storing state last answer } (.called op seen)
  | writing {op : BreakerOp} {last : Inner} {answer : BreakerAnswer} (hb : b = last.under s.state) :
      Stands cfg s b { op, stage := .writing last answer } (.committed op answer)
  | leaving {op : BreakerOp} {answer : BreakerAnswer} (hb : b = s.inner.under s.state) :
      Stands cfg s b { op, stage := .leaving answer } (.committed op answer)
  | returned {op : BreakerOp} {answer : BreakerAnswer} :
      Stands cfg s b { op, stage := .returned answer } (.returned op answer)

section Bystanders

variable {s s' : SharedBreaker} {b b' : BreakerRuntime} {thread : BreakerThread}
  {caller : Caller BreakerRuntime BreakerOp BreakerAnswer}

/-- A thread without the mutex does not mind what its owner does, short of the operation. -/
theorem Stands.outside (h : Stands cfg s b thread caller) (hout : thread.stage.holds = false) :
    Stands cfg s' b thread caller := by
  cases h with
  | called hb => exact .called hb
  | locking hpoll => exact .locking hpoll
  | locked | read | storing | writing | leaving => cases hout
  | returned => exact .returned

theorem SawOpen.note {seen : List BreakerRuntime} (h : SawOpen b seen)
    (hkeep : b'.openUntil = b.openUntil ∨ b'.state = .open) : SawOpen b' (seen ++ [b']) := by
  rcases hkeep with heq | hopen
  · obtain ⟨past, hmem, hstate, huntil⟩ := h
    exact ⟨past, List.mem_append_left _ hmem, hstate, huntil.trans heq.symm⟩
  · exact ⟨b', by simp, hopen, rfl⟩

theorem Stands.noted (h : Stands cfg s b thread caller) (hout : thread.stage.holds = false)
    (hkeep : b'.openUntil = b.openUntil ∨ b'.state = .open) :
    Stands cfg s' b' thread (caller.note b') := by
  cases h with
  | called hb => exact .called (by simp)
  | locking hpoll => exact .locking fun hp => (hpoll hp).note hkeep
  | locked | read | storing | writing | leaving => cases hout
  | returned => exact .returned

theorem Stands.noted_same (h : Stands cfg s b thread caller) (hstate : s'.state = s.state)
    (hinner : s'.inner = s.inner) : Stands cfg s' b thread (caller.note b) := by
  have hunder : s'.inner.under s'.state = s.inner.under s.state := by rw [hstate, hinner]
  cases h with
  | called hb => exact .called (by simp)
  | locking hpoll => exact .locking fun hp => (hpoll hp).note (.inl rfl)
  | locked hpoll hb => exact .locked (fun hp => (hpoll hp).note (.inl rfl)) (hb.trans hunder.symm)
  | read hpoll hb =>
      rw [← hstate]
      exact .read hpoll (hb.trans hunder.symm)
  | storing hdone => exact .storing hdone
  | writing hb => exact .writing (hstate ▸ hb)
  | leaving hb => exact .leaving (hb.trans hunder.symm)
  | returned => exact .returned

theorem Stands.same (h : Stands cfg s b thread caller) (hstate : s'.state = s.state)
    (hinner : s'.inner = s.inner) : Stands cfg s' b thread caller := by
  have hunder : s'.inner.under s'.state = s.inner.under s.state := by rw [hstate, hinner]
  cases h with
  | called hb => exact .called hb
  | locking hpoll => exact .locking hpoll
  | locked hpoll hb => exact .locked hpoll (hb.trans hunder.symm)
  | read hpoll hb =>
      rw [← hstate]
      exact .read hpoll (hb.trans hunder.symm)
  | storing hdone => exact .storing hdone
  | writing hb => exact .writing (hstate ▸ hb)
  | leaving hb => exact .leaving (hb.trans hunder.symm)
  | returned => exact .returned

end Bystanders

/-- The threads play the callers of the atomic breaker: the state word is always its own,
and all of it is as the atomic one is while nobody has the mutex. -/
structure Matches (cfg : BreakerConfig) (s : SharedBreaker)
    (t : State BreakerRuntime BreakerOp BreakerAnswer) : Prop where
  length : t.callers.length = s.threads.length
  word : t.object.state = s.state
  owner : ∀ (i : Nat) thread, s.threads[i]? = some thread →
    (thread.stage.holds = true ↔ s.owner = some i)
  bounded : ∀ i, s.owner = some i → i < s.threads.length
  free : s.owner = none → t.object = s.inner.under s.state
  stands : ∀ (i : Nat) thread, s.threads[i]? = some thread →
    ∃ caller, t.callers[i]? = some caller ∧ Stands cfg s t.object thread caller

section Matching

variable {s s' : SharedBreaker} {t t' : State BreakerRuntime BreakerOp BreakerAnswer} {i : Nat}
  {thread thread' : BreakerThread}

theorem matches_init (cfg : BreakerConfig) :
    Matches cfg (init cfg) { object := .new cfg.trip, callers := [] } where
  length := rfl
  word := rfl
  owner := by simp [init]
  bounded := by simp [init]
  free := fun _ => rfl
  stands := by simp [init]

theorem Matches.outside (h : Matches cfg s t) (howner : s.owner = none ∨ s.owner = some i)
    {j : Nat} (hji : j ≠ i) (hj : s.threads[j]? = some thread) : thread.stage.holds = false := by
  have hiff := h.owner j thread hj
  rcases howner with hnone | hsome
  · simpa [hnone] using hiff
  · simpa [hsome, Ne.symm hji] using hiff

theorem Matches.set (h : Matches cfg s t) (hi : s.threads[i]? = some thread)
    (hthreads : s'.threads = s.threads.set i thread')
    (hlength : t'.callers.length = t.callers.length)
    (hword : t'.object.state = s'.state)
    (howner : s'.owner = s.owner ∨ (s.owner = none ∨ s.owner = some i) ∧
      (s'.owner = none ∨ s'.owner = some i))
    (hown : thread'.stage.holds = true ↔ s'.owner = some i)
    (hfree : s'.owner = none → t'.object = s'.inner.under s'.state)
    (hstands : ∃ caller, t'.callers[i]? = some caller ∧ Stands cfg s' t'.object thread' caller)
    (hothers : ∀ (j : Nat) thread caller, j ≠ i → s.threads[j]? = some thread →
      t.callers[j]? = some caller → Stands cfg s t.object thread caller →
      ∃ caller', t'.callers[j]? = some caller' ∧ Stands cfg s' t'.object thread caller') :
    Matches cfg s' t' := by
  have hlt := (List.getElem?_eq_some_iff.mp hi).1
  refine ⟨?_, hword, fun j th hj => ?_, fun j hj => ?_, hfree, fun j th hj => ?_⟩
  · rw [hlength, hthreads, List.length_set, h.length]
  · rw [hthreads] at hj
    rcases TaskPool.getElem?_set_cases hj with ⟨rfl, rfl⟩ | ⟨hne, hold⟩
    · exact hown
    · rcases howner with hsame | ⟨hbefore, hafter⟩
      · rw [hsame]
        exact h.owner j th hold
      · rw [h.outside hbefore (Ne.symm hne) hold]
        rcases hafter with hnone | hsome
        · simp [hnone]
        · simp [hsome, hne]
  · rw [hthreads, List.length_set]
    rcases howner with hsame | ⟨_, hnone | hsome⟩
    · exact h.bounded j (hsame ▸ hj)
    · rw [hnone] at hj
      cases hj
    · rw [hsome] at hj
      cases hj
      exact hlt
  · rw [hthreads] at hj
    rcases TaskPool.getElem?_set_cases hj with ⟨rfl, rfl⟩ | ⟨hne, hold⟩
    · exact hstands
    · obtain ⟨caller, hcaller, hstand⟩ := h.stands j th hold
      exact hothers j th caller (Ne.symm hne) hold hcaller hstand

theorem Matches.call (h : Matches cfg s t) (op : BreakerOp) :
    Matches cfg { s with threads := s.threads ++ [{ op, stage := .called }] }
      { t with callers := t.callers ++ [.called op [t.object]] } where
  length := by simp [h.length]
  word := h.word
  owner j th hj := by
    rcases TaskPool.getElem?_snoc_cases hj with ⟨rfl, rfl⟩ | hold
    · have hbounded := h.bounded s.threads.length
      simp only [BreakerThread.Stage.holds, Bool.false_eq_true, false_iff]
      exact fun howner => absurd (hbounded howner) (Nat.lt_irrefl _)
    · exact h.owner j th hold
  bounded j hj := by
    have := h.bounded j hj
    simp only [List.length_append, List.length_singleton]
    omega
  free := h.free
  stands j th hj := by
    rcases TaskPool.getElem?_snoc_cases hj with ⟨rfl, rfl⟩ | hold
    · refine ⟨.called op [t.object], ?_, .called (by simp)⟩
      rw [← h.length, List.getElem?_append_right (Nat.le_refl _), Nat.sub_self]
      rfl
    · obtain ⟨caller, hcaller, hstand⟩ := h.stands j th hold
      have hlt := (List.getElem?_eq_some_iff.mp hcaller).1
      refine ⟨caller, ?_, hstand.same rfl rfl⟩
      rw [List.getElem?_append_left hlt]
      exact hcaller

theorem event_access {op : BreakerOp} {stage : BreakerThread.Stage}
    (hstep : s.step cfg (.access i) = some s') (hi : s'.threads[i]? = some { op, stage }) :
    s.event cfg (.access i) =
      match stage with
      | .returned answer => some (.ret i answer)
      | _ => none := by
  simp only [event, hstep, Option.bind_some, hi]
  cases stage <;> rfl

/-- The atomic breaker answers the access of thread `i`. -/
def Answered (cfg : BreakerConfig) (s : SharedBreaker) (i : Nat) (s' : SharedBreaker)
    (t : State BreakerRuntime BreakerOp BreakerAnswer) : Prop :=
  ∃ ms t', run (atomic cfg).step t ms = some t' ∧
    observe (atomic cfg).step AtomicObject.event t ms = (s.event cfg (.access i)).toList ∧
    Matches cfg s' t'

theorem Matches.answered {op : BreakerOp} {stage : BreakerThread.Stage} (h : Matches cfg s' t)
    (hstep : s.step cfg (.access i) = some s') (hi : s'.threads[i]? = some { op, stage })
    (hquiet : ∀ answer, stage ≠ .returned answer) : Answered cfg s i s' t := by
  refine ⟨[], t, rfl, ?_, h⟩
  rw [event_access hstep hi]
  cases stage with
  | returned answer => exact absurd rfl (hquiet answer)
  | called | locking | locked | read | storing | writing | leaving => rfl

/-- What the callers of the atomic breaker are after thread `i` has committed. -/
def committed (cfg : BreakerConfig) (t : State BreakerRuntime BreakerOp BreakerAnswer) (i : Nat)
    (op : BreakerOp) : State BreakerRuntime BreakerOp BreakerAnswer where
  object := t.object.apply cfg op
  callers := (t.callers.set i (.committed op (t.object.answer cfg op))).map
    (Caller.note (t.object.apply cfg op))

theorem committed_self {op : BreakerOp} {caller : Caller BreakerRuntime BreakerOp BreakerAnswer}
    (hi : t.callers[i]? = some caller) :
    (committed cfg t i op).callers[i]? = some (.committed op (t.object.answer cfg op)) := by
  rw [committed, List.getElem?_map, TaskPool.getElem?_set_self_of_some hi]
  rfl

theorem committed_other {op : BreakerOp} {j : Nat} (hji : j ≠ i) :
    (committed cfg t i op).callers[j]? =
      t.callers[j]?.map (Caller.note (t.object.apply cfg op)) := by
  rw [committed, List.getElem?_map, List.getElem?_set_ne (Ne.symm hji)]

theorem Matches.answered_commit {op op' : BreakerOp} {stage : BreakerThread.Stage}
    {seen : List BreakerRuntime} (h : Matches cfg s' (committed cfg t i op'))
    (hcaller : t.callers[i]? = some (.called op' seen)) (hstep : s.step cfg (.access i) = some s')
    (hi : s'.threads[i]? = some { op, stage }) (hquiet : ∀ answer, stage ≠ .returned answer) :
    Answered cfg s i s' t := by
  have hcommit : (atomic cfg).step t (.commit i) = some (committed cfg t i op') :=
    (atomic cfg).step_commit hcaller
  refine ⟨[.commit i], _, run_one hcommit, ?_, h⟩
  rw [observe_cons [] hcommit, event_access hstep hi]
  cases stage with
  | returned answer => exact absurd rfl (hquiet answer)
  | called | locking | locked | read | storing | writing | leaving => rfl

theorem move_self {op : BreakerOp} {stage : BreakerThread.Stage}
    (hi : s.threads[i]? = some thread) :
    (s.move i op stage).threads[i]? = some { op, stage } :=
  TaskPool.getElem?_set_self_of_some hi _

theorem Matches.access_called {op : BreakerOp} (h : Matches cfg s t)
    (hi : s.threads[i]? = some { op, stage := .called })
    (hstep : s.step cfg (.access i) = some s') : Answered cfg s i s' t := by
  obtain ⟨caller, hcaller, hstand⟩ := h.stands i _ hi
  have hnot : s.owner ≠ some i := fun howner => by
    have := (h.owner i _ hi).mpr howner
    cases this
  have haccess : s.access cfg i { op, stage := .called } = some s' := by
    simpa [step, hi] using hstep
  cases hstand with
  | called hb =>
  rename_i seen
  cases hg : op.glance s.state with
  | some answer =>
      simp only [access, hg, Option.some.injEq] at haccess
      subst haccess
      rw [← h.word] at hg
      obtain ⟨hanswer, hsame⟩ := op.answer_of_glance cfg hg
      have hcommit : (atomic cfg).step t (.commit i) = some (committed cfg t i op) :=
        (atomic cfg).step_commit hcaller
      have hself : (committed cfg t i op).callers[i]? =
          some (.committed op (t.object.answer cfg op)) := committed_self hcaller
      have hret := (atomic cfg).step_ret hself
      refine ⟨[.commit i, .ret i], _, run_trans (run_one hcommit) (run_one hret), ?_, ?_⟩
      · rw [observe_cons _ hcommit, observe_cons _ hret, AtomicObject.event_ret hself,
          event_access hstep (move_self hi), hanswer]
        rfl
      · refine h.set hi rfl ?_ ?_ (.inl rfl) ?_ ?_ ?_ ?_
        · simp [committed]
        · exact (congrArg BreakerRuntime.state hsame).trans h.word
        · simpa [BreakerThread.Stage.holds, move] using hnot
        · intro hfree
          exact hsame.trans (h.free hfree)
        · refine ⟨_, TaskPool.getElem?_set_self_of_some hself _, ?_⟩
          rw [hanswer]
          exact .returned
        · intro j th c hji _ hc hst
          refine ⟨c.note t.object, ?_, ?_⟩
          · rw [List.getElem?_set_ne (Ne.symm hji), committed_other hji, hc, hsame]
            rfl
          · rw [show (committed cfg t i op).object = t.object from hsame]
            exact hst.noted_same rfl rfl
  | none =>
      simp only [access, hg, Option.some.injEq] at haccess
      subst haccess
      refine Matches.answered ?_ hstep (move_self hi) nofun
      refine h.set hi rfl rfl h.word (.inl rfl) ?_ h.free ⟨_, hcaller, .locking fun hpoll => ?_⟩ ?_
      · simpa [BreakerThread.Stage.holds, move] using hnot
      · have hopen := BreakerOp.open_of_glance hpoll hg
        exact ⟨t.object, hb, h.word.trans hopen, rfl⟩
      · exact fun j th c _ _ hc hst => ⟨c, hc, hst.same rfl rfl⟩

theorem Matches.access_locking {op : BreakerOp} (h : Matches cfg s t)
    (hi : s.threads[i]? = some { op, stage := .locking })
    (hstep : s.step cfg (.access i) = some s') : Answered cfg s i s' t := by
  obtain ⟨caller, hcaller, hstand⟩ := h.stands i _ hi
  have haccess : s.access cfg i { op, stage := .locking } = some s' := by
    simpa [step, hi] using hstep
  cases hstand with
  | locking hpoll =>
  cases howner : s.owner with
  | some j => simp [access, howner] at haccess
  | none =>
      simp only [access, howner, Option.some.injEq] at haccess
      subst haccess
      refine Matches.answered ?_ hstep (move_self hi) nofun
      refine h.set hi rfl rfl h.word (.inr ⟨.inl howner, .inr rfl⟩) ?_ nofun
        ⟨_, hcaller, .locked hpoll (h.free howner)⟩ ?_
      · simp [BreakerThread.Stage.holds]
      · exact fun j th c _ _ hc hst => ⟨c, hc, hst.same rfl rfl⟩

/-- Under the mutex a poll answers from `Inner`; the others read the state word again. -/
theorem Matches.access_locked {op : BreakerOp} (h : Matches cfg s t)
    (hi : s.threads[i]? = some { op, stage := .locked })
    (hstep : s.step cfg (.access i) = some s') : Answered cfg s i s' t := by
  obtain ⟨caller, hcaller, hstand⟩ := h.stands i _ hi
  have howner : s.owner = some i := (h.owner i _ hi).mp rfl
  have haccess : s.access cfg i { op, stage := .locked } = some s' := by
    simpa [step, hi] using hstep
  cases hstand with
  | locked hpoll hb =>
  rename_i seen
  cases hp : op.peek s.inner with
  | some answer =>
      simp only [access, hp, Option.some.injEq] at haccess
      subst haccess
      have hreads := BreakerOp.isPoll_of_peek hp
      obtain ⟨past, hmem, hopen, huntil⟩ := hpoll hreads
      obtain ⟨k, hk⟩ := List.getElem?_of_mem hmem
      have hanswer : past.answer cfg op = answer :=
        BreakerOp.answer_of_peek hopen (by rw [huntil, hb]; rfl) hp
      have hlook := (atomic cfg).step_hindsight hcaller hk hreads
      refine ⟨[.hindsight i k], _, run_one hlook, ?_, ?_⟩
      · rw [observe_cons [] hlook, event_access hstep (move_self hi)]
        rfl
      · refine h.set hi rfl (List.length_set ..) h.word (.inl rfl) ?_ ?_ ?_ ?_
        · simp [BreakerThread.Stage.holds, move, howner]
        · intro hfree
          exact absurd (hfree.symm.trans howner) nofun
        · refine ⟨_, TaskPool.getElem?_set_self_of_some hcaller _, ?_⟩
          rw [show ((atomic cfg).apply past op).1 = answer from hanswer]
          exact .leaving hb
        · intro j th c hji _ hc hst
          exact ⟨c, by rw [List.getElem?_set_ne (Ne.symm hji), hc], hst.same rfl rfl⟩
  | none =>
      simp only [access, hp, Option.some.injEq] at haccess
      subst haccess
      refine Matches.answered ?_ hstep (move_self hi) nofun
      refine h.set hi rfl rfl h.word (.inl rfl) ?_ ?_
        ⟨_, hcaller, .read (BreakerOp.not_isPoll_of_peek hp) hb⟩ ?_
      · simp [BreakerThread.Stage.holds, move, howner]
      · intro hfree
        exact absurd (hfree.symm.trans howner) nofun
      · exact fun j th c _ _ hc hst => ⟨c, hc, hst.same rfl rfl⟩

theorem Matches.commit {op : BreakerOp} {seen : List BreakerRuntime} (h : Matches cfg s t)
    (hi : s.threads[i]? = some thread) (hcaller : t.callers[i]? = some (.called op seen))
    (howner : s.owner = some i) (hthreads : s'.threads = s.threads.set i thread')
    (howner' : s'.owner = some i) (hholds : thread'.stage.holds = true)
    (hword : (t.object.apply cfg op).state = s'.state)
    (hstands : Stands cfg s' (t.object.apply cfg op) thread'
      (.committed op (t.object.answer cfg op))) : Matches cfg s' (committed cfg t i op) := by
  refine h.set hi hthreads ?_ hword (.inl (howner'.trans howner.symm)) ?_ ?_
    ⟨_, committed_self hcaller, hstands⟩ ?_
  · simp [committed]
  · simp [hholds, howner']
  · intro hfree
    exact absurd (hfree.symm.trans howner') nofun
  · intro j th c hji hj hc hst
    refine ⟨c.note (t.object.apply cfg op), ?_, ?_⟩
    · rw [committed_other hji, hc]
      rfl
    · exact hst.noted (h.outside (.inr howner) hji hj) (BreakerRuntime.apply_openUntil cfg _ op)

theorem Matches.access_read {op : BreakerOp} {state : StateWord} (h : Matches cfg s t)
    (hi : s.threads[i]? = some { op, stage := .read state })
    (hstep : s.step cfg (.access i) = some s') : Answered cfg s i s' t := by
  obtain ⟨caller, hcaller, hstand⟩ := h.stands i _ hi
  have howner : s.owner = some i := (h.owner i _ hi).mp rfl
  have haccess : s.access cfg i { op, stage := .read state } = some s' := by
    simpa [step, hi] using hstep
  cases hstand with
  | read hpoll hb =>
  obtain ⟨c, hc⟩ := op.critical_isSome cfg s.inner s.state hpoll
  have houtcome := BreakerOp.apply_of_critical hc
  rw [← hb] at houtcome
  cases c with
  | keep inner answer =>
      simp only [access, hc, Option.some.injEq] at haccess
      subst haccess
      obtain ⟨hanswer, happly⟩ := Prod.mk.inj houtcome
      refine Matches.answered_commit ?_ hcaller hstep (move_self hi) nofun
      refine h.commit hi hcaller howner rfl howner rfl ?_ ?_
      · rw [happly]
        rfl
      · rw [hanswer, happly]
        exact .leaving rfl
  | store first state' last answer =>
      simp only [access, hc, Option.some.injEq] at haccess
      subst haccess
      refine Matches.answered ?_ hstep (move_self hi) nofun
      refine h.set hi rfl rfl h.word (.inl rfl) ?_ ?_ ⟨_, hcaller, .storing houtcome⟩ ?_
      · simp [BreakerThread.Stage.holds, move, howner]
      · intro hfree
        exact absurd (hfree.symm.trans howner) nofun
      · exact fun j th c' hji hj hc' hst =>
          ⟨c', hc', hst.outside (h.outside (.inr howner) hji hj)⟩

/-- The write of the state word is where the operation is done. -/
theorem Matches.access_storing {op : BreakerOp} {state : StateWord} {last : Inner}
    {answer : BreakerAnswer} (h : Matches cfg s t)
    (hi : s.threads[i]? = some { op, stage := .storing state last answer })
    (hstep : s.step cfg (.access i) = some s') : Answered cfg s i s' t := by
  obtain ⟨caller, hcaller, hstand⟩ := h.stands i _ hi
  have howner : s.owner = some i := (h.owner i _ hi).mp rfl
  have haccess : s.access cfg i { op, stage := .storing state last answer } = some s' := by
    simpa [step, hi] using hstep
  cases hstand with
  | storing hdone =>
  simp only [access, Option.some.injEq] at haccess
  subst haccess
  obtain ⟨hanswer, happly⟩ := Prod.mk.inj hdone
  refine Matches.answered_commit ?_ hcaller hstep (move_self hi) nofun
  refine h.commit hi hcaller howner rfl howner rfl ?_ ?_
  · rw [happly]
    rfl
  · rw [hanswer, happly]
    exact .writing rfl

theorem Matches.access_writing {op : BreakerOp} {last : Inner} {answer : BreakerAnswer}
    (h : Matches cfg s t) (hi : s.threads[i]? = some { op, stage := .writing last answer })
    (hstep : s.step cfg (.access i) = some s') : Answered cfg s i s' t := by
  obtain ⟨caller, hcaller, hstand⟩ := h.stands i _ hi
  have howner : s.owner = some i := (h.owner i _ hi).mp rfl
  have haccess : s.access cfg i { op, stage := .writing last answer } = some s' := by
    simpa [step, hi] using hstep
  cases hstand with
  | writing hb =>
  simp only [access, Option.some.injEq] at haccess
  subst haccess
  refine Matches.answered ?_ hstep (move_self hi) nofun
  refine h.set hi rfl rfl h.word (.inl rfl) ?_ ?_ ⟨_, hcaller, .leaving hb⟩ ?_
  · simp [BreakerThread.Stage.holds, move, howner]
  · intro hfree
    exact absurd (hfree.symm.trans howner) nofun
  · exact fun j th c hji hj hc hst => ⟨c, hc, hst.outside (h.outside (.inr howner) hji hj)⟩

theorem Matches.access_leaving {op : BreakerOp} {answer : BreakerAnswer} (h : Matches cfg s t)
    (hi : s.threads[i]? = some { op, stage := .leaving answer })
    (hstep : s.step cfg (.access i) = some s') : Answered cfg s i s' t := by
  obtain ⟨caller, hcaller, hstand⟩ := h.stands i _ hi
  have howner : s.owner = some i := (h.owner i _ hi).mp rfl
  have haccess : s.access cfg i { op, stage := .leaving answer } = some s' := by
    simpa [step, hi] using hstep
  cases hstand with
  | leaving hb =>
  simp only [access, Option.some.injEq] at haccess
  subst haccess
  have hret := (atomic cfg).step_ret hcaller
  refine ⟨[.ret i], _, run_one hret, ?_, ?_⟩
  · rw [observe_cons [] hret, AtomicObject.event_ret hcaller, event_access hstep (move_self hi)]
    rfl
  · refine h.set hi rfl (List.length_set ..) h.word (.inr ⟨.inr howner, .inl rfl⟩) ?_
      (fun _ => hb) ⟨_, TaskPool.getElem?_set_self_of_some hcaller _, .returned⟩ ?_
    · simp [BreakerThread.Stage.holds]
    · intro j th c hji _ hc hst
      exact ⟨c, by rw [List.getElem?_set_ne (Ne.symm hji), hc], hst.same rfl rfl⟩

end Matching

theorem atomic_answers (cfg : BreakerConfig) :
    (atomic cfg).Answers (step cfg) (event cfg) (Matches cfg) := by
  intro s l s' t h hstep
  cases l with
  | call op =>
      cases hstep
      refine ⟨[.call op], _, rfl, ?_, h.call op⟩
      simp [observe, AtomicObject.step, AtomicObject.event, event, h.length]
  | access i =>
      have haccess := hstep
      simp only [step, Option.bind_eq_some_iff] at haccess
      obtain ⟨⟨op, stage⟩, hi, haccess⟩ := haccess
      cases stage with
      | called => exact h.access_called hi hstep
      | locking => exact h.access_locking hi hstep
      | locked => exact h.access_locked hi hstep
      | read state => exact h.access_read hi hstep
      | storing state last answer => exact h.access_storing hi hstep
      | writing last answer => exact h.access_writing hi hstep
      | leaving answer => exact h.access_leaving hi hstep
      | returned answer => cases haccess

end SharedBreaker

/-- However the threads that use a breaker interleave, access by access, their answers are
those of the operations done one at a time, in an order in which an operation that returned
before another was called comes first; and whenever the mutex is free, the breaker is what
that order makes of a new one. -/
theorem breaker_linearizable (cfg : BreakerConfig) (ls : List SharedBreaker.Label)
    (s : SharedBreaker) (hrun : run (SharedBreaker.step cfg) (.init cfg) ls = some s) :
    ∃ order,
      (BreakerRuntime.atomic cfg).Linearizes (.new cfg.trip)
        (observe (SharedBreaker.step cfg) (SharedBreaker.event cfg) (.init cfg) ls) order ∧
      (s.owner = none →
        s.inner.under s.state = BreakerRuntime.exec cfg (order.map Turn.op)) := by
  obtain ⟨order, t, hlinear, hobject, _, hmatches⟩ :=
    (SharedBreaker.atomic_answers cfg).linearizes (SharedBreaker.matches_init cfg) hrun
  refine ⟨order, hlinear, fun hfree => ?_⟩
  rw [← hmatches.free hfree, ← hobject, BreakerRuntime.perform_atomic]
  rfl

/-- A failure trips the breaker; a poll sees OPEN and is held up; a probe is let in and
succeeds; the poll finds the mutex free and the breaker closed, and answers HALF_OPEN, as
it was between its call and the probe. -/
def latePoll : List SharedBreaker.Label :=
  .call (.failure 0) :: List.replicate 7 (.access 0) ++
    [.call (.stateAt (40 * 10 ^ 9)), .access 1] ++
    .call (.gate (31 * 10 ^ 9)) :: List.replicate 7 (.access 2) ++
    .call (.success (32 * 10 ^ 9)) :: List.replicate 7 (.access 3) ++
    List.replicate 3 (.access 1)

def latePolled : SharedBreaker :=
  (run (SharedBreaker.step (.consecutiveFailures 1)) (.init (.consecutiveFailures 1))
    latePoll).get rfl

theorem breaker_linearizable_latePoll :
    observe (SharedBreaker.step (.consecutiveFailures 1))
        (SharedBreaker.event (.consecutiveFailures 1)) (.init (.consecutiveFailures 1)) latePoll =
      [.call 0 (.failure 0), .ret 0 (.recorded (some .open)), .call 1 (.stateAt (40 * 10 ^ 9)),
        .call 2 (.gate (31 * 10 ^ 9)), .ret 2 (.gated (.ok .halfOpen)),
        .call 3 (.success (32 * 10 ^ 9)), .ret 3 (.recorded (some .closed)),
        .ret 1 (.reported .halfOpen)] ∧
      latePolled.state = .closed ∧
      ∃ order, (BreakerRuntime.atomic (.consecutiveFailures 1)).Linearizes
        (.new (BreakerConfig.consecutiveFailures 1).trip)
        (observe (SharedBreaker.step (.consecutiveFailures 1))
          (SharedBreaker.event (.consecutiveFailures 1)) (.init (.consecutiveFailures 1)) latePoll)
        order := by
  obtain ⟨order, hlinear, _⟩ :=
    breaker_linearizable (.consecutiveFailures 1) latePoll latePolled rfl
  exact ⟨rfl, rfl, order, hlinear⟩

/-! ## Progress -/

def BreakerThread.left (thread : BreakerThread) : Nat :=
  match thread.stage with
  | .called => 7
  | .locking => 6
  | .locked => 5
  | .read _ => 4
  | .storing .. => 3
  | .writing .. => 2
  | .leaving _ => 1
  | .returned _ => 0

theorem BreakerThread.left_le (thread : BreakerThread) : thread.left ≤ 7 := by
  unfold left
  split <;> decide

namespace SharedBreaker

/-- The next access of a thread, as a step system of its own. -/
def goOn (cfg : BreakerConfig) (s : SharedBreaker) (i : Nat) : Option SharedBreaker :=
  s.step cfg (.access i)

section Progress

variable {cfg : BreakerConfig} {s s' : SharedBreaker} {i : Nat} {thread : BreakerThread}

theorem access_thread (h : s.access cfg i thread = some s') :
    ∃ thread', s'.threads = s.threads.set i thread' ∧ thread'.left < thread.left := by
  obtain ⟨op, stage⟩ := thread
  cases stage with
  | called =>
      simp only [access] at h
      split at h <;> cases h <;> exact ⟨_, rfl, by simp [BreakerThread.left]⟩
  | locking =>
      simp only [access] at h
      split at h
      · cases h
        exact ⟨_, rfl, by simp [BreakerThread.left]⟩
      · cases h
  | locked =>
      simp only [access] at h
      split at h <;> cases h <;> exact ⟨_, rfl, by simp [BreakerThread.left]⟩
  | read state =>
      simp only [access] at h
      split at h
      · cases h
        exact ⟨_, rfl, by simp [BreakerThread.left]⟩
      · cases h
        exact ⟨_, rfl, by simp [BreakerThread.left]⟩
      · cases h
  | storing state last answer =>
      cases h
      exact ⟨_, rfl, by simp [BreakerThread.left]⟩
  | writing last answer =>
      cases h
      exact ⟨_, rfl, by simp [BreakerThread.left]⟩
  | leaving answer =>
      cases h
      exact ⟨_, rfl, by simp [BreakerThread.left]⟩
  | returned answer => cases h

/-- The accesses thread `j` has left, in a state of them all. -/
def leftOf (s : SharedBreaker) (j : Nat) : Nat := (s.threads[j]?.map BreakerThread.left).getD 0

theorem leftOf_le (s : SharedBreaker) (j : Nat) : s.leftOf j ≤ 7 := by
  unfold leftOf
  cases s.threads[j]? with
  | none => exact Nat.zero_le 7
  | some thread => exact thread.left_le

theorem goOn_cases (h : s.goOn cfg i = some s') :
    ∃ thread thread', s.threads[i]? = some thread ∧ s'.threads = s.threads.set i thread' ∧
      thread'.left < thread.left := by
  simp only [goOn, step, Option.bind_eq_some_iff] at h
  obtain ⟨thread, hi, haccess⟩ := h
  obtain ⟨thread', hthreads, hleft⟩ := access_thread haccess
  exact ⟨thread, thread', hi, hthreads, hleft⟩

theorem goOn_total (h : s.goOn cfg i = some s') :
    TaskPool.total BreakerThread.left s'.threads < TaskPool.total BreakerThread.left s.threads := by
  obtain ⟨thread, thread', hi, hthreads, hleft⟩ := goOn_cases h
  have htotal := TaskPool.total_set BreakerThread.left hi thread'
  rw [hthreads]
  omega

/-- An access of thread `i` is taken off what `i` has left, and off nobody else's. -/
theorem goOn_leftOf (h : s.goOn cfg i = some s') (j : Nat) :
    (if i = j then 1 else 0) + s'.leftOf j ≤ s.leftOf j := by
  obtain ⟨thread, thread', hi, hthreads, hleft⟩ := goOn_cases h
  split
  · subst i
    have hj := TaskPool.getElem?_set_self_of_some hi thread'
    simp only [leftOf, hthreads, hj, hi, Option.map_some, Option.getD_some]
    omega
  · have hj : s'.threads[j]? = s.threads[j]? := by
      rw [hthreads]
      exact List.getElem?_set_ne ‹i ≠ j›
    simp [leftOf, hj]

theorem Matches.owner_goes_on {t : State BreakerRuntime BreakerOp BreakerAnswer}
    (h : Matches cfg s t) (howner : s.owner = some i) : s.goOn cfg i ≠ none := by
  have hlt := h.bounded i howner
  obtain ⟨⟨op, stage⟩, hi⟩ : ∃ thread, s.threads[i]? = some thread :=
    ⟨_, List.getElem?_eq_getElem hlt⟩
  have hholds := (h.owner i _ hi).mpr howner
  obtain ⟨caller, _, hstand⟩ := h.stands i _ hi
  simp only [goOn, step, hi, Option.bind_some]
  cases hstand with
  | called | locking | returned => cases hholds
  | locked =>
      simp only [access]
      split <;> simp
  | read hpoll =>
      obtain ⟨c, hc⟩ := op.critical_isSome cfg s.inner s.state hpoll
      cases c <;> simp [access, hc]
  | storing | writing | leaving => simp [access]

theorem Matches.free_goes_on {t : State BreakerRuntime BreakerOp BreakerAnswer}
    (h : Matches cfg s t) (hfree : s.owner = none) (hi : s.threads[i]? = some thread)
    (hopen : ∀ answer, thread.stage ≠ .returned answer) : s.goOn cfg i ≠ none := by
  obtain ⟨op, stage⟩ := thread
  have hout : stage.holds = false := by
    have hiff := h.owner i _ hi
    simpa [hfree] using hiff
  simp only [goOn, step, hi, Option.bind_some]
  cases stage with
  | called =>
      simp only [access]
      split <;> simp
  | locking => simp [access, hfree]
  | returned answer => exact absurd rfl (hopen answer)
  | locked | read | storing | writing | leaving => cases hout

theorem Matches.all_returned {t : State BreakerRuntime BreakerOp BreakerAnswer}
    (h : Matches cfg s t) (hstuck : ∀ i, s.goOn cfg i = none) :
    ∀ thread ∈ s.threads, ∃ answer, thread.stage = .returned answer := by
  intro thread hmem
  obtain ⟨i, hi⟩ := List.getElem?_of_mem hmem
  cases howner : s.owner with
  | some j => exact absurd (hstuck j) (h.owner_goes_on howner)
  | none =>
      by_contra hopen
      exact h.free_goes_on howner hi (not_exists.mp hopen) (hstuck i)

theorem Matches.goOn {t : State BreakerRuntime BreakerOp BreakerAnswer}
    (h : Matches cfg s t) (hstep : s.goOn cfg i = some s') : ∃ t', Matches cfg s' t' := by
  obtain ⟨_, t', _, _, h'⟩ := atomic_answers cfg s (.access i) s' t h hstep
  exact ⟨t', h'⟩

end Progress

end SharedBreaker

/-- Threads that use a breaker never block each other for good: from any point of any run
on, whichever threads go on in whichever order, each of them has seven accesses to make at
most, and when none of them can go on all have returned. -/
theorem breaker_never_blocks (cfg : BreakerConfig) (ls : List SharedBreaker.Label)
    (s : SharedBreaker) (hrun : run (SharedBreaker.step cfg) (.init cfg) ls = some s)
    (is : List Nat) (s' : SharedBreaker) (hon : run (SharedBreaker.goOn cfg) s is = some s') :
    (∀ i, is.count i ≤ 7) ∧ is.length ≤ 7 * s.threads.length ∧
      ((∀ i, s'.goOn cfg i = none) →
        ∀ thread ∈ s'.threads, ∃ answer, thread.stage = .returned answer) := by
  obtain ⟨_, t, _, _, _, hmatches⟩ :=
    (SharedBreaker.atomic_answers cfg).linearizes (SharedBreaker.matches_init cfg) hrun
  refine ⟨fun i => ?_, ?_, ?_⟩
  · have hcount := countP_le (p := fun j => j == i) (I := fun _ => True)
      (fun _ _ _ _ h => ⟨trivial, by simpa using SharedBreaker.goOn_leftOf h i⟩) trivial hon
    have hbound := SharedBreaker.leftOf_le s i
    rw [List.count]
    omega
  · have hlength := length_le (I := fun _ => True)
      (fun _ _ _ _ h => ⟨trivial, SharedBreaker.goOn_total h⟩) trivial hon
    have hbound := TaskPool.total_le BreakerThread.left_le s.threads
    omega
  · obtain ⟨t', hmatches'⟩ : ∃ t', SharedBreaker.Matches cfg s' t' :=
      invariant_of_step (I := fun s => ∃ t, SharedBreaker.Matches cfg s t)
        (fun _ _ _ ⟨_, h⟩ hstep => h.goOn hstep) ⟨t, hmatches⟩ hon
    exact hmatches'.all_returned

theorem breaker_never_blocks_latePoll :
    [1, 1, 1].count 1 ≤ 7 ∧ (3 : Nat) ≤ 7 * 4 ∧
      ∀ thread ∈ latePolled.threads, ∃ answer, thread.stage = .returned answer := by
  obtain ⟨pending, hpending⟩ : ∃ s, run (SharedBreaker.step (.consecutiveFailures 1))
      (.init (.consecutiveFailures 1)) (latePoll.take 26) = some s ∧
      s.threads.length = 4 ∧
      run (SharedBreaker.goOn (.consecutiveFailures 1)) s [1, 1, 1] = some latePolled :=
    ⟨_, rfl, rfl, rfl⟩
  obtain ⟨heach, hbound, hreturned⟩ := breaker_never_blocks (.consecutiveFailures 1)
    (latePoll.take 26) pending hpending.1 [1, 1, 1] latePolled hpending.2.2
  rw [hpending.2.1] at hbound
  refine ⟨heach 1, hbound, hreturned fun i => ?_⟩
  rcases Nat.lt_or_ge i 4 with hi | hi
  · interval_cases i <;> rfl
  · have hnone : latePolled.threads[i]? = none := List.getElem?_eq_none hi
    simp [SharedBreaker.goOn, SharedBreaker.step, hnone]

end ExecutionPolicy
