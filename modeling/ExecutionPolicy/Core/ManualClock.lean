import ExecutionPolicy.Foundation.StepSystem
import ExecutionPolicy.Foundation.TaskPool

/-! # The manual clock

`ManualClock` with the sleeps on it, driven from any number of threads. A poll of a sleep
locks the clock twice, once to read it and once to register its waker; `advance` takes out
the wakers it has crossed under the lock and invokes them after it. A step is one of these.
A poll comes with the waker of its context, and polls of one sleep may come with different
ones; an entry of the clock's list also names the sleep it was made for.
-/

namespace ExecutionPolicy

open StepSystem

inductive ManualSleep.Stage where
  | created
  /-- Its poll has read the clock and is about to register. -/
  | checked
  | pending
  | ready
  | dropped
deriving DecidableEq, Repr

structure ManualSleep where
  deadline : Nat
  stage : ManualSleep.Stage
  waker : Nat
  registered : List Nat
  /-- The waker of its latest poll was invoked for it since that poll began. -/
  woken : Bool
deriving DecidableEq, Repr

/-- `TestCore::sleep` makes it. -/
def ManualSleep.new (deadline : Nat) : ManualSleep :=
  { deadline, stage := .created, waker := 0, registered := [], woken := false }

structure WakerEntry where
  deadline : Nat
  sleep : Nat
  waker : Nat
deriving DecidableEq, Repr

/-- The clock's state behind its mutex, the sleeps made on it and, for each call of
`advance`, the entries whose wakers it still has to invoke. -/
structure ManualClock where
  base : Nat
  offset : Nat
  wakers : List WakerEntry
  sleeps : List ManualSleep
  advances : List (List WakerEntry)
deriving DecidableEq, Repr

namespace ManualClock

inductive Label where
  | sleep (dur : Nat)
  /-- The first lock of a poll of sleep `i`, under `waker`. -/
  | poll (i waker : Nat)
  /-- The second lock of a poll, which returns `Pending`. -/
  | register (i : Nat)
  | drop (i : Nat)
  | advance (dur : Nat)
  | wake (a : Nat)
deriving DecidableEq, Repr

def new (base : Nat) : ManualClock :=
  { base, offset := 0, wakers := [], sleeps := [], advances := [] }

def now (c : ManualClock) : Nat := c.base + c.offset

def withSleep (c : ManualClock) (i : Nat) (z : ManualSleep) : ManualClock :=
  { c with sleeps := c.sleeps.set i z }

/-- What `advance` does under the lock. -/
def advanced (c : ManualClock) (dur : Nat) : ManualClock :=
  let now := c.offset + dur
  { c with
    offset := now
    wakers := c.wakers.filter fun w => now < w.deadline
    advances := c.advances ++ [c.wakers.filter fun w => w.deadline ≤ now] }

/-- `ManualSleep::poll` up to its second lock. -/
def checked (c : ManualClock) (i waker : Nat) (z : ManualSleep) : ManualClock :=
  c.withSleep i
    { z with
      stage := if z.deadline ≤ c.offset then .ready else .checked, waker, woken := false }

def registered (c : ManualClock) (i : Nat) (z : ManualSleep) : ManualClock :=
  { c.withSleep i { z with stage := .pending, registered := z.waker :: z.registered } with
    wakers := c.wakers ++ [⟨z.deadline, i, z.waker⟩] }

/-- A waker that a later poll has replaced is no longer the sleep's. -/
def invoked (c : ManualClock) (w : WakerEntry) : ManualClock :=
  match c.sleeps[w.sleep]? with
  | some z => c.withSleep w.sleep { z with woken := z.woken || decide (w.waker = z.waker) }
  | none => c

/-- The effect of `TestCore::sleep` on the clock's sleeps. -/
def slept (c : ManualClock) (dur : Nat) : ManualClock :=
  { c with sleeps := c.sleeps ++ [.new (c.offset + dur)] }

/-- One step; a sleep is polled neither twice at a time nor after it is ready. -/
def step (c : ManualClock) : Label → Option ManualClock
  | .sleep dur => some (c.slept dur)
  | .poll i waker =>
      c.sleeps[i]?.bind fun z =>
        if z.stage = .created ∨ z.stage = .pending then some (c.checked i waker z) else none
  | .register i =>
      c.sleeps[i]?.bind fun z => if z.stage = .checked then some (c.registered i z) else none
  | .drop i =>
      c.sleeps[i]?.bind fun z =>
        if z.stage = .created ∨ z.stage = .pending then
          some (c.withSleep i { z with stage := .dropped })
        else none
  | .advance dur => some (c.advanced dur)
  | .wake a =>
      match c.advances[a]? with
      | some (w :: rest) => some ({ c with advances := c.advances.set a rest }.invoked w)
      | _ => none

/-- A call of `advance` is about to invoke `waker` for sleep `i`. -/
def OnItsWay (c : ManualClock) (i waker : Nat) : Prop :=
  ∃ ready ∈ c.advances, ∃ w ∈ ready, w.sleep = i ∧ w.waker = waker

/-- The waker of its latest poll was invoked for it since that poll began, or is about to
be. -/
def Reached (c : ManualClock) (i : Nat) (z : ManualSleep) : Prop :=
  z.woken = true ∨ c.OnItsWay i z.waker

/-- A pending sleep whose deadline has passed has been reached. -/
def NoLostWakeUp (c : ManualClock) : Prop :=
  ∀ i z, c.sleeps[i]? = some z → z.stage = .pending → z.deadline ≤ c.offset → c.Reached i z

/-- A waker that the sleep has not registered before is registered before the clock crosses
its deadline. -/
def RegistersInTime (c : ManualClock) : Label → Prop
  | .register i => ∀ z ∈ c.sleeps[i]?, z.waker ∈ z.registered ∨ c.offset < z.deadline
  | _ => True

instance decidableRegistersInTime (c : ManualClock) :
    (l : Label) → Decidable (c.RegistersInTime l)
  | .register i => inferInstanceAs (Decidable (∀ z ∈ c.sleeps[i]?, _))
  | .sleep _ | .poll _ _ | .drop _ | .advance _ | .wake _ => .isTrue trivial

/-! ## What holds of a sleep at any moment -/

structure Kept (c : ManualClock) (i : Nat) (z : ManualSleep) : Prop where
  /-- Nobody is woken early, or through a waker that was not registered. -/
  woken : z.woken = true → z.waker ∈ z.registered ∧ z.deadline ≤ c.offset
  called : ∀ w, c.OnItsWay i w → w ∈ z.registered ∧ z.deadline ≤ c.offset
  entry : ∀ e ∈ c.wakers, e.sleep = i → e.waker ∈ z.registered ∧ e.deadline = z.deadline
  ready : z.stage = .ready → z.deadline ≤ c.offset
  created : z.stage = .created → z.registered = []
  pending : z.stage = .pending → z.waker ∈ z.registered
  uncrossed : c.offset < z.deadline → ∀ w ∈ z.registered, ⟨z.deadline, i, w⟩ ∈ c.wakers
  listed : z.stage = .pending → ⟨z.deadline, i, z.waker⟩ ∈ c.wakers ∨ c.Reached i z
  /-- A later poll under the same waker does not outrun the wake-up already asked for. -/
  overtaken : z.stage = .checked → z.waker ∈ z.registered → z.deadline ≤ c.offset →
    c.Reached i z

theorem Kept.reached {c : ManualClock} {i : Nat} {z : ManualSleep} (h : c.Kept i z)
    (hr : c.Reached i z) : z.waker ∈ z.registered ∧ z.deadline ≤ c.offset :=
  hr.elim h.woken (h.called z.waker)

/-- All sleeps are kept, and every entry is the entry of a sleep. -/
structure Sound (c : ManualClock) : Prop where
  kept : ∀ i z, c.sleeps[i]? = some z → c.Kept i z
  known : ∀ e ∈ c.wakers, e.sleep < c.sleeps.length
  onItsWay : ∀ i w, c.OnItsWay i w → i < c.sleeps.length

theorem sound_new (base : Nat) : (new base).Sound := by
  refine ⟨fun i z h => ?_, fun e h => ?_, fun i w h => ?_⟩
  · simp [new] at h
  · simp [new] at h
  · obtain ⟨ready, h, _⟩ := h
    simp [new] at h

/-- Of the clock and its advances a sleep sees the offset, its own entries and its own
wake-ups. -/
theorem Kept.of_eq {c : ManualClock} {i : Nat} {z : ManualSleep} (h : c.Kept i z)
    (c' : ManualClock) (ho : c'.offset = c.offset)
    (hw : ∀ e : WakerEntry, e.sleep = i → (e ∈ c'.wakers ↔ e ∈ c.wakers))
    (hc : ∀ w, c'.OnItsWay i w ↔ c.OnItsWay i w) : c'.Kept i z where
  woken := by simpa [ho] using h.woken
  called w hway := by simpa [ho] using h.called w ((hc w).mp hway)
  entry e he hi := h.entry e ((hw e hi).mp he) hi
  ready := by simpa [ho] using h.ready
  created := h.created
  pending := h.pending
  uncrossed hlt w hmem := (hw _ rfl).mpr (h.uncrossed (ho ▸ hlt) w hmem)
  listed hpend := by simpa [Reached, hc, hw] using h.listed hpend
  overtaken hchk hmem := by simpa [Reached, hc, ho] using h.overtaken hchk hmem

theorem Sound.withSleep {c : ManualClock} (h : c.Sound) {i : Nat} {z : ManualSleep}
    (hz : c.Kept i z) : (c.withSleep i z).Sound where
  kept j y hy := by
    obtain ⟨rfl, rfl⟩ | ⟨_, hy⟩ := TaskPool.getElem?_set_cases hy
    · exact hz.of_eq (c.withSleep i y) rfl (fun _ _ => Iff.rfl) fun _ => Iff.rfl
    · exact (h.kept j y hy).of_eq (c.withSleep i z) rfl (fun _ _ => Iff.rfl) fun _ => Iff.rfl
  known e he := by simpa [ManualClock.withSleep] using h.known e he
  onItsWay j w hj := by simpa [ManualClock.withSleep] using h.onItsWay j w hj

/-! ## The steps -/

theorem kept_checked {c : ManualClock} {i : Nat} {z : ManualSleep} (h : c.Kept i z)
    (waker : Nat) : c.Kept i { z with
      stage := if z.deadline ≤ c.offset then .ready else .checked, waker, woken := false } where
  woken hw := by cases hw
  called := h.called
  entry := h.entry
  ready hz := by
    split at hz
    · assumption
    · cases hz
  created hz := by
    split at hz <;> cases hz
  pending hz := by
    split at hz <;> cases hz
  uncrossed := h.uncrossed
  listed hz := by
    split at hz <;> cases hz
  overtaken hz _ hle := by
    split at hz
    · cases hz
    · contradiction

theorem kept_dropped {c : ManualClock} {i : Nat} {z : ManualSleep} (h : c.Kept i z) :
    c.Kept i { z with stage := .dropped } where
  woken := h.woken
  called := h.called
  entry := h.entry
  ready := nofun
  created := nofun
  pending := nofun
  uncrossed := h.uncrossed
  listed := nofun
  overtaken := nofun

theorem mem_wakers_registered {c : ManualClock} {i : Nat} {z : ManualSleep} {e : WakerEntry} :
    e ∈ (c.registered i z).wakers ↔ e ∈ c.wakers ∨ e = ⟨z.deadline, i, z.waker⟩ := by
  simp [registered, withSleep]

theorem sound_registered {c : ManualClock} (h : c.Sound) {i : Nat} {z : ManualSleep}
    (hi : c.sleeps[i]? = some z) : (c.registered i z).Sound where
  kept j y hy := by
    obtain ⟨rfl, rfl⟩ | ⟨hij, hy⟩ := TaskPool.getElem?_set_cases hy
    · have hz := h.kept i z hi
      exact {
        woken := fun hw => ⟨List.mem_cons_self, (hz.woken hw).2⟩
        called := fun w hw => ⟨List.mem_cons_of_mem _ (hz.called w hw).1, (hz.called w hw).2⟩
        entry := fun e he hsleep => by
          rcases mem_wakers_registered.mp he with he | rfl
          · have hold := hz.entry e he hsleep
            exact ⟨List.mem_cons_of_mem _ hold.1, hold.2⟩
          · exact ⟨List.mem_cons_self, rfl⟩
        ready := nofun
        created := nofun
        pending := fun _ => List.mem_cons_self
        uncrossed := fun hlt w hw => mem_wakers_registered.mpr <| by
          rcases List.mem_cons.mp hw with rfl | hw
          · exact .inr rfl
          · exact .inl (hz.uncrossed hlt w hw)
        listed := fun _ => .inl (mem_wakers_registered.mpr (.inr rfl))
        overtaken := nofun }
    · refine (h.kept j y hy).of_eq (c.registered i z) rfl (fun e he => ?_) fun _ => Iff.rfl
      refine mem_wakers_registered.trans (or_iff_left ?_)
      rintro rfl
      exact hij he
  known e he := by
    have hlt : i < c.sleeps.length := (List.getElem?_eq_some_iff.mp hi).1
    rcases mem_wakers_registered.mp he with he | rfl
    · simpa [registered, withSleep] using h.known e he
    · simpa [registered, withSleep] using hlt
  onItsWay j w hj := by simpa [registered, withSleep] using h.onItsWay j w hj

/-- An advance calls who is in its list with a deadline it crosses, and nobody else anew. -/
theorem onItsWay_advanced {c : ManualClock} {dur i w : Nat} :
    (c.advanced dur).OnItsWay i w ↔ c.OnItsWay i w ∨
      ∃ e ∈ c.wakers, e.deadline ≤ c.offset + dur ∧ e.sleep = i ∧ e.waker = w := by
  simp only [OnItsWay, advanced, List.mem_append, List.mem_singleton]
  constructor
  · rintro ⟨ready, hready | rfl, e, he, hew⟩
    · exact .inl ⟨ready, hready, e, he, hew⟩
    · have hmem := List.mem_filter.mp he
      exact .inr ⟨e, hmem.1, by simpa using hmem.2, hew⟩
  · rintro (⟨ready, hready, hi⟩ | ⟨e, he, hd, hew⟩)
    · exact ⟨ready, .inl hready, hi⟩
    · exact ⟨_, .inr rfl, e, List.mem_filter.mpr ⟨he, by simpa using hd⟩, hew⟩

theorem mem_wakers_advanced {c : ManualClock} {dur : Nat} {e : WakerEntry} :
    e ∈ (c.advanced dur).wakers ↔ e ∈ c.wakers ∧ c.offset + dur < e.deadline := by
  simp [advanced, List.mem_filter]

theorem kept_advanced {c : ManualClock} {i : Nat} {z : ManualSleep} (h : c.Kept i z)
    (dur : Nat) : (c.advanced dur).Kept i z := by
  have hlater : c.offset ≤ (c.advanced dur).offset := Nat.le_add_right _ _
  have hmono : c.Reached i z → (c.advanced dur).Reached i z :=
    Or.imp_right fun hway => onItsWay_advanced.mpr (.inl hway)
  have hentry : ⟨z.deadline, i, z.waker⟩ ∈ c.wakers →
      ⟨z.deadline, i, z.waker⟩ ∈ (c.advanced dur).wakers ∨ (c.advanced dur).Reached i z := by
    intro he
    rcases Nat.lt_or_ge (c.offset + dur) z.deadline with hlt | hge
    · exact .inl (mem_wakers_advanced.mpr ⟨he, hlt⟩)
    · exact .inr (.inr (onItsWay_advanced.mpr (.inr ⟨_, he, hge, rfl, rfl⟩)))
  constructor
  · intro hw
    exact ⟨(h.woken hw).1, (h.woken hw).2.trans hlater⟩
  · -- an old wake-up, or one that this very advance decides on
    intro w hway
    rcases onItsWay_advanced.mp hway with hway | ⟨e, he, hd, hsleep, rfl⟩
    · exact ⟨(h.called w hway).1, (h.called w hway).2.trans hlater⟩
    · have hold := h.entry e he hsleep
      exact ⟨hold.1, hold.2 ▸ hd⟩
  · exact fun e he => h.entry e (mem_wakers_advanced.mp he).1
  · exact fun hz => (h.ready hz).trans hlater
  · exact h.created
  · exact h.pending
  · exact fun hlt w hw =>
      mem_wakers_advanced.mpr ⟨h.uncrossed (hlater.trans_lt hlt) w hw, hlt⟩
  · exact fun hpend => (h.listed hpend).elim hentry fun hr => .inr (hmono hr)
  · intro hchk hmem hle
    rcases Nat.lt_or_ge c.offset z.deadline with hlt | hge
    · rcases hentry (h.uncrossed hlt z.waker hmem) with hlisted | hr
      · exact absurd hle (Nat.not_le.mpr (mem_wakers_advanced.mp hlisted).2)
      · exact hr
    · exact hmono (h.overtaken hchk hmem hge)

theorem onItsWay_popped {c : ManualClock} {a : Nat} {e : WakerEntry} {rest : List WakerEntry}
    (ha : c.advances[a]? = some (e :: rest)) (j w : Nat) :
    c.OnItsWay j w ↔ e.sleep = j ∧ e.waker = w ∨
      { c with advances := c.advances.set a rest }.OnItsWay j w := by
  have hlt : a < c.advances.length := (List.getElem?_eq_some_iff.mp ha).1
  constructor
  · rintro ⟨ready, hready, e', he', hew⟩
    obtain ⟨k, hk⟩ := List.getElem?_of_mem hready
    by_cases hak : a = k
    · subst hak
      obtain rfl : e :: rest = ready := by simpa [ha] using hk
      rcases List.mem_cons.mp he' with rfl | he'
      · exact .inl hew
      · exact .inr ⟨rest, List.mem_set hlt rest, e', he', hew⟩
    · have hk' : (c.advances.set a rest)[k]? = some ready := by
        rw [List.getElem?_set_ne hak]
        exact hk
      exact .inr ⟨ready, List.mem_of_getElem? hk', e', he', hew⟩
  · rintro (hew | ⟨ready, hready, e', he', hew⟩)
    · exact ⟨_, List.mem_of_getElem? ha, e, List.mem_cons_self, hew⟩
    · rcases List.mem_or_eq_of_mem_set hready with hready | rfl
      · exact ⟨ready, hready, e', he', hew⟩
      · exact ⟨_, List.mem_of_getElem? ha, e', List.mem_cons_of_mem _ he', hew⟩

section Invoking

variable {c c' : ManualClock} {e : WakerEntry}

/-- Invoking a waker that is on its way takes no wake-up from the sleep it is meant for. -/
theorem reached_invoked (hway : ∀ j w, c.OnItsWay j w ↔
      e.sleep = j ∧ e.waker = w ∨ c'.OnItsWay j w) (z : ManualSleep) :
    c'.Reached e.sleep { z with woken := z.woken || decide (e.waker = z.waker) } ↔
      c.Reached e.sleep z := by
  simp only [Reached, hway, Bool.or_eq_true, decide_eq_true_eq, true_and]
  tauto

theorem kept_invoked {z : ManualSleep} (h : c.Kept e.sleep z) (ho : c'.offset = c.offset)
    (hw : c'.wakers = c.wakers) (hway : ∀ j w, c.OnItsWay j w ↔
      e.sleep = j ∧ e.waker = w ∨ c'.OnItsWay j w) :
    c'.Kept e.sleep { z with woken := z.woken || decide (e.waker = z.waker) } where
  woken hwoken := by
    rw [ho]
    exact h.reached ((reached_invoked hway z).mp (.inl hwoken))
  called w hw' := by
    rw [ho]
    exact h.called w ((hway _ w).mpr (.inr hw'))
  entry := by simpa [hw] using h.entry
  ready := by simpa [ho] using h.ready
  created := h.created
  pending := h.pending
  uncrossed := by simpa [ho, hw] using h.uncrossed
  listed hpend := by
    rw [hw, reached_invoked hway z]
    exact h.listed hpend
  overtaken hchk hmem hle := by
    rw [reached_invoked hway z]
    exact h.overtaken hchk hmem (ho ▸ hle)

theorem sound_invoked (h : c.Sound) (ho : c'.offset = c.offset) (hw : c'.wakers = c.wakers)
    (hsleeps : c'.sleeps = c.sleeps) (hway : ∀ j w, c.OnItsWay j w ↔
      e.sleep = j ∧ e.waker = w ∨ c'.OnItsWay j w) : (c'.invoked e).Sound := by
  have hlt := h.onItsWay e.sleep e.waker ((hway _ _).mpr (.inl ⟨rfl, rfl⟩))
  obtain ⟨z, hz⟩ : ∃ z, c.sleeps[e.sleep]? = some z := ⟨_, List.getElem?_eq_getElem hlt⟩
  simp only [invoked, hsleeps, hz]
  refine ⟨fun j y hy => ?_, fun d hd => ?_, fun j w hj => ?_⟩
  · rw [withSleep, hsleeps] at hy
    obtain ⟨rfl, rfl⟩ | ⟨hij, hy⟩ := TaskPool.getElem?_set_cases hy
    · exact (kept_invoked (h.kept e.sleep z hz) ho hw hway).of_eq _ rfl
        (fun _ _ => Iff.rfl) fun _ => Iff.rfl
    · refine (h.kept j y hy).of_eq _ ho (fun _ _ => by simp [withSleep, hw]) fun w => ?_
      rw [hway j w]
      exact (or_iff_right fun heq => hij heq.1).symm
  · simpa [withSleep, hsleeps] using h.known d (hw ▸ hd)
  · simpa [withSleep, hsleeps] using h.onItsWay j w ((hway j w).mpr (.inr hj))

theorem noLostWakeUp_invoked (hn : c.NoLostWakeUp) (ho : c'.offset = c.offset)
    (hsleeps : c'.sleeps = c.sleeps) (hway : ∀ j w, c.OnItsWay j w ↔
      e.sleep = j ∧ e.waker = w ∨ c'.OnItsWay j w) : (c'.invoked e).NoLostWakeUp := by
  have hstill : ∀ j y, e.sleep ≠ j → c.sleeps[j]? = some y → y.stage = .pending →
      y.deadline ≤ c'.offset → c'.Reached j y := by
    intro j y hij hy hpend hdue
    refine (hn j y hy hpend (ho ▸ hdue)).imp_right fun hj => ?_
    exact ((hway j y.waker).mp hj).resolve_left fun heq => hij heq.1
  unfold invoked
  split
  · rename_i z hz
    intro j y hy hpend hdue
    obtain ⟨rfl, rfl⟩ | ⟨hij, hy⟩ := TaskPool.getElem?_set_cases hy
    · exact (reached_invoked hway z).mpr (hn e.sleep z (hsleeps ▸ hz) hpend (ho ▸ hdue))
    · exact hstill j y hij (hsleeps ▸ hy) hpend hdue
  · rename_i hnone
    intro j y hy hpend hdue
    refine hstill j y ?_ (hsleeps ▸ hy) hpend hdue
    rintro rfl
    rw [hnone] at hy
    cases hy

end Invoking

theorem sound_slept {c : ManualClock} (h : c.Sound) (dur : Nat) :
    (c.slept dur).Sound where
  kept j y hy := by
    obtain ⟨rfl, rfl⟩ | hy := TaskPool.getElem?_snoc_cases hy
    · exact {
        woken := nofun
        called := fun w hway => absurd (h.onItsWay _ w hway) (Nat.lt_irrefl _)
        entry := fun e he hsleep => absurd (h.known e he) (by simp [hsleep])
        ready := nofun
        created := fun _ => rfl
        pending := nofun
        uncrossed := nofun
        listed := nofun
        overtaken := nofun }
    · exact (h.kept j y hy).of_eq (c.slept dur) rfl (fun _ _ => Iff.rfl) fun _ => Iff.rfl
  known e he := by
    have hlt := h.known e he
    simp only [slept, List.length_append, List.length_singleton]
    omega
  onItsWay j w hj := by
    have hlt := h.onItsWay j w hj
    simp only [slept, List.length_append, List.length_singleton]
    omega

theorem bind_ite_some {o : Option ManualSleep} {p : ManualSleep → Prop} [DecidablePred p]
    {f : ManualSleep → ManualClock} {c : ManualClock}
    (h : (o.bind fun z => if p z then some (f z) else none) = some c) :
    ∃ z, o = some z ∧ p z ∧ f z = c := by
  obtain ⟨z, hz, hif⟩ := Option.bind_eq_some_iff.mp h
  split at hif
  · exact ⟨z, hz, ‹p z›, Option.some.inj hif⟩
  · cases hif

theorem sound_step (c : ManualClock) (l : Label) (c' : ManualClock) (h : c.Sound)
    (hs : c.step l = some c') : c'.Sound := by
  cases l with
  | sleep dur =>
      cases hs
      exact sound_slept h _
  | poll i waker =>
      obtain ⟨z, hz, _, rfl⟩ := bind_ite_some hs
      exact h.withSleep (kept_checked (h.kept i z hz) waker)
  | register i =>
      obtain ⟨z, hz, _, rfl⟩ := bind_ite_some hs
      exact sound_registered h hz
  | drop i =>
      obtain ⟨z, hz, _, rfl⟩ := bind_ite_some hs
      exact h.withSleep (kept_dropped (h.kept i z hz))
  | advance dur =>
      cases hs
      refine ⟨fun i z hz => kept_advanced (h.kept i z hz) dur, fun e he => ?_,
        fun i w hi => ?_⟩
      · exact h.known e (mem_wakers_advanced.mp he).1
      · rcases onItsWay_advanced.mp hi with hway | ⟨e, he, _, rfl, _⟩
        · exact h.onItsWay i w hway
        · exact h.known e he
  | wake a =>
      simp only [step] at hs
      split at hs
      · rename_i w rest ha
        cases hs
        exact sound_invoked h rfl rfl rfl (onItsWay_popped ha)
      · cases hs

/-! ## When a wake-up is lost -/

theorem NoLostWakeUp.withSleep {c : ManualClock} (h : c.NoLostWakeUp) {i : Nat} {z : ManualSleep}
    (hz : z.stage ≠ .pending) : (c.withSleep i z).NoLostWakeUp := by
  intro j y hy hpend hdue
  obtain ⟨rfl, rfl⟩ | ⟨_, hy⟩ := TaskPool.getElem?_set_cases hy
  · exact absurd hpend hz
  · exact h j y hy hpend hdue

/-- Whatever was lost before, `advance` reaches everybody who is due. -/
theorem noLostWakeUp_advanced {c : ManualClock} (h : c.Sound) (dur : Nat) :
    (c.advanced dur).NoLostWakeUp := by
  intro i z hz hpend hdue
  rcases (kept_advanced (h.kept i z hz) dur).listed hpend with he | hreached
  · exact absurd hdue (Nat.not_le.mpr (mem_wakers_advanced.mp he).2)
  · exact hreached

/-- A poll that registers a new waker too late is the one that loses a wake-up: the list it
enters has been gone through. -/
theorem noLostWakeUp_registered {c : ManualClock} (h : c.Sound) (hn : c.NoLostWakeUp)
    {i : Nat} {z : ManualSleep} (hi : c.sleeps[i]? = some z) (hstage : z.stage = .checked) :
    (c.registered i z).NoLostWakeUp ↔ z.waker ∈ z.registered ∨ c.offset < z.deadline := by
  have hkept := h.kept i z hi
  constructor
  · intro hall
    rcases Nat.lt_or_ge c.offset z.deadline with hlt | hge
    · exact .inr hlt
    · have hself := TaskPool.getElem?_set_self_of_some hi
        { z with stage := .pending, registered := z.waker :: z.registered }
      have hreached : c.Reached i
          { z with stage := .pending, registered := z.waker :: z.registered } :=
        hall i _ hself rfl hge
      exact .inl (hkept.reached hreached).1
  · intro hcond j y hy hpend hdue
    obtain ⟨rfl, rfl⟩ | ⟨_, hy⟩ := TaskPool.getElem?_set_cases hy
    · rcases hcond with hreg | hlt
      · exact hkept.overtaken hstage hreg hdue
      · exact absurd hdue (Nat.not_le.mpr hlt)
    · exact hn j y hy hpend hdue

theorem noLostWakeUp_step (c : ManualClock) (l : Label) (c' : ManualClock) (h : c.Sound)
    (hn : c.NoLostWakeUp) (hs : c.step l = some c') :
    c'.NoLostWakeUp ↔ c.RegistersInTime l := by
  cases l with
  | sleep dur =>
      cases hs
      refine iff_of_true (fun i z hz hpend hdue => ?_) trivial
      obtain ⟨rfl, rfl⟩ | hz := TaskPool.getElem?_snoc_cases hz
      · cases hpend
      · exact hn i z hz hpend hdue
  | poll i waker =>
      obtain ⟨z, hz, hstage, rfl⟩ := bind_ite_some hs
      refine iff_of_true (hn.withSleep ?_) trivial
      split <;> nofun
  | register i =>
      obtain ⟨z, hz, hstage, rfl⟩ := bind_ite_some hs
      simpa [RegistersInTime, hz] using noLostWakeUp_registered h hn hz hstage
  | drop i =>
      obtain ⟨z, hz, _, rfl⟩ := bind_ite_some hs
      exact iff_of_true (hn.withSleep nofun) trivial
  | advance dur =>
      cases hs
      exact iff_of_true (noLostWakeUp_advanced h dur) trivial
  | wake a =>
      simp only [step] at hs
      split at hs
      · rename_i w rest ha
        cases hs
        exact iff_of_true (noLostWakeUp_invoked hn rfl rfl (onItsWay_popped ha)) trivial
      · cases hs

theorem noLostWakeUp_new (base : Nat) : (new base).NoLostWakeUp := by
  intro i z hz
  simp [new] at hz

/-- The two locks of a poll leave a gap: the sleeps of a clock are all woken in time, each
through the waker of its latest poll, exactly in the runs in which no `advance` past its
deadline overtakes a sleep that is about to register a waker it has not registered before. -/
theorem sleeps_wake_iff (base : Nat) (ls : List Label) (c : ManualClock)
    (h : run step (new base) ls = some c) :
    Throughout step NoLostWakeUp (new base) ls ↔ Obeys step RegistersInTime (new base) ls :=
  throughout_iff_obeys sound_step noLostWakeUp_step (sound_new base) (noLostWakeUp_new base) h

/-- The clock is advanced past the sleep between the two locks of its poll. -/
def advancedBetween : List Label := [.sleep 5, .poll 0 0, .advance 5, .register 0]

/-- The sleep moves to another task, and is overtaken there after it had registered in time
with the first one. -/
def movedTask : List Label :=
  [.sleep 5, .poll 0 1, .register 0, .poll 0 2, .advance 5, .wake 0, .register 0]

theorem sleeps_wake_iff_overtaken :
    ¬ Throughout step NoLostWakeUp (new 100) advancedBetween ∧
      ¬ Throughout step NoLostWakeUp (new 100) movedTask := by
  obtain ⟨c, hc⟩ : ∃ c, run step (new 100) advancedBetween = some c :=
    Option.isSome_iff_exists.mp (by decide)
  obtain ⟨c', hc'⟩ : ∃ c, run step (new 100) movedTask = some c :=
    Option.isSome_iff_exists.mp (by decide)
  rw [sleeps_wake_iff 100 advancedBetween c hc, sleeps_wake_iff 100 movedTask c' hc']
  decide

/-! ## The time it shows -/

def Label.advanced : Label → Nat
  | .advance dur => dur
  | _ => 0

/-- The offsets at which the sleeps made in the run are to be ready. -/
def deadlines (offset : Nat) : List Label → List Nat
  | [] => []
  | .sleep dur :: ls => (offset + dur) :: deadlines offset ls
  | l :: ls => deadlines (offset + l.advanced) ls

theorem map_deadline_withSleep {c : ManualClock} {i : Nat} {z z' : ManualSleep}
    (hi : c.sleeps[i]? = some z) (hd : z'.deadline = z.deadline) :
    (c.withSleep i z').sleeps.map ManualSleep.deadline = c.sleeps.map ManualSleep.deadline := by
  have hself : (c.sleeps.map ManualSleep.deadline)[i]? = some z.deadline := by simp [hi]
  obtain ⟨hlt, hget⟩ := List.getElem?_eq_some_iff.mp hself
  rw [withSleep, List.map_set, hd, ← hget]
  exact List.set_getElem_self hlt

theorem deadlines_step {c c' : ManualClock} {l : Label} (hs : c.step l = some c') :
    c'.base = c.base ∧ c'.offset = c.offset + l.advanced ∧
      c'.sleeps.map ManualSleep.deadline =
        c.sleeps.map ManualSleep.deadline ++ deadlines c.offset [l] := by
  cases l with
  | sleep dur =>
      cases hs
      exact ⟨rfl, rfl, by simp [slept, deadlines, ManualSleep.new]⟩
  | poll i waker =>
      obtain ⟨z, hz, _, rfl⟩ := bind_ite_some hs
      exact ⟨rfl, rfl, (map_deadline_withSleep hz (by rfl)).trans (List.append_nil _).symm⟩
  | register i =>
      obtain ⟨z, hz, _, rfl⟩ := bind_ite_some hs
      exact ⟨rfl, rfl, (map_deadline_withSleep hz (by rfl)).trans (List.append_nil _).symm⟩
  | drop i =>
      obtain ⟨z, hz, _, rfl⟩ := bind_ite_some hs
      exact ⟨rfl, rfl, (map_deadline_withSleep hz (by rfl)).trans (List.append_nil _).symm⟩
  | advance dur =>
      cases hs
      exact ⟨rfl, rfl, by simp [deadlines, ManualClock.advanced]⟩
  | wake a =>
      simp only [step] at hs
      split at hs
      · cases hs
        unfold invoked
        split
        · rename_i z hz
          exact ⟨rfl, rfl, (map_deadline_withSleep hz (by rfl)).trans (List.append_nil _).symm⟩
        · exact ⟨rfl, rfl, by simp [deadlines]⟩
      · cases hs

theorem deadlines_cons (offset : Nat) (l : Label) (ls : List Label) :
    deadlines offset (l :: ls) = deadlines offset [l] ++ deadlines (offset + l.advanced) ls := by
  cases l <;> rfl

theorem deadlines_run {c c' : ManualClock} {ls : List Label} (h : run step c ls = some c') :
    c'.base = c.base ∧ c'.offset = c.offset + (ls.map Label.advanced).sum ∧
      c'.sleeps.map ManualSleep.deadline =
        c.sleeps.map ManualSleep.deadline ++ deadlines c.offset ls := by
  induction ls generalizing c with
  | nil =>
      cases h
      simp [deadlines]
  | cons l ls ih =>
      obtain ⟨c₁, hs, hrest⟩ := run_cons_some h
      obtain ⟨hbase, hoffset, hdeadlines⟩ := deadlines_step hs
      obtain ⟨hbase', hoffset', hdeadlines'⟩ := ih hrest
      refine ⟨hbase'.trans hbase, ?_, ?_⟩
      · rw [hoffset', hoffset, List.map_cons, List.sum_cons, Nat.add_assoc]
      · rw [hdeadlines', hdeadlines, hoffset, List.append_assoc, ← deadlines_cons]

/-- The clock shows its base and what it was advanced by. A sleep of `dur` is ready, or
woken, only once `dur` has gone by; and whatever earlier races have lost, an `advance` wakes
everybody who is due. -/
theorem clock_keeps_time (base : Nat) (ls : List Label) (c : ManualClock)
    (h : run step (new base) ls = some c) :
    c.now = base + (ls.map Label.advanced).sum ∧
      c.sleeps.map ManualSleep.deadline = deadlines 0 ls ∧
      (∀ i z, c.sleeps[i]? = some z → z.stage = .ready ∨ c.Reached i z →
        z.deadline ≤ (ls.map Label.advanced).sum) ∧
      ∀ dur c', c.step (.advance dur) = some c' → c'.NoLostWakeUp := by
  have hsound : c.Sound := invariant_of_step sound_step (sound_new base) h
  obtain ⟨hbase, hoffset, hdeadlines⟩ := deadlines_run h
  have hshown : c.offset = (ls.map Label.advanced).sum := by simpa [new] using hoffset
  refine ⟨?_, by simpa [new] using hdeadlines, fun i z hz hdone => ?_, fun dur c' hs => ?_⟩
  · rw [now, hbase, hshown]
    rfl
  · have hkept := hsound.kept i z hz
    rw [← hshown]
    rcases hdone with hready | hreached
    · exact hkept.ready hready
    · exact (hkept.reached hreached).2
  · cases hs
    exact noLostWakeUp_advanced hsound dur

/-- The wake-up lost between the two locks is made up for by the next `advance`. -/
theorem clock_keeps_time_advancedBetween :
    ∃ c, run step (new 100) advancedBetween = some c ∧ c.now = 105 ∧
      ∀ c', c.step (.advance 0) = some c' → c'.NoLostWakeUp := by
  have hrun : ∃ c, run step (new 100) advancedBetween = some c :=
    Option.isSome_iff_exists.mp (by decide)
  obtain ⟨c, hc⟩ := hrun
  obtain ⟨hnow, _, _, hmade⟩ := clock_keeps_time 100 advancedBetween c hc
  exact ⟨c, hc, hnow, hmade 0⟩

end ManualClock

end ExecutionPolicy
