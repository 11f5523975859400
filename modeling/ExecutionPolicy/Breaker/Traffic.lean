import ExecutionPolicy.Breaker.Operations

/-! # A breaker over time

Whoever its callers are, a breaker is only asked and told, at instants that do not
run backwards. What holds of its cooldown along any such history.
-/

namespace ExecutionPolicy

open History

/-! ## Operations and cooldowns -/

def BreakerOp.instant : BreakerOp → Nat
  | gate now => now
  | success now => now
  | failure now => now
  | stateAt now => now
  | coolingUntil now => now

namespace BreakerRuntime

variable {cfg : BreakerConfig} {b : BreakerRuntime}

@[simp] theorem replay_snoc (cfg : BreakerConfig) (b : BreakerRuntime) (ops : List BreakerOp)
    (op : BreakerOp) :
    replay (apply cfg) b (ops ++ [op]) = (replay (apply cfg) b ops).apply cfg op :=
  replay_append ..

/-- The end of the cooldown that an operation starts, if it trips the breaker. -/
def tripEnd (cfg : BreakerConfig) (b : BreakerRuntime) : BreakerOp → Option Nat
  | .failure now =>
      if (b.recordFailure cfg now).1 = some .open then some (now + cfg.openFor) else none
  | _ => none

def letsProbeIn (b : BreakerRuntime) : BreakerOp → Bool
  | .gate now => decide (b.state = .open) && b.ready now
  | _ => false

theorem tripEnd_eq {op : BreakerOp} {u : Nat} (h : b.tripEnd cfg op = some u) :
    u = op.instant + cfg.openFor := by
  cases op with
  | failure now =>
      simp only [tripEnd] at h
      split at h
      · exact (Option.some.inj h).symm
      · cases h
  | _ => cases h

/-- A failure trips the breaker, or leaves its state and its cooldown as they are. -/
theorem recordFailure_cases (cfg : BreakerConfig) (b : BreakerRuntime) (t : Nat) :
    ((b.recordFailure cfg t).1 = some .open ∧ (b.recordFailure cfg t).2.state = .open ∧
        (b.recordFailure cfg t).2.openUntil = some (t + cfg.openFor)) ∨
      ((b.recordFailure cfg t).1 = none ∧ (b.recordFailure cfg t).2.state = b.state ∧
        (b.recordFailure cfg t).2.openUntil = b.openUntil) := by
  by_cases h : b.state = .halfOpen
  · rw [recordFailure_of_halfOpen h]
    exact .inl ⟨rfl, rfl, rfl⟩
  · rw [recordFailure_of_not_halfOpen h]
    split
    · exact .inl ⟨rfl, rfl, rfl⟩
    · exact .inr ⟨rfl, by simp, by simp⟩

/-- An operation trips the breaker, lets a probe in, or neither starts nor ends a cooldown. -/
theorem apply_cases (cfg : BreakerConfig) (b : BreakerRuntime) (op : BreakerOp) :
    (∃ u, b.tripEnd cfg op = some u ∧ (b.apply cfg op).state = .open ∧
        (b.apply cfg op).openUntil = some u) ∨
      (b.tripEnd cfg op = none ∧ b.letsProbeIn op = true ∧ (b.apply cfg op).state = .halfOpen ∧
        (b.apply cfg op).openUntil = b.openUntil) ∨
      (b.tripEnd cfg op = none ∧ b.letsProbeIn op = false ∧
        ((b.apply cfg op).state = .open ↔ b.state = .open) ∧
        (b.apply cfg op).openUntil = b.openUntil) := by
  cases op with
  | stateAt t => exact .inr (.inr ⟨rfl, rfl, Iff.rfl, rfl⟩)
  | coolingUntil t => exact .inr (.inr ⟨rfl, rfl, Iff.rfl, rfl⟩)
  | failure t =>
      rcases recordFailure_cases cfg b t with ⟨htrip, hstate, huntil⟩ | ⟨hno, hstate, huntil⟩
      · exact .inl ⟨_, if_pos htrip, hstate, huntil⟩
      · refine .inr (.inr ⟨if_neg (by rw [hno]; simp), rfl, ?_, huntil⟩)
        rw [show (b.apply cfg (.failure t)).state = b.state from hstate]
  | success t =>
      refine .inr (.inr ⟨rfl, rfl, ?_, ?_⟩)
      · by_cases h : b.state = .halfOpen
        · simp only [apply, recordSuccess_of_halfOpen h]
          split <;> simp [h, close]
        · simp only [apply, recordSuccess_of_not_halfOpen h]
      · by_cases h : b.state = .halfOpen
        · simp only [apply, recordSuccess_of_halfOpen h]
          split <;> rfl
        · simp only [apply, recordSuccess_of_not_halfOpen h]
  | gate t =>
      cases hs : b.state with
      | closed =>
          refine .inr (.inr ⟨rfl, by simp [letsProbeIn, hs], ?_, ?_⟩)
          · simp [apply, gate_of_closed hs, hs]
          · simp [apply, gate_of_closed hs]
      | «open» =>
          cases hr : b.ready t with
          | true =>
              refine .inr (.inl ⟨rfl, by simp [letsProbeIn, hs, hr], ?_, ?_⟩)
              · simp [apply, gate_of_ready hs hr]
              · simp [apply, gate_of_ready hs hr]
          | false =>
              refine .inr (.inr ⟨rfl, by simp [letsProbeIn, hr], ?_, ?_⟩)
              · simp [apply, gate_of_cooling hs hr, hs]
              · simp [apply, gate_of_cooling hs hr]
      | halfOpen =>
          refine .inr (.inr ⟨rfl, by simp [letsProbeIn, hs], ?_, ?_⟩)
          · simp only [apply, gate, hs]
            split <;> simp [hs]
          · simp only [apply, gate, hs]
            split <;> rfl

/-- One of the operations trips the breaker for no less than until `e`. -/
def TrippedUntil (cfg : BreakerConfig) (b : BreakerRuntime) (ops : List BreakerOp)
    (e : Nat) : Prop :=
  ∃ pre op u, pre ++ [op] <+: ops ∧ (replay (apply cfg) b pre).tripEnd cfg op = some u ∧ e ≤ u

theorem trippedUntil_snoc {ops : List BreakerOp} {op : BreakerOp} {e : Nat} :
    b.TrippedUntil cfg (ops ++ [op]) e ↔
      b.TrippedUntil cfg ops e ∨
        ∃ u, (replay (apply cfg) b ops).tripEnd cfg op = some u ∧ e ≤ u := by
  constructor
  · rintro ⟨pre, k, u, hpre, hu, hle⟩
    rcases List.prefix_concat_iff.mp hpre with heq | hold
    · obtain ⟨rfl, hk⟩ := List.append_inj' heq rfl
      cases hk
      exact .inr ⟨u, hu, hle⟩
    · exact .inl ⟨pre, k, u, hold, hu, hle⟩
  · rintro (⟨pre, k, u, hpre, hu, hle⟩ | ⟨u, hu, hle⟩)
    · exact ⟨pre, k, u, hpre.trans (List.prefix_append ops [op]), hu, hle⟩
    · exact ⟨ops, op, u, List.prefix_rfl, hu, hle⟩

/-- The operations leave the breaker open past `e`: it was so before, or a failure has tripped
it for longer, and since then no failure started another cooldown and no probe got in. -/
inductive ShutPast (cfg : BreakerConfig) (b : BreakerRuntime) (e : Nat) :
    List BreakerOp → Prop where
  | before (h : b.stateAt e = .open) : ShutPast cfg b e []
  | trip {ops : List BreakerOp} {op : BreakerOp} {u : Nat}
      (hu : (replay (apply cfg) b ops).tripEnd cfg op = some u) (he : e < u) :
      ShutPast cfg b e (ops ++ [op])
  | keep {ops : List BreakerOp} {op : BreakerOp} (h : ShutPast cfg b e ops)
      (hu : (replay (apply cfg) b ops).tripEnd cfg op = none)
      (hl : (replay (apply cfg) b ops).letsProbeIn op = false) :
      ShutPast cfg b e (ops ++ [op])

theorem stateAt_eq_open_iff {t : Nat} :
    b.stateAt t = .open ↔ b.state = .open ∧ ∀ u, b.openUntil = some u → t < u := by
  unfold stateAt
  cases hs : b.state with
  | closed => simp
  | halfOpen => simp
  | «open» =>
      cases hu : b.openUntil with
      | none => simp
      | some u =>
          have hlt : ¬ u ≤ t ↔ t < u := Nat.not_le
          by_cases hle : u ≤ t <;> simp [hle, ← hlt]

theorem shutPast_snoc {e : Nat} {ops : List BreakerOp} {op : BreakerOp} :
    ShutPast cfg b e (ops ++ [op]) ↔
      (∃ u, (replay (apply cfg) b ops).tripEnd cfg op = some u ∧ e < u) ∨
        (ShutPast cfg b e ops ∧ (replay (apply cfg) b ops).tripEnd cfg op = none ∧
          (replay (apply cfg) b ops).letsProbeIn op = false) := by
  constructor
  · intro h
    generalize hls : ops ++ [op] = ops' at h
    cases h with
    | before => simp at hls
    | trip hu he =>
        obtain ⟨rfl, hl⟩ := List.append_inj' hls rfl
        cases hl
        exact .inl ⟨_, hu, he⟩
    | keep h hu hl =>
        obtain ⟨rfl, hl'⟩ := List.append_inj' hls rfl
        cases hl'
        exact .inr ⟨h, hu, hl⟩
  · rintro (⟨u, hu, he⟩ | ⟨h, hu, hl⟩)
    · exact .trip hu he
    · exact h.keep hu hl

theorem stateAt_replay_iff {e : Nat} {ops : List BreakerOp} :
    (replay (apply cfg) b ops).stateAt e = .open ↔ ShutPast cfg b e ops := by
  induction ops using List.reverseRecOn with
  | nil =>
      constructor
      · exact .before
      · intro h
        generalize hls : ([] : List BreakerOp) = ops' at h
        cases h with
        | before h => exact h
        | trip => simp at hls
        | keep => simp at hls
  | append_singleton ops op ih =>
      rw [replay_snoc, shutPast_snoc, ← ih, stateAt_eq_open_iff, stateAt_eq_open_iff]
      rcases apply_cases cfg (replay (apply cfg) b ops) op with
        ⟨u, hu, hstate, huntil⟩ | ⟨hu, hl, hstate, _⟩ | ⟨hu, hl, hstate, huntil⟩
      · simp [hu, hstate, huntil]
      · simp [hu, hl, hstate]
      · simp [hu, hl, hstate, huntil]

/-! ## The end of the cooldown -/

/-- No cooldown ends later than one that starts now. -/
def Bounded (cfg : BreakerConfig) (t : Nat) (b : BreakerRuntime) : Prop :=
  ∀ u, b.openUntil = some u → u ≤ t + cfg.openFor

/-- Until `e` the breaker is cooling, and not for less than until `e`. -/
def CoolsUntil (cfg : BreakerConfig) (e t : Nat) (b : BreakerRuntime) : Prop :=
  e ≤ t + cfg.openFor ∧ (t < e → b.state = .open ∧ ∃ u, b.openUntil = some u ∧ e ≤ u)

theorem bounded_new (cfg : BreakerConfig) (trip : Trip) (t : Nat) :
    (BreakerRuntime.new trip).Bounded cfg t := by
  intro u hu
  cases hu

theorem Bounded.apply {op : BreakerOp} (h : b.Bounded cfg op.instant) :
    (b.apply cfg op).Bounded cfg op.instant := by
  intro u hu
  rcases apply_cases cfg b op with ⟨u', hu', _, huntil⟩ | ⟨_, _, _, huntil⟩ | ⟨_, _, _, huntil⟩
  · cases huntil.symm.trans hu
    exact Nat.le_of_eq (tripEnd_eq hu')
  · exact h u (huntil ▸ hu)
  · exact h u (huntil ▸ hu)

/-- A cooling breaker rejects, and a trip meanwhile ends no earlier than the last one. -/
theorem CoolsUntil.apply {e : Nat} {op : BreakerOp} (h : b.CoolsUntil cfg e op.instant) :
    (b.apply cfg op).CoolsUntil cfg e op.instant := by
  refine ⟨h.1, fun hlt => ?_⟩
  obtain ⟨hopen, u, hu, hle⟩ := h.2 hlt
  rcases apply_cases cfg b op with
    ⟨u', hu', hstate, huntil⟩ | ⟨_, hl, _, _⟩ | ⟨_, _, hstate, huntil⟩
  · exact ⟨hstate, u', huntil, tripEnd_eq hu' ▸ h.1⟩
  · cases op with
    | gate now =>
        have hready : b.ready now = false := by
          simp only [ready, hu, Option.map_some, Option.getD_some, decide_eq_false_iff_not]
          exact Nat.not_le.mpr (Nat.lt_of_lt_of_le hlt hle)
        simp [letsProbeIn, hready] at hl
    | _ => cases hl
  · exact ⟨hstate.mpr hopen, u, huntil.trans hu, hle⟩

theorem coolsUntil_of_coolingUntil {e t : Nat} (hbounded : b.Bounded cfg t)
    (h : b.coolingUntil t = some e) : b.CoolsUntil cfg e t := by
  unfold coolingUntil at h
  split at h
  next hopen =>
    obtain ⟨hu, _⟩ := Option.filter_eq_some_iff.mp h
    exact ⟨hbounded e hu, fun _ => ⟨hopen, e, hu, Nat.le_refl _⟩⟩
  next => cases h

end BreakerRuntime

/-- `b` at `t` comes out of `b₀` at `t₀` by these operations, at instants in order. -/
inductive BreakerTold (cfg : BreakerConfig) (t₀ : Nat) (b₀ : BreakerRuntime) :
    List BreakerOp → Nat → BreakerRuntime → Prop where
  | start : BreakerTold cfg t₀ b₀ [] t₀ b₀
  | later {ops : List BreakerOp} {t t' : Nat} {b : BreakerRuntime}
      (h : BreakerTold cfg t₀ b₀ ops t b) (ht : t ≤ t') : BreakerTold cfg t₀ b₀ ops t' b
  | tell {ops : List BreakerOp} {t : Nat} {b : BreakerRuntime}
      (h : BreakerTold cfg t₀ b₀ ops t b)
      (op : BreakerOp) (hl : op.instant = t) :
      BreakerTold cfg t₀ b₀ (ops ++ [op]) t (b.apply cfg op)

namespace BreakerTold

open BreakerRuntime

variable {cfg : BreakerConfig} {t₀ t₁ t t' : Nat} {b₀ b₁ b b' : BreakerRuntime}
  {ops ops' : List BreakerOp}

theorem trans (h : BreakerTold cfg t₀ b₀ ops t b) (h' : BreakerTold cfg t b ops' t' b') :
    BreakerTold cfg t₀ b₀ (ops ++ ops') t' b' := by
  induction h' with
  | start => simpa using h
  | later _ ht ih => exact ih.later ht
  | tell _ op hl ih =>
      rw [← List.append_assoc]
      exact ih.tell op hl

theorem eq_replay (h : BreakerTold cfg t₀ b₀ ops t b) : b = replay (apply cfg) b₀ ops := by
  induction h with
  | start => rfl
  | later _ _ ih => exact ih
  | tell _ op _ ih => rw [replay_snoc, ← ih]

theorem le (h : BreakerTold cfg t₀ b₀ ops t b) : t₀ ≤ t := by
  induction h with
  | start => exact Nat.le_refl _
  | later _ ht ih => exact Nat.le_trans ih ht
  | tell _ _ _ ih => exact ih

theorem bounded (h : BreakerTold cfg t₀ b₀ ops t b) (h₀ : b₀.Bounded cfg t₀) :
    b.Bounded cfg t := by
  induction h with
  | start => exact h₀
  | later _ ht ih =>
      intro u hu
      have hle := ih u hu
      omega
  | tell _ op hl ih =>
      subst hl
      exact ih.apply

theorem keepsCooling {e : Nat} (h : BreakerTold cfg t₀ b₀ ops t b)
    (h₀ : b₀.CoolsUntil cfg e t₀) : b.CoolsUntil cfg e t := by
  induction h with
  | start => exact h₀
  | later _ ht ih =>
      have hreach := ih.1
      exact ⟨by omega, fun hlt => ih.2 (by omega)⟩
  | tell _ op hl ih =>
      subst hl
      exact ih.apply

theorem coherent (h : BreakerTold cfg t₀ b₀ ops t b) (h₀ : b₀.Coherent cfg) : b.Coherent cfg := by
  rw [h.eq_replay]
  exact replay_invariant (fun _ op hb => hb.apply op) h₀ ops

theorem coolsUntil {e : Nat} (h : BreakerTold cfg t₀ b₀ ops t b)
    (htrip : b₀.TrippedUntil cfg ops e) :
    b.CoolsUntil cfg e t := by
  induction h with
  | start =>
      obtain ⟨pre, op, u, hpre, _⟩ := htrip
      simp at hpre
  | later _ ht ih => exact keepsCooling (.later .start ht) (ih htrip)
  | @tell ops t b hls op hl ih =>
      subst hl
      rcases trippedUntil_snoc.mp htrip with hold | ⟨u, hu, hle⟩
      · exact (ih hold).apply
      · rw [← hls.eq_replay] at hu
        rcases apply_cases cfg b op with ⟨u', hu', hstate, huntil⟩ | ⟨hno, _⟩ | ⟨hno, _⟩
        · cases hu.symm.trans hu'
          exact ⟨tripEnd_eq hu ▸ hle, fun _ => ⟨hstate, u, huntil, hle⟩⟩
        · cases hu.symm.trans hno
        · cases hu.symm.trans hno

/-- Where a cooldown comes from: it was there before, or a failure has started it. -/
theorem cooldown_cases {u : Nat} (h : BreakerTold cfg t₀ b₀ ops t b) (hopen : b.state = .open)
    (hu : b.openUntil = some u) :
    (b₀.state = .open ∧ b₀.openUntil = some u) ∨ b₀.TrippedUntil cfg ops u := by
  induction h with
  | start => exact .inl ⟨hopen, hu⟩
  | later _ _ ih => exact ih hopen hu
  | @tell ops t b hls op _ ih =>
      rcases apply_cases cfg b op with
        ⟨u', hu', _, huntil⟩ | ⟨_, _, hstate, _⟩ | ⟨_, _, hstate, huntil⟩
      · cases huntil.symm.trans hu
        rw [hls.eq_replay] at hu'
        exact .inr (trippedUntil_snoc.mpr (.inr ⟨u, hu', Nat.le_refl _⟩))
      · cases hstate.symm.trans hopen
      · rcases ih (hstate.mp hopen) (huntil.symm.trans hu) with hbefore | htrip
        · exact .inl hbefore
        · exact .inr (trippedUntil_snoc.mpr (.inl htrip))

end BreakerTold

end ExecutionPolicy
