import ExecutionPolicy.Engine.Plan

/-! # The builder

The settings of a policy, one after the other, the checks they have to pass and the plan
they are compiled into. In a debug build a setting that is made twice stops the program.
-/

namespace ExecutionPolicy

variable {T E : Type}

/-! ## The builder -/

/-- Returned by `try_build` on an invalid configuration. -/
structure BuildError where
  message : String
deriving DecidableEq, Repr

structure ExecutionPolicyBuilder (T E : Type) where
  retry : Option (Retry T E)
  attemptTimeout : Option Nat
  totalTimeout : Option Nat
  breaker : Option (CompiledBreaker E)
  concurrency : Option ConcurrencyLimit
  /-- Whether an event hook is registered. -/
  onEvent : Bool

inductive Setting (T E : Type) where
  | retry (r : Retry T E)
  | attemptTimeout (d : Nat)
  | totalTimeout (d : Nat)
  | circuitBreaker (b : CompiledBreaker E)
  | concurrencyLimit (c : ConcurrencyLimit)
  | onEvent

namespace Setting

def retry? : Setting T E → Option (Retry T E)
  | retry r => some r
  | _ => none

def attemptTimeout? : Setting T E → Option Nat
  | attemptTimeout d => some d
  | _ => none

def totalTimeout? : Setting T E → Option Nat
  | totalTimeout d => some d
  | _ => none

def breaker? : Setting T E → Option (CompiledBreaker E)
  | circuitBreaker b => some b
  | _ => none

def concurrency? : Setting T E → Option ConcurrencyLimit
  | concurrencyLimit c => some c
  | _ => none

def isOnEvent : Setting T E → Bool
  | onEvent => true
  | _ => false

end Setting

namespace ExecutionPolicyBuilder

def new : ExecutionPolicyBuilder T E where
  retry := none
  attemptTimeout := none
  totalTimeout := none
  breaker := none
  concurrency := none
  onEvent := false

def set (b : ExecutionPolicyBuilder T E) : Setting T E → ExecutionPolicyBuilder T E
  | .retry r => { b with retry := some r }
  | .attemptTimeout d => { b with attemptTimeout := some d }
  | .totalTimeout d => { b with totalTimeout := some d }
  | .circuitBreaker breaker => { b with breaker := some breaker }
  | .concurrencyLimit c => { b with concurrency := some c }
  | .onEvent => { b with onEvent := true }

/-- The `debug_assert!` of a setter. -/
def allows (b : ExecutionPolicyBuilder T E) : Setting T E → Bool
  | .retry _ => b.retry.isNone
  | .circuitBreaker _ => b.breaker.isNone
  | .concurrencyLimit _ => b.concurrency.isNone
  | _ => true

/-- A chain of setters on a new builder; `none` when a `debug_assert!` fails. -/
def configure (debugAssertions : Bool) (settings : List (Setting T E)) :
    Option (ExecutionPolicyBuilder T E) :=
  settings.foldlM (fun b s => if debugAssertions && !b.allows s then none else some (b.set s)) new

def zeroAttempts : BuildError := ⟨"max_attempts must be >= 1"⟩

/-- `debug` is how a duration is written with `:?`. -/
def inverted (debug : Nat → String) (a t : Nat) : BuildError :=
  ⟨"attempt_timeout (" ++ debug a ++ ") must be <= total_timeout (" ++ debug t ++ ")"⟩

def validateRetry (b : ExecutionPolicyBuilder T E) : Except BuildError Unit :=
  match b.retry with
  | some r => if r.maxAttempts = 0 then .error zeroAttempts else .ok ()
  | none => .ok ()

def validateTimeouts (debug : Nat → String) (b : ExecutionPolicyBuilder T E) :
    Except BuildError Unit :=
  match b.attemptTimeout, b.totalTimeout with
  | some a, some t => if t < a then .error (inverted debug a t) else .ok ()
  | _, _ => .ok ()

def validate (debug : Nat → String) (b : ExecutionPolicyBuilder T E) : Except BuildError Unit := do
  b.validateRetry
  b.validateTimeouts debug

structure Valid (b : ExecutionPolicyBuilder T E) : Prop where
  maxAttempts : ∀ r, b.retry = some r → 1 ≤ r.maxAttempts
  timeouts : ∀ a t, b.attemptTimeout = some a → b.totalTimeout = some t → a ≤ t

theorem validateRetry_cases (b : ExecutionPolicyBuilder T E) :
    (b.validateRetry = .ok () ∧ ∀ r, b.retry = some r → 1 ≤ r.maxAttempts) ∨
      (b.validateRetry = .error zeroAttempts ∧ ∃ r, b.retry = some r ∧ r.maxAttempts = 0) := by
  unfold validateRetry
  cases b.retry with
  | none => exact .inl ⟨rfl, fun r h => by cases h⟩
  | some r =>
      by_cases hzero : r.maxAttempts = 0
      · exact .inr ⟨if_pos hzero, r, rfl, hzero⟩
      · refine .inl ⟨if_neg hzero, fun r' h => ?_⟩
        cases h
        exact Nat.pos_of_ne_zero hzero

theorem validateTimeouts_cases (debug : Nat → String) (b : ExecutionPolicyBuilder T E) :
    (b.validateTimeouts debug = .ok () ∧
        ∀ a t, b.attemptTimeout = some a → b.totalTimeout = some t → a ≤ t) ∨
      ∃ a t, b.validateTimeouts debug = .error (inverted debug a t) ∧
        b.attemptTimeout = some a ∧ b.totalTimeout = some t ∧ t < a := by
  unfold validateTimeouts
  cases b.attemptTimeout with
  | none => exact .inl ⟨rfl, fun a t h => by cases h⟩
  | some a =>
      cases b.totalTimeout with
      | none => exact .inl ⟨rfl, fun a t _ h => by cases h⟩
      | some t =>
          by_cases hlt : t < a
          · exact .inr ⟨a, t, if_pos hlt, rfl, rfl, hlt⟩
          · refine .inl ⟨if_neg hlt, fun a' t' ha ht => ?_⟩
            cases ha
            cases ht
            exact Nat.le_of_not_lt hlt

/-- The attempt cap is checked before the timeouts. -/
theorem validate_cases (debug : Nat → String) (b : ExecutionPolicyBuilder T E) :
    (b.validate debug = .ok () ∧ b.Valid) ∨
    (b.validate debug = .error zeroAttempts ∧ ∃ r, b.retry = some r ∧ r.maxAttempts = 0) ∨
    ∃ a t, b.validate debug = .error (inverted debug a t) ∧
      (∀ r, b.retry = some r → 1 ≤ r.maxAttempts) ∧ b.attemptTimeout = some a ∧
      b.totalTimeout = some t ∧ t < a := by
  unfold validate
  rcases b.validateRetry_cases with ⟨hretry, hpos⟩ | ⟨hretry, hzero⟩
  · rw [hretry]
    rcases b.validateTimeouts_cases debug with ⟨htimeouts, hle⟩ | ⟨a, t, htimeouts, ha, ht, hlt⟩
    · exact .inl ⟨htimeouts, hpos, hle⟩
    · exact .inr (.inr ⟨a, t, htimeouts, hpos, ha, ht, hlt⟩)
  · rw [hretry]
    exact .inr (.inl ⟨rfl, hzero⟩)

theorem valid_of_validate {debug : Nat → String} {b : ExecutionPolicyBuilder T E}
    (h : b.validate debug = .ok ()) : b.Valid := by
  rcases validate_cases debug b with ⟨_, hvalid⟩ | ⟨herror, _⟩ | ⟨a, t, herror, _⟩
  · exact hvalid
  · cases h.symm.trans herror
  · cases h.symm.trans herror

theorem Valid.maxAttempts_pos {b : ExecutionPolicyBuilder T E} (h : b.Valid) :
    1 ≤ (b.retry.getD .none).maxAttempts := by
  cases hr : b.retry with
  | none => exact Nat.le_refl 1
  | some r => exact h.maxAttempts r hr

def compile (b : ExecutionPolicyBuilder T E) (h : b.Valid) : Plan T E where
  retry := b.retry.getD .none
  attemptTimeout := b.attemptTimeout
  totalTimeout := b.totalTimeout
  breaker := b.breaker
  concurrency := b.concurrency
  onEvent := b.onEvent
  maxAttempts_pos := h.maxAttempts_pos
  timeouts_ordered := h.timeouts

/-- `try_build`; `build` and `build_with` panic with the error's message instead. -/
def tryBuild (debug : Nat → String) (b : ExecutionPolicyBuilder T E) :
    Except BuildError (Plan T E) :=
  match h : b.validate debug with
  | .ok () => .ok (b.compile (valid_of_validate h))
  | .error e => .error e

/-! ## What a chain of settings gives -/

/-- The chain in a release build. -/
def configured (settings : List (Setting T E)) : ExecutionPolicyBuilder T E :=
  settings.foldl set new

theorem last_wins {α : Type} {field : ExecutionPolicyBuilder T E → Option α}
    {given : Setting T E → Option α} (hnew : field new = none)
    (hset : ∀ b s, field (set b s) = (given s).or (field b)) (settings : List (Setting T E)) :
    field (configured settings) = (settings.filterMap given).getLast? := by
  induction settings using List.reverseRecOn with
  | nil => exact hnew
  | append_singleton settings s ih =>
      rw [configured, List.foldl_append, List.foldl_cons, List.foldl_nil, hset]
      rw [configured] at ih
      rw [ih, List.filterMap_append]
      cases hs : given s with
      | none => simp [hs]
      | some a => simp [hs]

section Fields

variable (settings : List (Setting T E))

theorem configured_retry :
    (configured settings).retry = (settings.filterMap Setting.retry?).getLast? :=
  last_wins rfl (fun b s => by cases s <;> rfl) settings

theorem configured_attemptTimeout :
    (configured settings).attemptTimeout =
      (settings.filterMap Setting.attemptTimeout?).getLast? :=
  last_wins rfl (fun b s => by cases s <;> rfl) settings

theorem configured_totalTimeout :
    (configured settings).totalTimeout = (settings.filterMap Setting.totalTimeout?).getLast? :=
  last_wins rfl (fun b s => by cases s <;> rfl) settings

theorem configured_breaker :
    (configured settings).breaker = (settings.filterMap Setting.breaker?).getLast? :=
  last_wins rfl (fun b s => by cases s <;> rfl) settings

theorem configured_concurrency :
    (configured settings).concurrency = (settings.filterMap Setting.concurrency?).getLast? :=
  last_wins rfl (fun b s => by cases s <;> rfl) settings

theorem configured_onEvent : (configured settings).onEvent = settings.any Setting.isOnEvent := by
  induction settings using List.reverseRecOn with
  | nil => rfl
  | append_singleton settings s ih =>
      rw [configured, List.foldl_append, List.foldl_cons, List.foldl_nil]
      rw [configured] at ih
      cases s <;> simp [set, ih, Setting.isOnEvent]

end Fields

/-- Nothing that a debug build wants once is set twice. -/
structure Once (settings : List (Setting T E)) : Prop where
  retry : (settings.filterMap Setting.retry?).length ≤ 1
  breaker : (settings.filterMap Setting.breaker?).length ≤ 1
  concurrency : (settings.filterMap Setting.concurrency?).length ≤ 1

theorem once_snoc (settings : List (Setting T E)) (s : Setting T E) :
    Once (settings ++ [s]) ↔ Once settings ∧ (configured settings).allows s = true := by
  have hretry := configured_retry settings
  have hbreaker := configured_breaker settings
  have hconcurrency := configured_concurrency settings
  constructor
  · intro h
    obtain ⟨h₁, h₂, h₃⟩ := h
    rw [List.filterMap_append, List.length_append] at h₁ h₂ h₃
    refine ⟨⟨by omega, by omega, by omega⟩, ?_⟩
    cases s with
    | retry r =>
        have hnone : settings.filterMap Setting.retry? = [] := by
          simpa [Setting.retry?] using h₁
        simp [allows, hretry, hnone]
    | circuitBreaker b =>
        have hnone : settings.filterMap Setting.breaker? = [] := by
          simpa [Setting.breaker?] using h₂
        simp [allows, hbreaker, hnone]
    | concurrencyLimit c =>
        have hnone : settings.filterMap Setting.concurrency? = [] := by
          simpa [Setting.concurrency?] using h₃
        simp [allows, hconcurrency, hnone]
    | _ => rfl
  · rintro ⟨⟨h₁, h₂, h₃⟩, hallowed⟩
    constructor <;> rw [List.filterMap_append, List.length_append]
    · cases s with
      | retry r =>
          have hnone : settings.filterMap Setting.retry? = [] := by
            simpa [allows, hretry] using hallowed
          simp [hnone, Setting.retry?]
      | _ => exact h₁
    · cases s with
      | circuitBreaker b =>
          have hnone : settings.filterMap Setting.breaker? = [] := by
            simpa [allows, hbreaker] using hallowed
          simp [hnone, Setting.breaker?]
      | _ => exact h₂
    · cases s with
      | concurrencyLimit c =>
          have hnone : settings.filterMap Setting.concurrency? = [] := by
            simpa [allows, hconcurrency] using hallowed
          simp [hnone, Setting.concurrency?]
      | _ => exact h₃

theorem configure_snoc (debugAssertions : Bool) (settings : List (Setting T E))
    (s : Setting T E) :
    configure debugAssertions (settings ++ [s]) = (configure debugAssertions settings).bind fun b =>
      if debugAssertions && !b.allows s then none else some (b.set s) := by
  simp [configure, List.foldlM_append]

/-- In a debug build a setting made twice panics, and that is all the difference. -/
theorem configure_eq_some_iff (debugAssertions : Bool) (settings : List (Setting T E))
    (b : ExecutionPolicyBuilder T E) :
    configure debugAssertions settings = some b ↔
      b = configured settings ∧ (debugAssertions = true → Once settings) := by
  induction settings using List.reverseRecOn generalizing b with
  | nil =>
      have honce : Once ([] : List (Setting T E)) :=
        ⟨Nat.zero_le _, Nat.zero_le _, Nat.zero_le _⟩
      constructor
      · intro h
        cases h
        exact ⟨rfl, fun _ => honce⟩
      · rintro ⟨rfl, _⟩
        rfl
  | append_singleton settings s ih =>
      have hlast : configured (settings ++ [s]) = (configured settings).set s := by
        simp [configured]
      rw [configure_snoc, Option.bind_eq_some_iff, hlast, once_snoc]
      constructor
      · rintro ⟨b₀, hb₀, hb⟩
        obtain ⟨rfl, honce⟩ := (ih b₀).mp hb₀
        cases debugAssertions with
        | false =>
            cases hb
            exact ⟨rfl, fun hfalse => absurd hfalse Bool.false_ne_true⟩
        | true =>
            cases hallowed : (configured settings).allows s with
            | false => simp [hallowed] at hb
            | true =>
                simp [hallowed] at hb
                exact ⟨hb.symm, fun _ => ⟨honce rfl, rfl⟩⟩
      · rintro ⟨rfl, honce⟩
        refine ⟨configured settings, (ih _).mpr ⟨rfl, fun hd => (honce hd).1⟩, ?_⟩
        cases debugAssertions with
        | false => rfl
        | true => simp [(honce rfl).2]

theorem tryBuild_of_valid (debug : Nat → String) {b : ExecutionPolicyBuilder T E}
    (h : b.Valid) : b.tryBuild debug = .ok (b.compile h) := by
  have hvalidate : b.validate debug = .ok () := by
    rcases b.validate_cases debug with ⟨hok, _⟩ | ⟨_, r, hr, hzero⟩ | ⟨a, t, _, _, ha, ht, hlt⟩
    · exact hok
    · have hpos := h.maxAttempts r hr
      omega
    · have hle := h.timeouts a t ha ht
      omega
  unfold tryBuild
  split
  next => rfl
  next e he => cases hvalidate.symm.trans he

theorem tryBuild_ok {debug : Nat → String} {b : ExecutionPolicyBuilder T E} {plan : Plan T E}
    (h : b.tryBuild debug = .ok plan) : ∃ hvalid : b.Valid, plan = b.compile hvalid := by
  unfold tryBuild at h
  split at h
  next hok => exact ⟨valid_of_validate hok, (Except.ok.inj h).symm⟩
  next => cases h

theorem tryBuild_error {debug : Nat → String} {b : ExecutionPolicyBuilder T E} {e : BuildError}
    (h : b.tryBuild debug = .error e) : b.validate debug = .error e := by
  unfold tryBuild at h
  split at h
  next => cases h
  next e' he =>
      cases h
      exact he

end ExecutionPolicyBuilder

open ExecutionPolicyBuilder

/-- `try_build` after any chain of setters: it gives the plan with the last value of each
setting and the default where there is none, and it fails exactly when there is no such plan,
with the message of the first check that fails. -/
theorem try_build_last_wins (debug : Nat → String) (debugAssertions : Bool)
    (settings : List (Setting T E)) (b : ExecutionPolicyBuilder T E)
    (hb : configure debugAssertions settings = some b) :
    (∀ plan, b.tryBuild debug = .ok plan ↔
      plan.retry = (settings.filterMap Setting.retry?).getLast?.getD .none ∧
        plan.attemptTimeout = (settings.filterMap Setting.attemptTimeout?).getLast? ∧
        plan.totalTimeout = (settings.filterMap Setting.totalTimeout?).getLast? ∧
        plan.breaker = (settings.filterMap Setting.breaker?).getLast? ∧
        plan.concurrency = (settings.filterMap Setting.concurrency?).getLast? ∧
        plan.onEvent = settings.any Setting.isOnEvent) ∧
      ∀ e, b.tryBuild debug = .error e →
        (e = zeroAttempts ∧ ∃ r, (settings.filterMap Setting.retry?).getLast? = some r ∧
          r.maxAttempts = 0) ∨
        ∃ a t, e = inverted debug a t ∧
          (∀ r, (settings.filterMap Setting.retry?).getLast? = some r → 1 ≤ r.maxAttempts) ∧
          (settings.filterMap Setting.attemptTimeout?).getLast? = some a ∧
          (settings.filterMap Setting.totalTimeout?).getLast? = some t ∧ t < a := by
  obtain ⟨rfl, -⟩ := (configure_eq_some_iff debugAssertions settings b).mp hb
  rw [← configured_retry, ← configured_attemptTimeout, ← configured_totalTimeout,
    ← configured_breaker, ← configured_concurrency, ← configured_onEvent]
  refine ⟨fun plan => ⟨fun h => ?_, ?_⟩, fun e h => ?_⟩
  · obtain ⟨hvalid, rfl⟩ := tryBuild_ok h
    exact ⟨rfl, rfl, rfl, rfl, rfl, rfl⟩
  · rintro ⟨hretry, hattempt, htotal, hbreaker, hconcurrency, hevent⟩
    have hvalid : (configured settings).Valid := by
      constructor
      · intro r hr
        have hpos := plan.maxAttempts_pos
        rw [hretry, hr] at hpos
        exact hpos
      · rw [← hattempt, ← htotal]
        exact plan.timeouts_ordered
    rw [tryBuild_of_valid debug hvalid]
    cases plan
    simp_all [compile]
  · have herror := tryBuild_error h
    rcases (configured settings).validate_cases debug with
      ⟨hok, _⟩ | ⟨hzero, hr⟩ | ⟨a, t, hinverted, hpos, ha, ht, hlt⟩
    · cases hok.symm.trans herror
    · cases hzero.symm.trans herror
      exact .inl ⟨rfl, hr⟩
    · cases hinverted.symm.trans herror
      exact .inr ⟨a, t, rfl, hpos, ha, ht, hlt⟩

/-- An inverted pair of timeouts, a cap set twice and a hook. -/
def impatientSettings : List (Setting Nat Nat) :=
  [.attemptTimeout 5, .retry .none, .totalTimeout 2, .onEvent, .attemptTimeout 3]

theorem try_build_last_wins_impatientSettings :
    ∃ b, configure true impatientSettings = some b ∧
      b.tryBuild (fun d => toString d ++ "ns") = .error
        ⟨"attempt_timeout (3ns) must be <= total_timeout (2ns)"⟩ ∧
      ∀ plan, b.tryBuild (fun d => toString d ++ "ns") = .ok plan →
        plan.attemptTimeout = some 3 := by
  refine ⟨_, rfl, rfl, fun plan hplan => ?_⟩
  have hspec := try_build_last_wins (fun d => toString d ++ "ns") true impatientSettings _ rfl
  exact ((hspec.1 plan).mp hplan).2.1

end ExecutionPolicy
