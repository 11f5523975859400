import Mathlib

/-! # Step systems and their runs

A step system is a partial function from a state and a label to a state: the
label carries every choice of the environment, so a list of labels determines a
run. Invariants, step conditions and simulations are stated once here, over
arbitrary states and labels; a concrete machine supplies the step lemma only.
-/

namespace StepSystem

universe u v w x

variable {σ : Type u} {ℓ : Type v}

/-- Run the labels in order; `none` as soon as one of them is not enabled. -/
def run (step : σ → ℓ → Option σ) : σ → List ℓ → Option σ
  | s, [] => some s
  | s, l :: ls => (step s l).bind fun s' => run step s' ls

/-- Every step the run takes meets the condition in the state it is taken from. -/
def Obeys (step : σ → ℓ → Option σ) (cond : σ → ℓ → Prop) : σ → List ℓ → Prop
  | _, [] => True
  | s, l :: ls => cond s l ∧ ∀ s', step s l = some s' → Obeys step cond s' ls

/-- `P` holds in every state the run passes, the first and the last included. -/
def Throughout (step : σ → ℓ → Option σ) (P : σ → Prop) : σ → List ℓ → Prop
  | s, [] => P s
  | s, l :: ls => P s ∧ ∀ s', step s l = some s' → Throughout step P s' ls

variable {step : σ → ℓ → Option σ}

@[simp] theorem run_nil (s : σ) : run step s [] = some s := rfl

@[simp] theorem run_cons (s : σ) (l : ℓ) (ls : List ℓ) :
    run step s (l :: ls) = (step s l).bind fun s' => run step s' ls := rfl

theorem run_cons_some {s s'' : σ} {l : ℓ} {ls : List ℓ}
    (h : run step s (l :: ls) = some s'') :
    ∃ s', step s l = some s' ∧ run step s' ls = some s'' := by
  simpa [Option.bind_eq_some_iff] using h

theorem run_append (s : σ) (ls ls' : List ℓ) :
    run step s (ls ++ ls') = (run step s ls).bind fun s' => run step s' ls' := by
  induction ls generalizing s with
  | nil => rfl
  | cons l ls ih =>
      cases h : step s l with
      | none => simp [h]
      | some s' => simp [h, ih s']

theorem run_trans {s s' s'' : σ} {ls ls' : List ℓ}
    (h : run step s ls = some s') (h' : run step s' ls' = some s'') :
    run step s (ls ++ ls') = some s'' := by
  rw [run_append, h]
  exact h'

theorem run_snoc {s s' s'' : σ} {ls : List ℓ} {l : ℓ}
    (h : run step s ls = some s') (h' : step s' l = some s'') :
    run step s (ls ++ [l]) = some s'' :=
  run_trans h (by simp [h'])

theorem run_one {s s' : σ} {l : ℓ} (h : step s l = some s') : run step s [l] = some s' := by
  simp [h]

section Conditions

variable {cond cond' : σ → ℓ → Prop}

/-- Conditions are checked along a concrete run by evaluating it. -/
instance decidableObeys [hcond : ∀ s l, Decidable (cond s l)] :
    ∀ (s : σ) (ls : List ℓ), Decidable (Obeys step cond s ls)
  | _, [] => .isTrue trivial
  | s, l :: ls =>
      match hcond s l, hs : step s l with
      | .isFalse hn, _ => .isFalse fun h => hn h.1
      | .isTrue hc, none => .isTrue ⟨hc, fun s' h => by rw [hs] at h; cases h⟩
      | .isTrue hc, some s₁ =>
          match decidableObeys s₁ ls with
          | .isTrue hr => .isTrue ⟨hc, fun s' h => by rw [hs] at h; cases h; exact hr⟩
          | .isFalse hn => .isFalse fun h => hn (h.2 s₁ hs)

theorem obeys_of_forall (h : ∀ s l, cond s l) (s : σ) (ls : List ℓ) :
    Obeys step cond s ls := by
  induction ls generalizing s with
  | nil => trivial
  | cons l ls ih => exact ⟨h s l, fun s' _ => ih s'⟩

theorem obeys_of_mem {p : ℓ → Prop} {ls : List ℓ} (h : ∀ l ∈ ls, p l) (s : σ) :
    Obeys step (fun _ l => p l) s ls := by
  induction ls generalizing s with
  | nil => trivial
  | cons l ls ih =>
      exact ⟨h l List.mem_cons_self,
        fun s' _ => ih (fun k hk => h k (List.mem_cons_of_mem l hk)) s'⟩

theorem Obeys.and {s : σ} {ls : List ℓ} (h : Obeys step cond s ls)
    (h' : Obeys step cond' s ls) : Obeys step (fun s l => cond s l ∧ cond' s l) s ls := by
  induction ls generalizing s with
  | nil => trivial
  | cons l ls ih => exact ⟨⟨h.1, h'.1⟩, fun s' hs => ih (h.2 s' hs) (h'.2 s' hs)⟩

theorem Obeys.left {s : σ} {ls ls' : List ℓ} (h : Obeys step cond s (ls ++ ls')) :
    Obeys step cond s ls := by
  induction ls generalizing s with
  | nil => trivial
  | cons l ls ih => exact ⟨h.1, fun s' hs => ih (h.2 s' hs)⟩

theorem Obeys.last {s s' : σ} {ls : List ℓ} {l : ℓ} (h : Obeys step cond s (ls ++ [l]))
    (hrun : run step s ls = some s') : cond s' l := by
  induction ls generalizing s with
  | nil =>
      cases hrun
      exact h.1
  | cons k ls ih =>
      obtain ⟨s₁, hs₁, hrest⟩ := run_cons_some hrun
      exact ih (h.2 s₁ hs₁) hrest

/-- A condition on steps may be weakened under an invariant of the run. -/
theorem Obeys.mono_of_invariant {I : σ → Prop}
    (hstep : ∀ s l s', I s → cond s l → step s l = some s' → I s')
    (himp : ∀ s l, I s → cond s l → cond' s l) {s : σ} {ls : List ℓ}
    (hI : I s) (h : Obeys step cond s ls) : Obeys step cond' s ls := by
  induction ls generalizing s with
  | nil => trivial
  | cons l ls ih =>
      exact ⟨himp s l hI h.1, fun s' hs => ih (hstep s l s' hI h.1 hs) (h.2 s' hs)⟩

end Conditions

/-! ## Invariants -/

/-- What every permitted step preserves, every permitted run preserves. -/
theorem invariant {cond : σ → ℓ → Prop} {I : σ → Prop}
    (hstep : ∀ s l s', I s → cond s l → step s l = some s' → I s')
    {s s' : σ} {ls : List ℓ} (hI : I s) (hcond : Obeys step cond s ls)
    (h : run step s ls = some s') : I s' := by
  induction ls generalizing s with
  | nil =>
      cases h
      exact hI
  | cons l ls ih =>
      obtain ⟨s₁, hs₁, hrest⟩ := run_cons_some h
      exact ih (hstep s l s₁ hI hcond.1 hs₁) (hcond.2 s₁ hs₁) hrest

theorem invariant_of_step {I : σ → Prop}
    (hstep : ∀ s l s', I s → step s l = some s' → I s')
    {s s' : σ} {ls : List ℓ} (hI : I s) (h : run step s ls = some s') : I s' :=
  have hcond : Obeys step (fun _ _ => True) s ls := obeys_of_forall (fun _ _ => trivial) s ls
  invariant (fun s l s' hs _ => hstep s l s' hs) hI hcond h

theorem throughout_of_step {cond : σ → ℓ → Prop} {I : σ → Prop}
    (hstep : ∀ s l s', I s → cond s l → step s l = some s' → I s')
    {s : σ} {ls : List ℓ} (hI : I s) (hcond : Obeys step cond s ls) :
    Throughout step I s ls := by
  induction ls generalizing s with
  | nil => exact hI
  | cons l ls ih =>
      exact ⟨hI, fun s' hs => ih (hstep s l s' hI hcond.1 hs) (hcond.2 s' hs)⟩

theorem Throughout.head {P : σ → Prop} {s : σ} {ls : List ℓ}
    (h : Throughout step P s ls) : P s := by
  cases ls with
  | nil => exact h
  | cons l ls => exact h.1

theorem Throughout.last {P : σ → Prop} {s s' : σ} {ls : List ℓ}
    (h : Throughout step P s ls) (hrun : run step s ls = some s') : P s' := by
  induction ls generalizing s with
  | nil =>
      cases hrun
      exact h
  | cons l ls ih =>
      obtain ⟨s₁, hs₁, hrest⟩ := run_cons_some hrun
      exact ih (h.2 s₁ hs₁) hrest

theorem Throughout.mono {P Q : σ → Prop} (himp : ∀ s, P s → Q s) {s : σ} {ls : List ℓ}
    (h : Throughout step P s ls) : Throughout step Q s ls := by
  induction ls generalizing s with
  | nil => exact himp s h
  | cons l ls ih => exact ⟨himp s h.1, fun s' hs => ih (h.2 s' hs)⟩

/-- Where a step keeps a safe state safe exactly when it meets the condition, a run is
safe throughout exactly when all its steps meet it. -/
theorem throughout_iff_obeys {cond : σ → ℓ → Prop} {I P : σ → Prop}
    (hstep : ∀ s l s', I s → step s l = some s' → I s')
    (hiff : ∀ s l s', I s → P s → step s l = some s' → (P s' ↔ cond s l))
    {s s' : σ} {ls : List ℓ} (hI : I s) (hP : P s) (hrun : run step s ls = some s') :
    Throughout step P s ls ↔ Obeys step cond s ls := by
  induction ls generalizing s with
  | nil => exact iff_of_true hP trivial
  | cons l ls ih =>
      obtain ⟨s₁, hs₁, hrest⟩ := run_cons_some hrun
      have hone := hiff s l s₁ hI hP hs₁
      have hI₁ := hstep s l s₁ hI hs₁
      constructor
      · intro h
        have hP₁ := (h.2 s₁ hs₁).head
        refine ⟨hone.mp hP₁, fun s₂ hs₂ => ?_⟩
        cases hs₁.symm.trans hs₂
        exact (ih hI₁ hP₁ hrest).mp (h.2 s₁ hs₁)
      · intro h
        have hP₁ := hone.mpr h.1
        refine ⟨hP, fun s₂ hs₂ => ?_⟩
        cases hs₁.symm.trans hs₂
        exact (ih hI₁ hP₁ hrest).mpr (h.2 s₁ hs₁)

/-- Where a step ends safe exactly when it starts safe and meets the condition, a run ends
safe exactly when it starts safe and all its steps meet it. -/
theorem safe_iff_obeys {cond : σ → ℓ → Prop} {I P : σ → Prop}
    (hstep : ∀ s l s', I s → step s l = some s' → I s')
    (hiff : ∀ s l s', I s → step s l = some s' → (P s' ↔ P s ∧ cond s l))
    {s s' : σ} {ls : List ℓ} (hI : I s) (hrun : run step s ls = some s') :
    P s' ↔ P s ∧ Obeys step cond s ls := by
  induction ls generalizing s with
  | nil =>
      cases hrun
      exact (and_iff_left trivial).symm
  | cons l ls ih =>
      obtain ⟨s₁, hs₁, hrest⟩ := run_cons_some hrun
      rw [ih (hstep s l s₁ hI hs₁) hrest, hiff s l s₁ hI hs₁, and_assoc]
      refine and_congr_right fun _ => and_congr_right fun _ => ?_
      constructor
      · intro h s₂ hs₂
        cases hs₁.symm.trans hs₂
        exact h
      · exact fun h => h s₁ hs₁

/-! ## Counting steps -/

/-- How many steps of the run satisfy `p`. -/
def tally (step : σ → ℓ → Option σ) (p : σ → ℓ → σ → Bool) : σ → List ℓ → Nat
  | _, [] => 0
  | s, l :: ls =>
      match step s l with
      | none => 0
      | some s' => (if p s l s' then 1 else 0) + tally step p s' ls

/-- When no step raises the potential and the steps counted lower it, it bounds their
number. -/
theorem tally_le {p : σ → ℓ → σ → Bool} {I : σ → Prop} {potential : σ → Nat}
    (hstep : ∀ s l s', I s → step s l = some s' → I s')
    (hlower : ∀ s l s', I s → step s l = some s' →
      (if p s l s' then 1 else 0) + potential s' ≤ potential s)
    {s : σ} (hI : I s) (ls : List ℓ) : tally step p s ls ≤ potential s := by
  induction ls generalizing s with
  | nil => exact Nat.zero_le _
  | cons l ls ih =>
      cases hs : step s l with
      | none => simp [tally, hs]
      | some s' =>
          have hrest := ih (hstep s l s' hI hs)
          have hhead := hlower s l s' hI hs
          simp only [tally, hs]
          omega

theorem tally_le_of_obeys {p : σ → ℓ → σ → Bool} {cond : σ → ℓ → Prop} {I : σ → Prop}
    {potential : σ → Nat}
    (hstep : ∀ s l s', I s → cond s l → step s l = some s' → I s')
    (hlower : ∀ s l s', I s → cond s l → step s l = some s' →
      (if p s l s' then 1 else 0) + potential s' ≤ potential s)
    {s : σ} {ls : List ℓ} (hI : I s) (hcond : Obeys step cond s ls) :
    tally step p s ls ≤ potential s := by
  induction ls generalizing s with
  | nil => exact Nat.zero_le _
  | cons l ls ih =>
      cases hs : step s l with
      | none => simp [tally, hs]
      | some s' =>
          have hrest := ih (hstep s l s' hI hcond.1 hs) (hcond.2 s' hs)
          have hhead := hlower s l s' hI hcond.1 hs
          simp only [tally, hs]
          omega

/-- When no step raises the potential and the labels counted lower it, it bounds their
number. -/
theorem countP_le {p : ℓ → Bool} {I : σ → Prop} {potential : σ → Nat}
    (hstep : ∀ s l s', I s → step s l = some s' →
      I s' ∧ (if p l then 1 else 0) + potential s' ≤ potential s)
    {s s' : σ} {ls : List ℓ} (hI : I s) (hrun : run step s ls = some s') :
    ls.countP p + potential s' ≤ potential s := by
  induction ls generalizing s with
  | nil =>
      cases hrun
      simp
  | cons l ls ih =>
      obtain ⟨s₁, hs₁, hrest⟩ := run_cons_some hrun
      obtain ⟨hI₁, hlower⟩ := hstep s l s₁ hI hs₁
      have htail := ih hI₁ hrest
      rw [List.countP_cons]
      omega

theorem length_le {I : σ → Prop} {potential : σ → Nat}
    (hstep : ∀ s l s', I s → step s l = some s' → I s' ∧ potential s' < potential s)
    {s s' : σ} {ls : List ℓ} (hI : I s) (hrun : run step s ls = some s') :
    ls.length + potential s' ≤ potential s := by
  have hcount := countP_le (p := fun _ => true) (fun s l s' hs h =>
    (hstep s l s' hs h).imp_right fun hlower => by simpa [Nat.add_comm] using hlower) hI hrun
  rwa [List.countP_true] at hcount

/-- What no step raises by more than its label allows, no run raises by more than its
labels allow together. -/
theorem le_add_sum {I : σ → Prop} {amount : σ → Int} {allowed : ℓ → Int}
    (hstep : ∀ s l s', I s → step s l = some s' → I s' ∧ amount s' ≤ amount s + allowed l)
    {s s' : σ} {ls : List ℓ} (hI : I s) (hrun : run step s ls = some s') :
    I s' ∧ amount s' ≤ amount s + (ls.map allowed).sum := by
  induction ls generalizing s with
  | nil =>
      cases hrun
      simpa using hI
  | cons l ls ih =>
      obtain ⟨s₁, hs₁, hrest⟩ := run_cons_some hrun
      obtain ⟨hI₁, hhead⟩ := hstep s l s₁ hI hs₁
      obtain ⟨hI', htail⟩ := ih hI₁ hrest
      refine ⟨hI', ?_⟩
      rw [List.map_cons, List.sum_cons]
      omega

/-- A quantity that rises with every step counted by `p` and falls with every step
counted by `q` balances their numbers. -/
theorem tally_balance {p q : σ → ℓ → σ → Bool} {I : σ → Prop} {amount : σ → Nat}
    (hstep : ∀ s l s', I s → step s l = some s' → I s')
    (heach : ∀ s l s', I s → step s l = some s' →
      amount s' + (if q s l s' then 1 else 0) = amount s + (if p s l s' then 1 else 0))
    {s s' : σ} {ls : List ℓ} (hI : I s) (hrun : run step s ls = some s') :
    amount s' + tally step q s ls = amount s + tally step p s ls := by
  induction ls generalizing s with
  | nil =>
      cases hrun
      rfl
  | cons l ls ih =>
      obtain ⟨s₁, hs₁, hrest⟩ := run_cons_some hrun
      have htail := ih (hstep s l s₁ hI hs₁) hrest
      have hhead := heach s l s₁ hI hs₁
      simp only [tally, hs₁]
      omega

/-! ## Simulation -/

section Simulation

variable {τ : Type w} {κ : Type x} {step' : τ → κ → Option τ}

/-- `R` is a simulation when each step is answered by a run of the other system. -/
def Simulates (step : σ → ℓ → Option σ) (step' : τ → κ → Option τ)
    (cond : σ → ℓ → Prop) (R : σ → τ → Prop) : Prop :=
  ∀ s l s' t, R s t → cond s l → step s l = some s' →
    ∃ ls t', run step' t ls = some t' ∧ R s' t'

/-- A simulation answers whole runs, not only steps. -/
theorem Simulates.run {cond : σ → ℓ → Prop} {R : σ → τ → Prop}
    (hsim : Simulates step step' cond R) {s s' : σ} {t : τ} {ls : List ℓ}
    (hR : R s t) (hcond : Obeys step cond s ls) (h : StepSystem.run step s ls = some s') :
    ∃ ls' t', StepSystem.run step' t ls' = some t' ∧ R s' t' := by
  induction ls generalizing s t with
  | nil =>
      cases h
      exact ⟨[], t, rfl, hR⟩
  | cons l ls ih =>
      obtain ⟨s₁, hs₁, hrest⟩ := run_cons_some h
      obtain ⟨ks₁, t₁, ht₁, hR₁⟩ := hsim s l s₁ t hR hcond.1 hs₁
      obtain ⟨ks₂, t₂, ht₂, hR₂⟩ := ih hR₁ (hcond.2 s₁ hs₁) hrest
      exact ⟨ks₁ ++ ks₂, t₂, run_trans ht₁ ht₂, hR₂⟩

theorem map_run {f : σ → τ} {g : ℓ → κ}
    (hstep : ∀ s l, (step s l).map f = step' (f s) (g l)) (s : σ) (ls : List ℓ) :
    (StepSystem.run step s ls).map f = StepSystem.run step' (f s) (ls.map g) := by
  induction ls generalizing s with
  | nil => rfl
  | cons l ls ih =>
      rw [List.map_cons, run_cons, run_cons, ← hstep s l]
      cases step s l with
      | none => rfl
      | some s' => exact ih s'

end Simulation

/-! ## Bursts -/

section Bursts

variable {busy : σ → Bool}

/-- Run all the labels, through busy states and no others, to a state that is not busy. -/
def burst (step : σ → ℓ → Option σ) (busy : σ → Bool) : σ → List ℓ → Option σ
  | _, [] => none
  | s, l :: ls => (step s l).bind fun s' =>
      if busy s' then burst step busy s' ls else if ls.isEmpty then some s' else none

theorem burst_cons_some {s s' : σ} {l : ℓ} {ls : List ℓ}
    (h : burst step busy s (l :: ls) = some s') :
    ∃ s₁, step s l = some s₁ ∧
      (busy s₁ = true ∧ burst step busy s₁ ls = some s' ∨
        busy s₁ = false ∧ ls = [] ∧ s₁ = s') := by
  obtain ⟨s₁, hs₁, hrest⟩ := Option.bind_eq_some_iff.mp h
  refine ⟨s₁, hs₁, ?_⟩
  split at hrest
  · exact .inl ⟨‹_›, hrest⟩
  · split at hrest
    · exact .inr ⟨Bool.eq_false_iff.mpr ‹_›, List.isEmpty_iff.mp ‹_›, Option.some.inj hrest⟩
    · cases hrest

theorem run_of_burst {s s' : σ} {ls : List ℓ} (h : burst step busy s ls = some s') :
    run step s ls = some s' := by
  induction ls generalizing s with
  | nil => cases h
  | cons l ls ih =>
      obtain ⟨s₁, hs₁, ⟨_, hrest⟩ | ⟨_, rfl, rfl⟩⟩ := burst_cons_some h
      · rw [run_cons, hs₁]
        exact ih hrest
      · exact run_one hs₁

end Bursts

/-! ## Observation -/

section Observation

variable {ε : Type w}

/-- What an observer of the steps sees of a run, as far as it goes. -/
def observe (step : σ → ℓ → Option σ) (see : σ → ℓ → Option ε) : σ → List ℓ → List ε
  | _, [] => []
  | s, l :: ls =>
      match step s l with
      | none => []
      | some s' => (see s l).toList ++ observe step see s' ls

variable {see : σ → ℓ → Option ε}

@[simp] theorem observe_nil (s : σ) : observe step see s [] = [] := rfl

theorem observe_cons {s s' : σ} {l : ℓ} (ls : List ℓ) (h : step s l = some s') :
    observe step see s (l :: ls) = (see s l).toList ++ observe step see s' ls := by
  simp [observe, h]

theorem observe_append {s s' : σ} {ls : List ℓ} (ls' : List ℓ) (h : run step s ls = some s') :
    observe step see s (ls ++ ls') = observe step see s ls ++ observe step see s' ls' := by
  induction ls generalizing s with
  | nil =>
      cases h
      rfl
  | cons l ls ih =>
      obtain ⟨s₁, hs₁, hrest⟩ := run_cons_some h
      rw [List.cons_append, observe_cons _ hs₁, observe_cons _ hs₁, ih hrest, List.append_assoc]

/-- What a step preserves together with all that was seen before it, a run preserves
together with all that is seen of it. -/
theorem observe_invariant {R : σ → List ε → Prop}
    (hstep : ∀ s l s' seen, R s seen → step s l = some s' → R s' (seen ++ (see s l).toList))
    {s s' : σ} {ls : List ℓ} {seen : List ε} (hR : R s seen) (h : run step s ls = some s') :
    R s' (seen ++ observe step see s ls) := by
  induction ls generalizing s seen with
  | nil =>
      cases h
      simpa using hR
  | cons l ls ih =>
      obtain ⟨s₁, hs₁, hrest⟩ := run_cons_some h
      rw [observe_cons ls hs₁, ← List.append_assoc]
      exact ih (hstep s l s₁ seen hR hs₁) hrest

end Observation

end StepSystem
