import ExecutionPolicy.Foundation.History

/-! # Computations that may panic

A computation returns a value with the state it made, or panics and leaves the state as it
was at that moment. A sequence of operations returns exactly when each of them fits the
state that the ones before it made; a panic under the lock of a mutex poisons it.
-/

namespace Checked

open History

variable {ε σ α ι : Type}

/-- A number up to `limit`, or a panic. -/
def within (limit : Nat) (e : ε) (n : Nat) : EStateM ε σ Nat :=
  if n ≤ limit then pure n else throw e

theorem run_within_of_le {limit n : Nat} (h : n ≤ limit) (e : ε) (s : σ) :
    (within limit e n).run s = .ok n s := by
  simp [within, h]

theorem run_within_of_lt {limit n : Nat} (h : limit < n) (e : ε) (s : σ) :
    (within limit e n).run s = .error e s := by
  rw [within, if_neg (Nat.not_le.mpr h)]
  rfl

/-! ## Sequences -/

/-- At `s` the operation does what `next` says if it fits there, and panics otherwise. -/
structure Follows (op : EStateM ε σ Unit) (s s' : σ) (fits : Prop) : Prop where
  returns : fits → op.run s = .ok () s'
  panics : ¬ fits → ∃ e left, op.run s = .error e left

theorem run_discard (x : EStateM ε σ α) (s : σ) :
    (discard x).run s =
      match x.run s with
      | .ok _ s' => .ok () s'
      | .error e left => .error e left := by
  have hmap : discard x = (fun _ => ()) <$> x := rfl
  rw [hmap, EStateM.run_map]
  cases x.run s <;> rfl

theorem follows_discard {x : EStateM ε σ α} {s s' : σ} {fits : Prop}
    (hreturns : fits → ∃ a, x.run s = .ok a s')
    (hpanics : ¬ fits → ∃ e left, x.run s = .error e left) :
    Follows (discard x) s s' fits := by
  constructor
  · intro h
    obtain ⟨a, hrun⟩ := hreturns h
    rw [run_discard, hrun]
  · intro h
    obtain ⟨e, left, hrun⟩ := hpanics h
    exact ⟨e, left, by rw [run_discard, hrun]⟩

section Sequences

variable {τ : Type} {op : ι → EStateM ε τ Unit} {next : σ → ι → σ} {fits : σ → ι → Prop}
  {held : σ → τ} {I : σ → Prop} {s : σ}

theorem run_forM_snoc (ops : List ι) (i : ι) (t : τ) :
    (forM (ops ++ [i]) op).run t =
      match (forM ops op).run t with
      | .ok _ t' => (op i).run t'
      | .error e left => .error e left := by
  rw [List.forM_append]
  simp only [EStateM.run_bind, List.forM_cons, List.forM_nil, bind_pure_unit]
  cases (forM ops op).run t <;> rfl

/-- Operations one after the other follow the replay of `next`, whose states the computation
holds as `held` says, and return exactly when each of them fits. -/
theorem follows_forM (hI : ∀ s i, I s → I (next s i))
    (hop : ∀ s i, I s → Follows (op i) (held s) (held (next s i)) (fits s i)) (hs : I s)
    (ops : List ι) :
    Follows (forM ops op) (held s) (held (replay next s ops))
      (Justified (fun past i => fits (replay next s past) i) ops) := by
  induction ops using List.reverseRecOn with
  | nil => exact ⟨fun _ => rfl, fun h => absurd justified_nil h⟩
  | append_singleton ops i ih =>
      have hone := hop (replay next s ops) i (replay_invariant hI hs ops)
      rw [justified_snoc, replay_append]
      constructor
      · intro h
        rw [run_forM_snoc, ih.returns h.1]
        exact hone.returns h.2
      · intro h
        rw [run_forM_snoc]
        by_cases hops : Justified (fun past i => fits (replay next s past) i) ops
        · rw [ih.returns hops]
          exact hone.panics fun hi => h ⟨hops, hi⟩
        · obtain ⟨e, left, hrun⟩ := ih.panics hops
          rw [hrun]
          exact ⟨e, left, rfl⟩

theorem Follows.returns_iff {x : EStateM ε σ Unit} {s' : σ} {p : Prop} (h : Follows x s s' p) :
    x.run s = .ok () s' ↔ p := by
  constructor
  · intro hrun
    by_contra hp
    obtain ⟨e, left, herror⟩ := h.panics hp
    cases hrun.symm.trans herror
  · exact h.returns

end Sequences

/-! ## Locks -/

structure Mutex (σ : Type) where
  value : σ
  poisoned : Bool
deriving DecidableEq, Repr

/-- `lock().unwrap()` panics on a poisoned lock, and a panic of `x` poisons it. -/
def Mutex.locked (poison : ε) (x : EStateM ε σ α) : EStateM ε (Mutex σ) α := fun m =>
  if m.poisoned then .error poison m
  else
    match x.run m.value with
    | .ok a s => .ok a { value := s, poisoned := false }
    | .error e s => .error e { value := s, poisoned := true }

section Locks

variable {x : EStateM ε σ α} {s s' : σ} {poison : ε}

theorem run_locked_of_ok {a : α} (h : x.run s = .ok a s') :
    (Mutex.locked poison x).run ⟨s, false⟩ = .ok a ⟨s', false⟩ := by
  simp only [Mutex.locked, EStateM.run] at h ⊢
  simp [h]

theorem run_locked_of_error {e : ε} (h : x.run s = .error e s') :
    (Mutex.locked poison x).run ⟨s, false⟩ = .error e ⟨s', true⟩ := by
  simp only [Mutex.locked, EStateM.run] at h ⊢
  simp [h]

theorem run_locked_poisoned (s : σ) :
    (Mutex.locked poison x).run ⟨s, true⟩ = .error poison ⟨s, true⟩ := rfl

end Locks

end Checked
