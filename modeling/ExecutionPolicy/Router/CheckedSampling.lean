import ExecutionPolicy.Foundation.Checked
import ExecutionPolicy.Router.FailingFast

/-! # Sampling with its checks

`sample_distinct` with what its arithmetic can panic of: a difference below zero, a remainder
by zero, a sum past `usize::MAX` and an index out of bounds. It asks any generator.
-/

namespace ExecutionPolicy

open Checked

inductive DrawPanic where
  | subtractOverflow
  | remainderByZero
  | addOverflow
  | outOfBounds
deriving DecidableEq, Repr

def Usize.max : Nat := 2 ^ 64 - 1

section Source

variable {σ : Type}

def Usize.sub (a b : Nat) : EStateM DrawPanic σ Nat :=
  if b ≤ a then pure (a - b) else throw .subtractOverflow

def Usize.rem (a b : Nat) : EStateM DrawPanic σ Nat :=
  if b = 0 then throw .remainderByZero else pure (a % b)

def Usize.add (a b : Nat) : EStateM DrawPanic σ Nat := within Usize.max .addOverflow (a + b)

def swapChecked (idx : List Nat) (i j : Nat) : EStateM DrawPanic σ (List Nat) :=
  if i < idx.length ∧ j < idx.length then pure (swap idx i j) else throw .outOfBounds

def drawRound (nextU64 : σ → UInt64 × σ) (n i : Nat) (idx : List Nat) :
    EStateM DrawPanic σ (List Nat) := do
  let r ← modifyGet nextU64
  let rest ← Usize.sub n i
  let offset ← Usize.rem r.toNat rest
  let j ← Usize.add i offset
  swapChecked idx i j

/-- The loop with `m` rounds to go, the next one being round `i`. -/
def drawDistinctChecked (nextU64 : σ → UInt64 × σ) (n : Nat) :
    Nat → Nat → List Nat → EStateM DrawPanic σ (List Nat)
  | 0, _, idx => pure idx
  | m + 1, i, idx => do
      let swapped ← drawRound nextU64 n i idx
      drawDistinctChecked nextU64 n m (i + 1) swapped

def sampleDistinctChecked (nextU64 : σ → UInt64 × σ) (n k : Nat) :
    EStateM DrawPanic σ (List Nat) := do
  let idx ← drawDistinctChecked nextU64 n k 0 (List.range n)
  return idx.take k

end Source

/-! ## One round -/

section Rounds

variable {σ : Type} {nextU64 : σ → UInt64 × σ} {n m i k : Nat} {idx : List Nat} {s : σ}

theorem run_drawRound (hi : i < n) (hn : n ≤ Usize.max) (hlen : idx.length = n) :
    (drawRound nextU64 n i idx).run s =
      .ok (swap idx i (i + (nextU64 s).1.toNat % (n - i))) (nextU64 s).2 := by
  have hoffset := Nat.mod_lt (nextU64 s).1.toNat (show n - i > 0 by omega)
  have hrest : n - i ≠ 0 := by omega
  have hsum : i + (nextU64 s).1.toNat % (n - i) ≤ Usize.max := by omega
  have hbounds : i < idx.length ∧ i + (nextU64 s).1.toNat % (n - i) < idx.length := by omega
  simp [drawRound, Usize.sub, Usize.rem, Usize.add, swapChecked, run_within_of_le hsum, hrest,
    Nat.le_of_lt hi, hbounds]

theorem run_drawRound_past (idx : List Nat) (s : σ) :
    (drawRound nextU64 n n idx).run s = .error .remainderByZero (nextU64 s).2 := by
  simp only [drawRound, Usize.sub, Usize.rem, EStateM.run_bind, Nat.le_refl, if_true,
    Nat.sub_self]
  rfl

/-! ## The loop -/

def asked (nextU64 : σ → UInt64 × σ) (s : σ) : σ := (nextU64 s).2

def Agrees (nextU64 : σ → UInt64 × σ) : Nat → σ → Core → Prop
  | 0, _, _ => True
  | m + 1, s, core =>
      (nextU64 s).1 = core.nextU64.1 ∧ Agrees nextU64 m (asked nextU64 s) core.nextU64.2

theorem run_drawDistinctChecked (hroom : i + m ≤ n) (hn : n ≤ Usize.max) (hlen : idx.length = n)
    {core : Core} (h : Agrees nextU64 m s core) :
    (drawDistinctChecked nextU64 n m i idx).run s =
      .ok (drawDistinct n m i idx core).1 ((asked nextU64)^[m] s) := by
  induction m generalizing i idx s core with
  | zero => rfl
  | succ m ih =>
      obtain ⟨hanswer, hrest⟩ := h
      have hround : (drawRound nextU64 n i idx).run s = .ok _ _ :=
        run_drawRound (by omega) hn hlen
      rw [drawDistinctChecked, EStateM.run_bind, hround]
      simp only [drawDistinct, hanswer]
      exact ih (by omega) ((length_swap ..).trans hlen) hrest

theorem run_drawDistinctChecked_past (nextU64 : σ → UInt64 × σ) (hi : i ≤ n) (hpast : n < i + m)
    (hn : n ≤ Usize.max) (hlen : idx.length = n) (s : σ) :
    ∃ left, (drawDistinctChecked nextU64 n m i idx).run s = .error .remainderByZero left := by
  induction m generalizing i idx s with
  | zero => omega
  | succ m ih =>
      rw [drawDistinctChecked, EStateM.run_bind]
      rcases Nat.lt_or_eq_of_le hi with hlt | rfl
      · have hround : (drawRound nextU64 n i idx).run s = .ok _ _ := run_drawRound hlt hn hlen
        rw [hround]
        exact ih (by omega) (by omega) ((length_swap ..).trans hlen) _
      · rw [run_drawRound_past]
        exact ⟨_, rfl⟩

theorem run_sampleDistinctChecked (hk : k ≤ n) (hn : n ≤ Usize.max) {core : Core}
    (h : Agrees nextU64 k s core) :
    (sampleDistinctChecked nextU64 n k).run s =
      .ok (sampleDistinct n k core).1 ((asked nextU64)^[k] s) := by
  have hroom : 0 + k ≤ n := by omega
  rw [sampleDistinctChecked, EStateM.run_bind,
    run_drawDistinctChecked hroom hn List.length_range h]
  rfl

theorem run_sampleDistinctChecked_past (nextU64 : σ → UInt64 × σ) (hk : n < k)
    (hn : n ≤ Usize.max) (s : σ) :
    ∃ left, (sampleDistinctChecked nextU64 n k).run s = .error .remainderByZero left := by
  have hpast : n < 0 + k := by omega
  obtain ⟨left, hpanic⟩ :=
    run_drawDistinctChecked_past nextU64 (Nat.zero_le n) hpast hn List.length_range s
  rw [sampleDistinctChecked, EStateM.run_bind, hpanic]
  exact ⟨left, rfl⟩

end Rounds

/-! ## Generators -/

section Generators

variable {σ : Type} {nextU64 : σ → UInt64 × σ} {n m k : Nat} {s : σ}

def answers (nextU64 : σ → UInt64 × σ) : Nat → σ → List UInt64
  | 0, _ => []
  | m + 1, s => (nextU64 s).1 :: answers nextU64 m (asked nextU64 s)

theorem agrees_answers (nextU64 : σ → UInt64 × σ) (m : Nat) (s : σ) :
    Agrees nextU64 m s ⟨0, [], answers nextU64 m s⟩ := by
  induction m generalizing s with
  | zero => trivial
  | succ m ih => exact ⟨rfl, ih (asked nextU64 s)⟩

theorem agrees_self (m : Nat) (core : Core) : Agrees Core.nextU64 m core core := by
  induction m generalizing core with
  | zero => trivial
  | succ m ih => exact ⟨rfl, ih core.nextU64.2⟩

def streamNext (stream : Stream' UInt64) : UInt64 × Stream' UInt64 := (stream.head, stream.tail)

/-- What a script answers, for ever. -/
def Core.stream (draws : List UInt64) : Stream' UInt64 :=
  Stream'.appendStream' draws (Stream'.const 0)

theorem agrees_stream (m : Nat) (draws : List UInt64) :
    Agrees streamNext m (Core.stream draws) ⟨0, [], draws⟩ := by
  induction m generalizing draws with
  | zero => trivial
  | succ m ih =>
      cases draws with
      | nil => exact ⟨rfl, ih []⟩
      | cons r rs => exact ⟨rfl, ih rs⟩

theorem drawDistinct_asked (n m i : Nat) (idx : List Nat) (core : Core) :
    (drawDistinct n m i idx core).2 = (asked Core.nextU64)^[m] core := by
  induction m generalizing i idx core with
  | zero => rfl
  | succ m ih => exact ih _ _ _

theorem run_sampleDistinctChecked_core (hk : k ≤ n) (hn : n ≤ Usize.max) (core : Core) :
    (sampleDistinctChecked Core.nextU64 n k).run core =
      .ok (sampleDistinct n k core).1 (sampleDistinct n k core).2 := by
  rw [run_sampleDistinctChecked hk hn (agrees_self k core)]
  exact congrArg _ (drawDistinct_asked n k 0 (List.range n) core).symm

example : (sampleDistinctChecked Core.nextU64 4 2).run ⟨0, [], [7, 9]⟩ = .ok [3, 1] (.still 0) :=
  rfl

def positionsChecked (nextU64 : σ → UInt64 × σ) (sample : Option Nat) (len : Nat) :
    EStateM DrawPanic σ (List Nat) :=
  match sample with
  | some k => if k < len then sampleDistinctChecked nextU64 len k else pure (List.range len)
  | none => pure (List.range len)

/-- Whatever a router samples, drawing does not panic. -/
theorem run_positionsChecked (sample : Option Nat) {len : Nat} (hlen : len ≤ Usize.max)
    (core : Core) :
    (positionsChecked Core.nextU64 sample len).run core =
      .ok (positions sample len core).1 (positions sample len core).2 := by
  unfold positionsChecked positions
  cases sample with
  | none => rfl
  | some k =>
      by_cases hk : k < len
      · simp only [if_pos hk]
        exact run_sampleDistinctChecked_core (Nat.le_of_lt hk) hlen core
      · simp only [if_neg hk]
        rfl

end Generators

/-! ## Soundness and completeness -/

/-- With every generator a sample of `k` of `n` indices is drawn without a panic, and it is
`k` distinct ones. Every such tuple is the sample of some stream, so that no healthy member
is kept out of the samples of a router, whatever their size. -/
structure SamplesDistinct (n k : Nat) : Prop where
  sound : ∀ (σ : Type) (nextU64 : σ → UInt64 × σ) (s : σ), ∃ ps left,
    (sampleDistinctChecked nextU64 n k).run s = .ok ps left ∧
      ps.length = k ∧ ps.Nodup ∧ ∀ p ∈ ps, p < n
  complete : ∀ ps : List Nat, ps.length = k → ps.Nodup → (∀ p ∈ ps, p < n) →
    ∃ stream left, (sampleDistinctChecked streamNext n k).run stream = .ok ps left
  reaches : ∀ (Id E : Type) (p : RouterPolicy Id E) (healthy : List Nat), healthy.length = n →
    ∀ ti ∈ healthy, ∃ core, p.Draws healthy core ti

section Samples

variable {n k : Nat}

theorem sampleDistinctChecked_sound (hk : k ≤ n) (hn : n ≤ Usize.max) {σ : Type}
    (nextU64 : σ → UInt64 × σ) (s : σ) :
    ∃ ps left, (sampleDistinctChecked nextU64 n k).run s = .ok ps left ∧
      ps.length = k ∧ ps.Nodup ∧ ∀ p ∈ ps, p < n :=
  ⟨_, _, run_sampleDistinctChecked hk hn (agrees_answers nextU64 k s),
    length_sampleDistinct hk _, nodup_sampleDistinct hk _, fun _ hp => sampleDistinct_lt hk hp⟩

theorem sampleDistinctChecked_complete (hn : n ≤ Usize.max) {ps : List Nat} (hk : ps.length ≤ n)
    (hps : ps.Nodup) (hlt : ∀ p ∈ ps, p < n) :
    ∃ stream left,
      (sampleDistinctChecked streamNext n ps.length).run stream = .ok ps left := by
  have hwidth : n ≤ 2 ^ 64 := hn.trans (Nat.sub_le _ _)
  obtain ⟨draws, hdraws⟩ := exists_sampleDistinct hwidth hk hps hlt
  have hrun := run_sampleDistinctChecked hk hn (agrees_stream ps.length draws)
  rw [hdraws 0 []] at hrun
  exact ⟨Core.stream draws, _, hrun⟩

theorem exists_sample_mem {i : Nat} (hi : i < n) (hpos : 0 < k) (hk : k ≤ n) :
    ∃ ps : List Nat, ps.length = k ∧ ps.Nodup ∧ (∀ p ∈ ps, p < n) ∧ i ∈ ps := by
  have hmem : i ∈ List.range n := List.mem_range.mpr hi
  have hsub : ((List.range n).erase i).take (k - 1) ⊆ (List.range n).erase i :=
    List.take_subset _ _
  have hrest : ((List.range n).erase i).length = n - 1 := by
    rw [List.length_erase_of_mem hmem, List.length_range]
  refine ⟨i :: ((List.range n).erase i).take (k - 1), ?_, ?_, ?_, List.mem_cons_self⟩
  · rw [List.length_cons, List.length_take, hrest]
    omega
  · refine List.nodup_cons.mpr ⟨fun hin => ?_, ?_⟩
    · exact List.nodup_range.not_mem_erase (hsub hin)
    · exact (List.nodup_range.erase i).sublist (List.take_sublist _ _)
  · intro p hp
    rcases List.mem_cons.mp hp with rfl | htail
    · exact hi
    · exact List.mem_range.mp (List.mem_of_mem_erase (hsub htail))

theorem exists_positions_mem {sample : Option Nat} {i : Nat} (hn : n ≤ 2 ^ 64)
    (hsample : sample ≠ some 0) (hi : i < n) : ∃ core, i ∈ (positions sample n core).1 := by
  have hall : i ∈ List.range n := List.mem_range.mpr hi
  cases sample with
  | none => exact ⟨.still 0, hall⟩
  | some k =>
      rcases Nat.lt_or_ge k n with hk | hk
      · have hpos : 0 < k := Nat.pos_of_ne_zero fun h0 => hsample (congrArg some h0)
        obtain ⟨ps, rfl, hps, hlt, hmem⟩ := exists_sample_mem hi hpos (Nat.le_of_lt hk)
        obtain ⟨draws, hdraws⟩ := exists_sampleDistinct hn (Nat.le_of_lt hk) hps hlt
        refine ⟨⟨0, [], draws⟩, ?_⟩
        rw [positions_of_lt hk, hdraws]
        exact hmem
      · refine ⟨.still 0, ?_⟩
        rw [positions_of_le hk]
        exact hall

/-- No healthy member is kept out of the samples. -/
theorem RouterPolicy.exists_draws_member {Id E : Type} (p : RouterPolicy Id E)
    {healthy : List Nat} (hlen : healthy.length ≤ 2 ^ 64) {ti : Nat} (hti : ti ∈ healthy) :
    ∃ core, p.Draws healthy core ti := by
  have hsample : p.select.sample ≠ some 0 := by
    simpa [Pick.sampleIsValid] using p.sample_valid
  obtain ⟨i, hi, hget⟩ := List.getElem_of_mem hti
  obtain ⟨core, hcore⟩ := exists_positions_mem hlen hsample hi
  exact ⟨core, i, hcore, (List.getElem?_eq_getElem hi).trans (congrArg some hget)⟩

end Samples

/-- For all `usize` numbers `n` and `k` with `k` no larger than `n`: sampling `k` of `n` is
sound and complete. -/
theorem samples_distinct (n k : UInt64) (hk : k ≤ n) : SamplesDistinct n.toNat k.toNat := by
  have hn : n.toNat ≤ Usize.max := Nat.le_pred_of_lt n.toNat_lt
  have hle : k.toNat ≤ n.toNat := UInt64.le_iff_toNat_le.mp hk
  refine ⟨?_, ?_, ?_⟩
  · intro σ nextU64 s
    exact sampleDistinctChecked_sound hle hn nextU64 s
  · intro ps hlength hps hlt
    rw [← hlength] at hle ⊢
    exact sampleDistinctChecked_complete hn hle hps hlt
  · intro Id E p healthy hlength ti hti
    exact p.exists_draws_member (hlength.trans_le (Nat.le_of_lt n.toNat_lt)) hti

/-- Two of four. -/
theorem samples_distinct_twoOfFour : (2 : UInt64) ≤ 4 ∧ SamplesDistinct 4 2 :=
  ⟨by decide, samples_distinct 4 2 (by decide)⟩

end ExecutionPolicy
