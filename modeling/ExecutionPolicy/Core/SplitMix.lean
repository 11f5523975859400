import ExecutionPolicy.Foundation.Scramble

/-! # SplitMix64

The generator behind both cores: a counter that strides through the 64-bit words, and a
function that scrambles it.
-/

namespace ExecutionPolicy

/-- The internal generator; its state is the counter. -/
@[ext] structure SplitMix64 where
  state : UInt64
deriving DecidableEq, Repr

namespace SplitMix64

/-- The golden-ratio increment of the counter. -/
def gamma : UInt64 := 0x9E3779B97F4A7C15

def new (seed : UInt64) : SplitMix64 := ⟨seed⟩

def mix (z : UInt64) : UInt64 :=
  let z := (z ^^^ (z >>> 30)) * 0xBF58476D1CE4E5B9
  let z := (z ^^^ (z >>> 27)) * 0x94D049BB133111EB
  z ^^^ (z >>> 31)

def nextU64 (r : SplitMix64) : UInt64 × SplitMix64 :=
  let state := r.state + gamma
  (mix state, ⟨state⟩)

def after (r : SplitMix64) (n : Nat) : SplitMix64 := (fun r => r.nextU64.2)^[n] r

def answer (r : SplitMix64) (n : Nat) : UInt64 := (r.after n).nextU64.1

example : (new 42).answer 0 = 0xBDD732262FEB6E95 := by decide

/-! ## The counter and its scrambling -/

theorem toBitVec_mix (z : UInt64) :
    (mix z).toBitVec =
      Scramble.xorShift 31
        (Scramble.xorShift 27 (Scramble.xorShift 30 z.toBitVec * 0xBF58476D1CE4E5B9#64) *
          0x94D049BB133111EB#64) := rfl

theorem mix_bijective : Function.Bijective mix := by
  have hfirst : Function.Bijective fun x : BitVec 64 => x * 0xBF58476D1CE4E5B9#64 :=
    Scramble.mul_bijective (d := 0x96DE1B173F119089#64) (by decide)
  have hsecond : Function.Bijective fun x : BitVec 64 => x * 0x94D049BB133111EB#64 :=
    Scramble.mul_bijective (d := 0x319642B2D24D8EC3#64) (by decide)
  have hbits := (Scramble.xorShift_bijective (w := 64) (k := 31) (by decide)).comp
    (hsecond.comp ((Scramble.xorShift_bijective (w := 64) (k := 27) (by decide)).comp
      (hfirst.comp (Scramble.xorShift_bijective (w := 64) (k := 30) (by decide)))))
  constructor
  · intro x y h
    have hword : (mix x).toBitVec = (mix y).toBitVec := congrArg UInt64.toBitVec h
    rw [toBitVec_mix, toBitVec_mix] at hword
    exact UInt64.toBitVec_inj.mp (hbits.1 hword)
  · intro v
    obtain ⟨z, hz⟩ := hbits.2 v.toBitVec
    exact ⟨⟨z⟩, UInt64.toBitVec_inj.mp ((toBitVec_mix ⟨z⟩).trans hz)⟩

theorem after_succ (r : SplitMix64) (n : Nat) : r.after (n + 1) = (r.after n).nextU64.2 :=
  Function.iterate_succ_apply' _ n r

theorem toBitVec_after (r : SplitMix64) (n : Nat) :
    (r.after n).state.toBitVec = Scramble.walk gamma.toBitVec r.state.toBitVec n := by
  induction n with
  | zero => simp [after]
  | succ n ih =>
      rw [after_succ, Scramble.walk_succ, ← ih]
      rfl

theorem answer_eq (r : SplitMix64) (n : Nat) : r.answer n = mix (r.after (n + 1)).state := by
  rw [after_succ]
  rfl

/-- The counter comes by every word once in each 2^64 answers. -/
theorem state_bijOn (r : SplitMix64) :
    Set.BijOn (fun n => (r.after (n + 1)).state) (Set.Iio (2 ^ 64)) Set.univ := by
  have hunit : gamma.toBitVec * 0xF1DE83E19937733D#64 = 1 := by decide
  have hwalk := Scramble.walk_bijOn hunit (r.state.toBitVec + gamma.toBitVec)
  have hstate : ∀ n, (r.after (n + 1)).state.toBitVec =
      Scramble.walk gamma.toBitVec (r.state.toBitVec + gamma.toBitVec) n := by
    intro n
    rw [toBitVec_after, Scramble.walk_succ, Scramble.walk, Scramble.walk]
    ring
  refine ⟨fun _ _ => Set.mem_univ _, fun n hn m hm hnm => ?_, fun v _ => ?_⟩
  · apply hwalk.injOn hn hm
    rw [← hstate, ← hstate]
    exact congrArg UInt64.toBitVec hnm
  · obtain ⟨n, hn, hv⟩ := hwalk.surjOn (Set.mem_univ v.toBitVec)
    exact ⟨n, hn, UInt64.toBitVec_inj.mp ((hstate n).trans hv)⟩

theorem answer_bijOn (r : SplitMix64) : Set.BijOn r.answer (Set.Iio (2 ^ 64)) Set.univ := by
  have hmix : Set.BijOn mix Set.univ Set.univ := Set.bijOn_univ.mpr mix_bijective
  exact (hmix.comp r.state_bijOn).congr fun n _ => (r.answer_eq n).symm

theorem after_period (r : SplitMix64) (n : Nat) : r.after (n + 2 ^ 64) = r.after n := by
  apply SplitMix64.ext
  apply UInt64.toBitVec_inj.mp
  rw [toBitVec_after, toBitVec_after, Scramble.walk_period]

end SplitMix64

/-- From every seed, any 2^64 answers in a row are all the 64-bit words, each of them once,
and then the same answers come again in the same order. -/
theorem splitmix_full_period (seed : UInt64) :
    (∀ start v, ∃! n, start ≤ n ∧ n < start + 2 ^ 64 ∧ (SplitMix64.new seed).answer n = v) ∧
      ∀ n, (SplitMix64.new seed).answer (n + 2 ^ 64) = (SplitMix64.new seed).answer n := by
  have hlater : ∀ start n, (SplitMix64.new seed).answer (start + n) =
      ((SplitMix64.new seed).after start).answer n := by
    intro start n
    rw [SplitMix64.answer, SplitMix64.answer, SplitMix64.after, SplitMix64.after, SplitMix64.after,
      Nat.add_comm, Function.iterate_add_apply]
  constructor
  · intro start v
    have hbij := ((SplitMix64.new seed).after start).answer_bijOn
    obtain ⟨n, hn, hv⟩ := hbij.surjOn (Set.mem_univ v)
    have hlt : n < 2 ^ 64 := hn
    refine ⟨start + n, ⟨by omega, by omega, (hlater start n).trans hv⟩, ?_⟩
    rintro m ⟨hle, hm, hmv⟩
    obtain ⟨k, rfl⟩ := Nat.exists_eq_add_of_le hle
    have hk : k < 2 ^ 64 := by omega
    rw [hlater] at hmv
    rw [hbij.injOn hk hn (hmv.trans hv.symm)]
  · intro n
    rw [SplitMix64.answer, SplitMix64.answer, SplitMix64.after_period]

end ExecutionPolicy
