import Mathlib

/-! # Scrambling words

The steps of which counter-based generators are made, over words of any width: to fold the
high bits of a word into the low ones, to multiply it by a unit, and to walk through the
words by a fixed stride. Each of them loses nothing.
-/

namespace Scramble

variable {w : Nat}

/-- Fold a word onto itself, `k` bits lower. -/
def xorShift (k : Nat) (x : BitVec w) : BitVec w := x ^^^ (x >>> k)

instance finiteBitVec : Finite (BitVec w) :=
  Finite.of_equiv (Fin (2 ^ w)) BitVec.equivFin.symm.toEquiv

/-- The top bits of a folded word are its own, and each bit below is known from those
above. -/
theorem xorShift_injective {k : Nat} (hk : 0 < k) :
    Function.Injective (xorShift k : BitVec w → BitVec w) := by
  intro x y h
  have hbit : ∀ n i, w ≤ i + n → x.getLsbD i = y.getLsbD i := by
    intro n
    induction n with
    | zero =>
        intro i hi
        rw [BitVec.getLsbD_of_ge x i hi, BitVec.getLsbD_of_ge y i hi]
    | succ n ih =>
        intro i hi
        have habove := ih (k + i) (by omega)
        have hsame := congrArg (BitVec.getLsbD · i) h
        simpa [xorShift, habove] using hsame
  exact BitVec.eq_of_getLsbD_eq fun i _ => hbit w i (by omega)

theorem xorShift_bijective {k : Nat} (hk : 0 < k) :
    Function.Bijective (xorShift k : BitVec w → BitVec w) :=
  Finite.injective_iff_bijective.mp (xorShift_injective hk)

theorem mul_bijective {c d : BitVec w} (h : c * d = 1) :
    Function.Bijective fun x : BitVec w => x * c := by
  have hinjective : Function.Injective fun x : BitVec w => x * c := by
    intro x y hxy
    have hmul := congrArg (· * d) hxy
    simpa only [mul_assoc, h, mul_one] using hmul
  exact Finite.injective_iff_bijective.mp hinjective

/-! ## Walks -/

def walk (stride start : BitVec w) (n : Nat) : BitVec w := start + BitVec.ofNat w n * stride

@[simp] theorem walk_zero (stride start : BitVec w) : walk stride start 0 = start := by
  simp [walk]

theorem walk_succ (stride start : BitVec w) (n : Nat) :
    walk stride start (n + 1) = walk stride start n + stride := by
  have hone : BitVec.ofNat w (n + 1) = BitVec.ofNat w n + 1 := by
    rw [BitVec.ofNat_add]
    rfl
  rw [walk, walk, hone]
  ring

theorem ofNat_injOn : Set.InjOn (BitVec.ofNat w) (Set.Iio (2 ^ w)) := by
  intro n hn m hm h
  have hnat := congrArg BitVec.toNat h
  rwa [BitVec.toNat_ofNat, BitVec.toNat_ofNat, Nat.mod_eq_of_lt hn, Nat.mod_eq_of_lt hm] at hnat

theorem walk_bijOn {stride unit : BitVec w} (h : stride * unit = 1) (start : BitVec w) :
    Set.BijOn (walk stride start) (Set.Iio (2 ^ w)) Set.univ := by
  refine ⟨fun _ _ => Set.mem_univ _, fun n hn m hm hnm => ?_, fun v _ => ?_⟩
  · have hmul : BitVec.ofNat w n * stride = BitVec.ofNat w m * stride := by
      simpa [walk] using hnm
    exact ofNat_injOn hn hm ((mul_bijective h).1 hmul)
  · refine ⟨((v - start) * unit).toNat, BitVec.isLt _, ?_⟩
    rw [walk, BitVec.ofNat_toNat, BitVec.setWidth_eq, mul_assoc, mul_comm unit, h]
    ring

theorem walk_period (stride start : BitVec w) (n : Nat) :
    walk stride start (n + 2 ^ w) = walk stride start n := by
  have hsame : BitVec.ofNat w (n + 2 ^ w) = BitVec.ofNat w n := by
    apply BitVec.eq_of_toNat_eq
    simp
  rw [walk, walk, hsame]

end Scramble
