import Mathlib

/-! # Serving the least served

Somebody hands out units one by one, each to a receiver that comes out least. Where the
least is by the units received, nobody gets two units ahead, even when a round stops
halfway; where it is by what one more unit costs, and the cost is per weight, shares follow
the weights.
-/

namespace Sharing

universe u v

variable {ι : Type u} [DecidableEq ι]

def serve (count : ι → Nat) (m : ι) : ι → Nat := Function.update count m (count m + 1)

@[simp] theorem serve_self (count : ι → Nat) (m : ι) : serve count m m = count m + 1 :=
  Function.update_self ..

theorem serve_ne (count : ι → Nat) {m i : ι} (h : i ≠ m) : serve count m i = count i :=
  Function.update_of_ne h ..

theorem le_serve (count : ι → Nat) (m i : ι) : count i ≤ serve count m i := by
  by_cases h : i = m
  · rw [h, serve_self]
    omega
  · rw [serve_ne count h]

theorem sum_serve [Fintype ι] (count : ι → Nat) (m : ι) :
    ∑ i, serve count m i = ∑ i, count i + 1 := by
  have hothers : ∑ i ∈ Finset.univ.erase m, serve count m i =
      ∑ i ∈ Finset.univ.erase m, count i :=
    Finset.sum_congr rfl fun i hi => serve_ne count (Finset.ne_of_mem_erase hi)
  rw [← Finset.add_sum_erase _ _ (Finset.mem_univ m), hothers, serve_self,
    ← Finset.add_sum_erase _ count (Finset.mem_univ m)]
  omega

/-! ## Turns -/

section Turns

variable {count : ι → Nat} {rest : Set ι} {m : ι}

/-- Nobody is two units ahead of anybody. -/
def Spread (count : ι → Nat) : Prop := ∀ i j, count i ≤ count j + 1

/-- A round is under way: those not in `rest` had their turn, and none of them is behind
anybody who is still waiting. -/
structure Round (count : ι → Nat) (rest : Set ι) : Prop where
  spread : Spread count
  served : ∀ i, i ∉ rest → ∀ j ∈ rest, count j ≤ count i

omit [DecidableEq ι] in
theorem spread_of_const {n : Nat} (h : ∀ i, count i = n) : Spread count := by
  intro i j
  have hi := h i
  have hj := h j
  omega

omit [DecidableEq ι] in
theorem Spread.round (h : Spread count) (hall : ∀ i, i ∈ rest) : Round count rest :=
  ⟨h, fun i hi => absurd (hall i) hi⟩

omit [DecidableEq ι] in
theorem Round.least (h : Round count rest) (hm : m ∈ rest)
    (hleast : ∀ j ∈ rest, count m ≤ count j) (i : ι) : count m ≤ count i := by
  by_cases hi : i ∈ rest
  · exact hleast i hi
  · exact h.served i hi m hm

theorem Round.turn (h : Round count rest) (hm : m ∈ rest)
    (hleast : ∀ j ∈ rest, count m ≤ count j) {rest' : Set ι}
    (hrest : ∀ i, i ∈ rest' ↔ i ∈ rest ∧ i ≠ m) : Round (serve count m) rest' := by
  have hlow := h.least hm hleast
  refine ⟨fun i j => ?_, fun i hi j hj => ?_⟩
  · have hj := le_serve count m j
    by_cases him : i = m
    · have hmj := hlow j
      rw [him, serve_self]
      omega
    · have hij := h.spread i j
      rw [serve_ne count him]
      omega
  · obtain ⟨hj, hjm⟩ := (hrest j).mp hj
    rw [serve_ne count hjm]
    by_cases him : i = m
    · rw [him, serve_self]
      exact h.spread j m
    · have hnot : i ∉ rest := fun hin => hi ((hrest i).mpr ⟨hin, him⟩)
      rw [serve_ne count him]
      exact h.served i hnot j hj

end Turns

/-! ## The cheapest next unit -/

section Costs

variable {κ : Type v} [Preorder κ] {cost : ι → Nat → κ} {f : ι → Nat} {m : ι}

/-- `cost i n` is what one more unit costs a receiver `i` that holds `n`: no unit handed out
cost more than anybody's next one would. -/
def Greedy (cost : ι → Nat → κ) (f : ι → Nat) : Prop :=
  ∀ i j n, n < f i → cost i n ≤ cost j (f j)

omit [DecidableEq ι] in
theorem greedy_of_zero (h : ∀ i, f i = 0) : Greedy cost f := by
  intro i j n hn
  rw [h i] at hn
  omega

theorem Greedy.serve (h : Greedy cost f) (hmono : ∀ i, Monotone (cost i))
    (hleast : ∀ j, cost m (f m) ≤ cost j (f j)) : Greedy cost (Sharing.serve f m) := by
  intro i j n hn
  have hgrow : cost j (f j) ≤ cost j (Sharing.serve f m j) := hmono j (le_serve f m j)
  by_cases him : i = m
  · rw [him, serve_self] at hn
    have hn' : n ≤ f m := by omega
    rw [him]
    exact (hmono m hn').trans ((hleast j).trans hgrow)
  · rw [serve_ne f him] at hn
    exact (h i j n hn).trans hgrow

end Costs

/-! ## Shares by weight -/

section Weights

variable {w : ι → ℚ} {f : ι → Nat}

def perWeight (w : ι → ℚ) (i : ι) (n : Nat) : ℚ := (n + 1) / w i

omit [DecidableEq ι] in
theorem perWeight_mono (hw : ∀ i, 0 < w i) (i : ι) : Monotone (perWeight w i) := by
  intro n n' h
  have hle : (n : ℚ) ≤ n' := by exact_mod_cast h
  have hi := hw i
  unfold perWeight
  gcongr

/-- Nobody holds more per weight than anybody else would with one unit more. -/
def Proportional (w : ι → ℚ) (f : ι → Nat) : Prop :=
  ∀ i j, (f i : ℚ) / w i ≤ (f j + 1) / w j

omit [DecidableEq ι] in
/-- Receivers of equal weight are never two units apart. -/
theorem Proportional.le_succ (h : Proportional w f) (hw : ∀ i, 0 < w i) {i j : ι}
    (heq : w i = w j) : f i ≤ f j + 1 := by
  have hij := h i j
  rw [heq, div_le_div_iff_of_pos_right (hw j)] at hij
  exact_mod_cast hij

end Weights

end Sharing
