import ExecutionPolicy.Router.Choose

/-! # Which samples can be drawn

The partial Fisher-Yates shuffle against its results: whatever the generator answers the
sample has no repetition, and every list of distinct positions is the sample of some
answers.
-/

namespace ExecutionPolicy

variable {n k i j m : Nat} {idx ps : List Nat}

/-! ## One swap -/

theorem length_swap (idx : List Nat) (i j : Nat) : (swap idx i j).length = idx.length := by
  simp [swap]

theorem swap_getElem? (hi : i < idx.length) (hj : j < idx.length) (l : Nat) :
    (swap idx i j)[l]? = if l = j then idx[i]? else if l = i then idx[j]? else idx[l]? := by
  unfold swap
  rw [List.getD_eq_getElem _ _ hi, List.getD_eq_getElem _ _ hj]
  simp only [List.getElem?_set, List.length_set]
  by_cases hlj : l = j
  · subst hlj
    simp [hi, hj]
  · by_cases hli : l = i
    · subst hli
      simp [hlj, Ne.symm hlj, hi, hj]
    · simp [hlj, hli, Ne.symm hlj, Ne.symm hli]

theorem take_swap (hij : i ≤ j) (hj : j < idx.length) :
    (swap idx i j).take (i + 1) = idx.take i ++ [idx[j]] := by
  apply List.ext_getElem?
  intro l
  rcases Nat.lt_trichotomy l i with hlt | rfl | hgt
  · rw [List.getElem?_take_of_lt (by omega), swap_getElem? (by omega) hj, if_neg (by omega),
      if_neg (by omega), List.getElem?_append_left (by simp; omega), List.getElem?_take_of_lt hlt]
  · rw [List.getElem?_take_of_lt (by omega), swap_getElem? (by omega) hj]
    have hfront : (idx.take l).length = l := by simp; omega
    rw [List.getElem?_append_right (by omega), hfront, Nat.sub_self, List.getElem?_cons_zero,
      List.getElem?_eq_getElem hj]
    by_cases hlj : l = j
    · subst hlj
      rw [if_pos rfl, List.getElem?_eq_getElem hj]
    · rw [if_neg hlj, if_pos rfl]
  · rw [List.getElem?_eq_none (by simp [length_swap]; omega),
      List.getElem?_eq_none (by simp; omega)]

theorem mem_drop_swap (hij : i ≤ j) (hj : j < idx.length) {x : Nat} (hx : x ∈ idx.drop i)
    (hne : x ≠ idx[j]) : x ∈ (swap idx i j).drop (i + 1) := by
  obtain ⟨l, hl⟩ := List.mem_iff_getElem?.mp hx
  rw [List.getElem?_drop] at hl
  have hlj : i + l ≠ j := by
    rintro rfl
    rw [List.getElem?_eq_getElem hj] at hl
    exact hne (Option.some.inj hl).symm
  rw [List.mem_iff_getElem?]
  by_cases hfirst : l = 0
  · -- the element at the head of the rest went where the drawn one was
    subst hfirst
    refine ⟨j - (i + 1), ?_⟩
    rw [List.getElem?_drop, swap_getElem? (by omega) hj, if_pos (by omega)]
    exact hl
  · refine ⟨l - 1, ?_⟩
    rw [List.getElem?_drop, swap_getElem? (by omega) hj, if_neg (by omega), if_neg (by omega)]
    rw [← hl]
    congr 1
    omega

/-! ## Whole samples -/

theorem exists_draws (hn : n ≤ 2 ^ 64) (hroom : i + ps.length ≤ n) (hlen : idx.length = n)
    (hps : ps.Nodup) (hsub : ∀ p ∈ ps, p ∈ idx.drop i) :
    ∃ draws, ∀ time ticks, (drawDistinct n ps.length i idx ⟨time, ticks, draws⟩).1.take
      (i + ps.length) = idx.take i ++ ps := by
  induction ps generalizing i idx with
  | nil => exact ⟨[], fun time ticks => by simp [drawDistinct]⟩
  | cons p ps ih =>
      simp only [List.length_cons] at hroom
      obtain ⟨hfresh, hps'⟩ := List.nodup_cons.mp hps
      obtain ⟨l, hl⟩ := List.mem_iff_getElem?.mp (hsub p List.mem_cons_self)
      rw [List.getElem?_drop] at hl
      obtain ⟨hj, hp⟩ := List.getElem?_eq_some_iff.mp hl
      have hrest : ∀ q ∈ ps, q ∈ (swap idx i (i + l)).drop (i + 1) := by
        intro q hq
        apply mem_drop_swap (by omega) hj (hsub q (List.mem_cons_of_mem p hq))
        rintro rfl
        exact hfresh (hp ▸ hq)
      obtain ⟨draws, hdraws⟩ := ih (by omega) ((length_swap idx i (i + l)).trans hlen) hps' hrest
      refine ⟨UInt64.ofNat l :: draws, fun time ticks => ?_⟩
      have hsmall : l < 2 ^ 64 := by omega
      have hdraw : (UInt64.ofNat l).toNat % (n - i) = l := by
        rw [UInt64.toNat_ofNat_of_lt' hsmall]
        exact Nat.mod_eq_of_lt (by omega)
      have hround := hdraws time ticks
      rw [take_swap (by omega) hj, hp, List.append_assoc, List.singleton_append] at hround
      simp only [List.length_cons, drawDistinct, Core.nextU64, hdraw]
      rw [← hround]
      congr 1
      omega

theorem length_positions_le (k len : Nat) (core : Core) :
    (positions (some k) len core).1.length ≤ k := by
  rcases Nat.lt_or_ge k len with hk | hk
  · rw [positions_of_lt hk]
    exact Nat.le_of_eq (length_sampleDistinct (Nat.le_of_lt hk) core)
  · rw [positions_of_le hk, List.length_range]
    exact hk

theorem nodup_sampleDistinct (hk : k ≤ n) (core : Core) : (sampleDistinct n k core).1.Nodup := by
  have hperm := drawDistinct_perm core (show 0 + k ≤ n by omega) List.length_range
  exact (hperm.nodup_iff.mpr List.nodup_range).sublist (List.take_sublist k _)

theorem exists_sampleDistinct (hn : n ≤ 2 ^ 64) (hroom : ps.length ≤ n) (hps : ps.Nodup)
    (hlt : ∀ p ∈ ps, p < n) :
    ∃ draws, ∀ time ticks, (sampleDistinct n ps.length ⟨time, ticks, draws⟩).1 = ps := by
  have hsub : ∀ p ∈ ps, p ∈ (List.range n).drop 0 := by
    intro p hp
    rw [List.drop_zero]
    exact List.mem_range.mpr (hlt p hp)
  have hzero : 0 + ps.length ≤ n := by omega
  obtain ⟨draws, hdraws⟩ := exists_draws hn hzero List.length_range hps hsub
  refine ⟨draws, fun time ticks => ?_⟩
  have htaken := hdraws time ticks
  rw [Nat.zero_add, List.take_zero, List.nil_append] at htaken
  exact htaken

theorem exists_positions_perm (hn : n ≤ 2 ^ 64) {core : Core}
    (hps : ps.Perm (positions (some k) n core).1) (hk : k < n) :
    ∃ core' : Core, (positions (some k) n core').1 = ps := by
  have hle := Nat.le_of_lt hk
  rw [positions_of_lt hk] at hps
  have hlength : ps.length = k := hps.length_eq.trans (length_sampleDistinct hle core)
  have hlt : ∀ p ∈ ps, p < n := fun p hp => sampleDistinct_lt hle (hps.subset hp)
  obtain ⟨draws, hdraws⟩ := exists_sampleDistinct hn (by omega)
    (hps.nodup_iff.mpr (nodup_sampleDistinct hle core)) hlt
  rw [hlength] at hdraws
  exact ⟨⟨0, [], draws⟩, (congrArg Prod.fst (positions_of_lt hk _)).trans (hdraws 0 [])⟩

end ExecutionPolicy
