import ExecutionPolicy.Router.Sampling

/-! # How evenly samples are drawn

The remainder of a 64-bit word favours the low places a little. Counted over all answers the
generator can give, every ordered sample is drawn about equally often: the shuffle turns the
places of one sample into remainders one by one, and these are independent.
-/

namespace ExecutionPolicy

open Finset

variable {n i k l m p time : Nat} {idx ps : List Nat} {ticks : List Nat}

/-! ## The remainder of a word -/

theorem card_residue (N : Nat) (hl : l < m) :
    #{x ∈ range N | x % m = l} = N / m + if l < N % m then 1 else 0 := by
  have hcount := Nat.count_modEq_card N (Nat.zero_lt_of_lt hl) l
  rw [Nat.count_eq_card_filter_range, Nat.mod_eq_of_lt hl] at hcount
  rw [← hcount]
  congr 1
  ext x
  simp [Nat.ModEq, Nat.mod_eq_of_lt hl]

/-- The words below `2 ^ 64` with a property of their value. -/
def wordEquiv (p : Nat → Prop) [DecidablePred p] :
    {r : UInt64 // p r.toNat} ≃ {x // x ∈ ({x ∈ range UInt64.size | p x} : Finset Nat)} where
  toFun r := ⟨r.1.toNat, by simpa using ⟨r.1.toNat_lt, r.2⟩⟩
  invFun x := ⟨UInt64.ofNat x.1, by
    have hx := mem_filter.mp x.2
    rw [UInt64.toNat_ofNat_of_lt' (mem_range.mp hx.1)]
    exact hx.2⟩
  left_inv r := by simp
  right_inv x := by
    have hx := mem_filter.mp x.2
    exact Subtype.ext (UInt64.toNat_ofNat_of_lt' (mem_range.mp hx.1))

/-- How many words leave `l` when divided by `m`. -/
theorem card_words (hl : l < m) :
    Nat.card {r : UInt64 // r.toNat % m = l} =
      2 ^ 64 / m + if l < 2 ^ 64 % m then 1 else 0 := by
  rw [Nat.card_congr (wordEquiv fun x => x % m = l), Nat.card_eq_fintype_card, Fintype.card_coe,
    card_residue _ hl]
  rfl

theorem le_card_words (hl : l < m) :
    2 ^ 64 / m ≤ Nat.card {r : UInt64 // r.toNat % m = l} := by
  rw [card_words hl]
  exact Nat.le_add_right _ _

theorem card_words_le (hl : l < m) :
    Nat.card {r : UInt64 // r.toNat % m = l} ≤ 2 ^ 64 ⌈/⌉ m := by
  have hm : 0 < m := Nat.zero_lt_of_lt hl
  rw [card_words hl, Nat.ceilDiv_eq_add_pred_div]
  split
  next hlt =>
    rw [Nat.le_div_iff_mul_le hm, Nat.add_mul, Nat.one_mul]
    have hsplit := Nat.div_add_mod' (2 ^ 64) m
    omega
  next hge =>
    exact Nat.div_le_div_right (by omega)

/-! ## One round -/

theorem take_drawDistinct (core : Core) (hroom : i + m ≤ n) (hlen : idx.length = n) :
    (drawDistinct n m i idx core).1.take i = idx.take i := by
  induction m generalizing i idx core with
  | zero => rfl
  | succ m ih =>
      have hmod := Nat.mod_lt core.nextU64.1.toNat (show 0 < n - i by omega)
      have hj : i + core.nextU64.1.toNat % (n - i) < idx.length := by omega
      have hlater := ih core.nextU64.2 (show i + 1 + m ≤ n by omega)
        ((length_swap idx i (i + core.nextU64.1.toNat % (n - i))).trans hlen)
      rw [take_swap (Nat.le_add_right _ _) hj] at hlater
      have hfront := congrArg (List.take i) hlater
      rw [List.take_take, List.take_append_of_le_length (by simp; omega), List.take_take] at hfront
      simpa [drawDistinct] using hfront

theorem take_drawDistinct_cons (r : UInt64) (draws : List UInt64) (hroom : i + (m + 1) ≤ n)
    (hlen : idx.length = n) (hidx : idx.Nodup) (hp : idx[i + l]? = some p) :
    (drawDistinct n (m + 1) i idx ⟨time, ticks, r :: draws⟩).1.take (i + (m + 1)) =
        idx.take i ++ p :: ps ↔
      r.toNat % (n - i) = l ∧
        (drawDistinct n m (i + 1) (swap idx i (i + l)) ⟨time, ticks, draws⟩).1.take (i + 1 + m) =
          (swap idx i (i + l)).take (i + 1) ++ ps := by
  obtain ⟨hl, hpl⟩ := List.getElem?_eq_some_iff.mp hp
  have hmod := Nat.mod_lt r.toNat (show 0 < n - i by omega)
  have hj : i + r.toNat % (n - i) < idx.length := by omega
  have hround : drawDistinct n (m + 1) i idx ⟨time, ticks, r :: draws⟩ =
      drawDistinct n m (i + 1) (swap idx i (i + r.toNat % (n - i))) ⟨time, ticks, draws⟩ := rfl
  have hsum : i + (m + 1) = i + 1 + m := by omega
  rw [hround, hsum]
  constructor
  · intro htaken
    have hfront := take_drawDistinct ⟨time, ticks, draws⟩ (show i + 1 + m ≤ n by omega)
      ((length_swap idx i (i + r.toNat % (n - i))).trans hlen)
    have hdrawn := congrArg (List.take (i + 1)) htaken
    rw [List.take_take, Nat.min_eq_left (by omega), hfront,
      take_swap (Nat.le_add_right _ _) hj] at hdrawn
    have hhead : (idx.take i ++ p :: ps).take (i + 1) = idx.take i ++ [p] := by
      rw [List.take_append]
      simp [show i ≤ idx.length by omega, List.take_of_length_le]
    rw [hhead] at hdrawn
    have heq : idx[i + r.toNat % (n - i)] = idx[i + l] := by
      simpa [hpl] using List.append_cancel_left hdrawn
    have hplace : r.toNat % (n - i) = l := by
      have hindex := (hidx.getElem_inj_iff).mp heq
      omega
    refine ⟨hplace, ?_⟩
    rw [hplace] at htaken
    rw [htaken, take_swap (Nat.le_add_right _ _) hl, hpl, List.append_assoc,
      List.singleton_append]
  · rintro ⟨rfl, htaken⟩
    rw [htaken, take_swap (Nat.le_add_right _ _) hl, hpl, List.append_assoc,
      List.singleton_append]

/-! ## Whole samples -/

/-- With these answers the rounds from `i` on draw `ps`. -/
def Draws (n time : Nat) (ticks : List Nat) (i : Nat) (idx ps : List Nat)
    (draws : List UInt64) : Prop :=
  (drawDistinct n ps.length i idx ⟨time, ticks, draws⟩).1.take (i + ps.length) = idx.take i ++ ps

noncomputable def drawings (n time : Nat) (ticks : List Nat) (i : Nat) (idx ps : List Nat) : Nat :=
  Nat.card {draws : Fin ps.length → UInt64 // Draws n time ticks i idx ps (List.ofFn draws)}

theorem drawings_nil (n time : Nat) (ticks : List Nat) (i : Nat) (idx : List Nat) :
    drawings n time ticks i idx [] = 1 := by
  have hdraws : ∀ draws : Fin 0 → UInt64, Draws n time ticks i idx [] (List.ofFn draws) := by
    intro draws
    simp [Draws, drawDistinct]
  have hcard := Nat.card_congr (Equiv.subtypeUnivEquiv hdraws)
  exact hcard.trans Nat.card_unique

theorem drawings_cons (hroom : i + (ps.length + 1) ≤ n) (hlen : idx.length = n)
    (hidx : idx.Nodup) (hp : idx[i + l]? = some p) :
    drawings n time ticks i idx (p :: ps) =
      Nat.card {r : UInt64 // r.toNat % (n - i) = l} *
        drawings n time ticks (i + 1) (swap idx i (i + l)) ps := by
  have hsplit : {a : UInt64 × (Fin ps.length → UInt64) // a.1.toNat % (n - i) = l ∧
        Draws n time ticks (i + 1) (swap idx i (i + l)) ps (List.ofFn a.2)} ≃
      {draws : Fin (ps.length + 1) → UInt64 //
        Draws n time ticks i idx (p :: ps) (List.ofFn draws)} := by
    refine (Fin.consEquiv fun _ => UInt64).subtypeEquiv fun a => ?_
    have hcons : List.ofFn (Fin.consEquiv (fun _ => UInt64) a) = a.1 :: List.ofFn a.2 :=
      List.ofFn_cons a.1 a.2
    rw [hcons]
    exact (take_drawDistinct_cons a.1 (List.ofFn a.2) hroom hlen hidx hp).symm
  rw [drawings, drawings, ← Nat.card_prod]
  exact (Nat.card_congr (Equiv.subtypeProdEquivProd.symm.trans hsplit)).symm

theorem drawings_bounds (time : Nat) (ticks : List Nat) (hroom : i + ps.length ≤ n)
    (hlen : idx.length = n) (hidx : idx.Nodup) (hps : ps.Nodup)
    (hsub : ∀ q ∈ ps, q ∈ idx.drop i) :
    ∏ j ∈ range ps.length, 2 ^ 64 / (n - (i + j)) ≤ drawings n time ticks i idx ps ∧
      drawings n time ticks i idx ps ≤ ∏ j ∈ range ps.length, 2 ^ 64 ⌈/⌉ (n - (i + j)) := by
  induction ps generalizing i idx with
  | nil =>
      rw [drawings_nil]
      exact ⟨le_rfl, le_rfl⟩
  | cons q ps ih =>
      obtain ⟨hfresh, hps'⟩ := List.nodup_cons.mp hps
      obtain ⟨l, hl⟩ := List.mem_iff_getElem?.mp (hsub q List.mem_cons_self)
      rw [List.getElem?_drop] at hl
      obtain ⟨hj, hq⟩ := List.getElem?_eq_some_iff.mp hl
      simp only [List.length_cons] at hroom
      have hrest : ∀ x ∈ ps, x ∈ (swap idx i (i + l)).drop (i + 1) := by
        intro x hx
        apply mem_drop_swap (Nat.le_add_right _ _) hj (hsub x (List.mem_cons_of_mem q hx))
        rintro rfl
        exact hfresh (hq ▸ hx)
      have hswap := swap_perm (show i < idx.length by omega) hj
      obtain ⟨hlow, hhigh⟩ := ih (show i + 1 + ps.length ≤ n by omega)
        (hswap.length_eq.trans hlen) (hswap.nodup_iff.mpr hidx) hps' hrest
      have hword : l < n - i := by omega
      rw [drawings_cons hroom hlen hidx hl, List.length_cons, prod_range_succ',
        prod_range_succ', Nat.add_zero, Nat.mul_comm (Nat.card _)]
      simp only [← Nat.add_assoc, Nat.add_right_comm i _ 1]
      exact ⟨Nat.mul_le_mul hlow (le_card_words hword), Nat.mul_le_mul hhigh (card_words_le hword)⟩

/-- Every ordered sample is drawn by about the same number of answers. -/
theorem sample_nearly_uniform (n k time : Nat) (ticks ps : List Nat) (hk : k ≤ n)
    (hlength : ps.length = k) (hps : ps.Nodup) (hlt : ∀ q ∈ ps, q < n) :
    ∏ i ∈ range k, 2 ^ 64 / (n - i) ≤ Nat.card {draws : Fin k → UInt64 //
        (sampleDistinct n k ⟨time, ticks, List.ofFn draws⟩).1 = ps} ∧
      Nat.card {draws : Fin k → UInt64 //
        (sampleDistinct n k ⟨time, ticks, List.ofFn draws⟩).1 = ps} ≤
        ∏ i ∈ range k, 2 ^ 64 ⌈/⌉ (n - i) := by
  subst hlength
  have hsub : ∀ q ∈ ps, q ∈ (List.range n).drop 0 := by
    intro q hq
    rw [List.drop_zero]
    exact List.mem_range.mpr (hlt q hq)
  have hcount := drawings_bounds time ticks (show 0 + ps.length ≤ n by omega) List.length_range
    List.nodup_range hps hsub
  simp only [drawings, Draws, Nat.zero_add, List.take_zero, List.nil_append] at hcount
  exact hcount

/-- Two of three members, the last one first. -/
theorem sample_nearly_uniform_two :
    ∏ i ∈ range 2, 2 ^ 64 / (3 - i) ≤ Nat.card {draws : Fin 2 → UInt64 //
        (sampleDistinct 3 2 ⟨0, [], List.ofFn draws⟩).1 = [2, 0]} ∧
      Nat.card {draws : Fin 2 → UInt64 //
        (sampleDistinct 3 2 ⟨0, [], List.ofFn draws⟩).1 = [2, 0]} ≤
        ∏ i ∈ range 2, 2 ^ 64 ⌈/⌉ (3 - i) :=
  sample_nearly_uniform 3 2 0 [] [2, 0] (by decide) rfl (by decide) (by decide)

end ExecutionPolicy
