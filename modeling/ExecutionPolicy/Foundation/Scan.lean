import Mathlib

/-! # Scanning for a least element

A scan keeps the best element seen so far and replaces it with a better newcomer. Where
"better" means less in one of two orders, the outcome depends on the order of the scan
unless both orders have the same least element.
-/

namespace Scanning

universe u v w

variable {α : Type u} {κ : Type v} {ι : Type w} [LinearOrder κ] [LinearOrder ι]

/-- Scan a list; `best` is the best element so far. -/
def scan (better : α → α → Bool) : Option α → List α → Option α
  | best, [] => best
  | none, x :: xs => scan better (some x) xs
  | some b, x :: xs => scan better (some (if better x b then x else b)) xs

/-- `a` comes strictly before every other element of the list. -/
def Least (key : α → κ) (l : List α) (a : α) : Prop :=
  a ∈ l ∧ ∀ b ∈ l, b ≠ a → key a < key b

/-- Different elements of the list have different keys. -/
def Separates (key : α → κ) (l : List α) : Prop :=
  ∀ a ∈ l, ∀ b ∈ l, key a = key b → a = b

variable {better : α → α → Bool} {key : α → κ} {key' : α → ι} {l l' : List α} {a b : α}

theorem scan_append (best : Option α) (l l' : List α) :
    scan better best (l ++ l') = scan better (scan better best l) l' := by
  induction l generalizing best with
  | nil => rfl
  | cons x xs ih => cases best <;> exact ih _

theorem scan_mem (best : Option α) (h : scan better best l = some a) :
    a ∈ l ∨ best = some a := by
  induction l generalizing best with
  | nil => exact .inr h
  | cons x xs ih =>
      cases best with
      | none =>
          rcases ih _ h with hmem | hx
          · exact .inl (List.mem_cons_of_mem x hmem)
          · cases hx
            exact .inl List.mem_cons_self
      | some b =>
          rcases ih _ h with hmem | hx
          · exact .inl (List.mem_cons_of_mem x hmem)
          · by_cases hbetter : better x b = true
            · rw [if_pos hbetter] at hx
              cases hx
              exact .inl List.mem_cons_self
            · rw [if_neg hbetter] at hx
              exact .inr hx

theorem scan_some (better : α → α → Bool) (b : α) (l : List α) :
    ∃ c, scan better (some b) l = some c := by
  induction l generalizing b with
  | nil => exact ⟨b, rfl⟩
  | cons x xs ih => exact ih _

/-- Who beats everybody and is beaten by nobody is found in any order. -/
theorem scan_eq_of_best {best : Option α} (hbest : best = some a ∨ a ∈ l)
    (hwins : ∀ b, best = some b ∨ b ∈ l → b ≠ a → better a b = true ∧ better b a = false) :
    scan better best l = some a := by
  induction l generalizing best with
  | nil => exact hbest.resolve_right List.not_mem_nil
  | cons x xs ih =>
      have htail : ∀ b, some b = some x ∨ b ∈ xs → b ≠ a →
          better a b = true ∧ better b a = false := by
        intro b hb hne
        apply hwins b _ hne
        rcases hb with hbx | hmem
        · cases hbx
          exact .inr List.mem_cons_self
        · exact .inr (List.mem_cons_of_mem x hmem)
      have hnext : best = some a ∨ x = a ∨ a ∈ xs := by simpa [eq_comm] using hbest
      cases best with
      | none =>
          apply ih
          · rcases hnext with hnone | rfl | hmem
            · cases hnone
            · exact .inl rfl
            · exact .inr hmem
          · exact fun b hb hne => htail b (hb.imp Eq.symm id) hne
      | some c =>
          apply ih
          · by_cases hca : c = a
            · -- the best so far is `a`: only `a` itself may replace it
              subst hca
              by_cases hxc : x = c
              · simp [hxc]
              · simp [(hwins x (.inr List.mem_cons_self) hxc).2]
            · rcases hnext with hsome | rfl | hmem
              · exact absurd (Option.some.inj hsome) hca
              · simp [(hwins c (.inl rfl) hca).1]
              · exact .inr hmem
          · intro b hb hne
            rcases hb with hb | hmem
            · by_cases hbetter : better x c = true
              · rw [if_pos hbetter] at hb
                exact htail b (.inl hb.symm) hne
              · rw [if_neg hbetter] at hb
                exact hwins b (.inl hb) hne
            · exact htail b (.inr hmem) hne

theorem scan_snoc_eq (h : ∀ b ∈ l, b ≠ a → better a b = true) :
    scan better none (l ++ [a]) = some a := by
  rw [scan_append]
  cases hscan : scan better none l with
  | none => rfl
  | some b =>
      have hmem : b ∈ l := by
        rcases scan_mem none hscan with hmem | hnone
        · exact hmem
        · cases hnone
      by_cases hba : b = a
      · simp [scan, hba]
      · simp [scan, h b hmem hba]

theorem scan_keeps (h : ∀ b ∈ l, b ≠ a → better b a = false) :
    scan better (some a) l = some a := by
  induction l with
  | nil => rfl
  | cons x xs ih =>
      have htail := ih fun b hb => h b (List.mem_cons_of_mem x hb)
      by_cases hxa : x = a
      · simpa [scan, hxa] using htail
      · simpa [scan, h x List.mem_cons_self hxa] using htail

theorem scan_middle_eq (hbefore : ∀ b ∈ l, b ≠ a → better a b = true)
    (hafter : ∀ b ∈ l', b ≠ a → better b a = false) :
    scan better none (l ++ a :: l') = some a := by
  have hsplit : l ++ a :: l' = (l ++ [a]) ++ l' := by simp
  rw [hsplit, scan_append, scan_snoc_eq hbefore]
  exact scan_keeps hafter

/-! ## Least elements -/

theorem Least.perm (h : Least key l a) (hperm : l'.Perm l) : Least key l' a :=
  ⟨hperm.mem_iff.mpr h.1, fun b hb hne => h.2 b (hperm.mem_iff.mp hb) hne⟩

theorem exists_least (hl : l ≠ []) (hkey : Separates key l) : ∃ a, Least key l a := by
  cases hmin : List.argmin key l with
  | none => exact absurd (List.argmin_eq_none.mp hmin) hl
  | some a =>
      have hmem : a ∈ l := List.argmin_mem hmin
      refine ⟨a, hmem, fun b hb hne => ?_⟩
      have hle : key a ≤ key b := List.le_of_mem_argmin hb hmin
      exact lt_of_le_of_ne hle fun heq => hne (hkey a hmem b hb heq).symm

section TwoOrders

/-- A newcomer less in either order, and nobody else, is better. -/
def BetterInEither (better : α → α → Bool) (key : α → κ) (key' : α → ι) (l : List α) : Prop :=
  ∀ x ∈ l, ∀ y ∈ l, better x y = true ↔ key x < key y ∨ key' x < key' y

variable (hbetter : BetterInEither better key key' l)

include hbetter

theorem scan_eq_of_least (ha : Least key l a) (ha' : Least key' l a) :
    scan better none l = some a := by
  apply scan_eq_of_best (.inr ha.1)
  intro b hb hne
  have hmem : b ∈ l := hb.resolve_left fun hnone => by cases hnone
  refine ⟨(hbetter a ha.1 b hmem).mpr (.inl (ha.2 b hmem hne)), ?_⟩
  rw [Bool.eq_false_iff]
  intro hba
  rcases (hbetter b hmem a ha.1).mp hba with hlt | hlt
  · exact lt_asymm hlt (ha.2 b hmem hne)
  · exact lt_asymm hlt (ha'.2 b hmem hne)

theorem scan_least_last (ha : Least key l a ∨ Least key' l a) (hsub : l' ⊆ l) :
    scan better none (l' ++ [a]) = some a := by
  have hmem : a ∈ l := by
    rcases ha with h | h
    · exact h.1
    · exact h.1
  apply scan_snoc_eq
  intro b hb hne
  rw [hbetter a hmem b (hsub hb)]
  exact ha.imp (fun h => h.2 b (hsub hb) hne) (fun h => h.2 b (hsub hb) hne)

end TwoOrders

end Scanning
