import Mathlib

/-! # Pools of tasks

A pool is a list of tasks whose index is the task's name: tasks are appended and
overwritten, never removed. The lemmas say how the number of tasks with a given
property moves when one task changes.
-/

namespace TaskPool

universe u

variable {α : Type u}

/-- How many tasks of the pool satisfy `p`. -/
def count (p : α → Bool) (pool : List α) : Nat := pool.countP p

@[simp] theorem count_nil (p : α → Bool) : count p [] = 0 := rfl

@[simp] theorem count_snoc (p : α → Bool) (pool : List α) (a : α) :
    count p (pool ++ [a]) = count p pool + (if p a then 1 else 0) := by
  simp [count, List.countP_append, List.countP_singleton]

theorem count_set (p : α → Bool) {pool : List α} {i : Nat} {a : α}
    (h : pool[i]? = some a) (b : α) :
    count p (pool.set i b) + (if p a then 1 else 0) =
      count p pool + (if p b then 1 else 0) := by
  obtain ⟨hlt, rfl⟩ := List.getElem?_eq_some_iff.mp h
  have hold : (if p pool[i] then 1 else 0) ≤ pool.countP p := by
    split
    · exact List.countP_pos_iff.mpr ⟨_, List.getElem_mem hlt, ‹_›⟩
    · exact Nat.zero_le _
  have hset := List.countP_set (p := p) (a := b) hlt
  rw [count, count, hset]
  omega

theorem count_set_of_eq (p : α → Bool) {pool : List α} {i : Nat} {a : α}
    (h : pool[i]? = some a) {b : α} (hp : p b = p a) :
    count p (pool.set i b) = count p pool := by
  have hset := count_set p h b
  rw [hp] at hset
  omega

theorem count_set_leave (p : α → Bool) {pool : List α} {i : Nat} {a b : α}
    (h : pool[i]? = some a) (ha : p a = true) (hb : p b = false) :
    count p (pool.set i b) + 1 = count p pool := by
  simpa [ha, hb] using count_set p h b

theorem count_set_enter (p : α → Bool) {pool : List α} {i : Nat} {a b : α}
    (h : pool[i]? = some a) (ha : p a = false) (hb : p b = true) :
    count p (pool.set i b) = count p pool + 1 := by
  simpa [ha, hb] using count_set p h b

theorem count_set_le (p : α → Bool) {pool : List α} {i : Nat} {a b : α}
    (h : pool[i]? = some a) (hb : p b = false) :
    count p (pool.set i b) ≤ count p pool := by
  have hset := count_set p h b
  simp only [hb, Bool.false_eq_true, if_false] at hset
  omega

theorem count_pos {p : α → Bool} {pool : List α} {i : Nat} {a : α}
    (h : pool[i]? = some a) (hp : p a = true) : 0 < count p pool :=
  List.countP_pos_iff.mpr ⟨a, List.mem_of_getElem? h, hp⟩

theorem exists_of_count_pos {p : α → Bool} {pool : List α} (h : 0 < count p pool) :
    ∃ (i : Nat) (a : α), pool[i]? = some a ∧ p a = true := by
  obtain ⟨a, hmem, hp⟩ := List.countP_pos_iff.mp h
  obtain ⟨i, hi⟩ := List.getElem?_of_mem hmem
  exact ⟨i, a, hi, hp⟩

theorem count_eq_zero_iff {p : α → Bool} {pool : List α} :
    count p pool = 0 ↔ ∀ (i : Nat) (a : α), pool[i]? = some a → p a = false := by
  constructor
  · intro hzero i a hi
    by_contra hp
    have hpos := count_pos hi (by simpa using hp)
    omega
  · intro hall
    by_contra hne
    obtain ⟨i, a, hi, hp⟩ := exists_of_count_pos (Nat.pos_of_ne_zero hne)
    simp [hall i a hi] at hp

/-- A property that two exclusive ones make up is counted by their counts. -/
theorem count_add {p q r : α → Bool} {pool : List α}
    (h : ∀ a ∈ pool, (if p a then 1 else 0) + (if q a then 1 else 0) = if r a then 1 else 0) :
    count p pool + count q pool = count r pool := by
  induction pool with
  | nil => rfl
  | cons a pool ih =>
      have hhead := h a List.mem_cons_self
      have htail := ih fun b hb => h b (List.mem_cons_of_mem a hb)
      simp only [count, List.countP_cons] at htail ⊢
      omega

/-- What the tasks of the pool amount to together. -/
def total (f : α → Nat) (pool : List α) : Nat := (pool.map f).sum

@[simp] theorem total_snoc (f : α → Nat) (pool : List α) (a : α) :
    total f (pool ++ [a]) = total f pool + f a := by
  simp [total]

theorem total_set (f : α → Nat) {pool : List α} {i : Nat} {a : α} (h : pool[i]? = some a)
    (b : α) : total f (pool.set i b) + f a = total f pool + f b := by
  induction pool generalizing i with
  | nil => simp at h
  | cons x pool ih =>
      cases i with
      | zero =>
          simp only [List.getElem?_cons_zero, Option.some.injEq] at h
          subst h
          simp only [total, List.set_cons_zero, List.map_cons, List.sum_cons]
          omega
      | succ i =>
          have hrest := ih (by simpa using h)
          simp only [total, List.set_cons_succ, List.map_cons, List.sum_cons] at hrest ⊢
          omega

theorem count_eq_total (p : α → Bool) (pool : List α) :
    count p pool = total (fun a => if p a then 1 else 0) pool := by
  induction pool with
  | nil => rfl
  | cons a pool ih =>
      simp only [total, count, List.map_cons, List.sum_cons, List.countP_cons] at ih ⊢
      omega

theorem total_le {f : α → Nat} {n : Nat} (h : ∀ a, f a ≤ n) (pool : List α) :
    total f pool ≤ n * pool.length := by
  have hsum := List.sum_le_card_nsmul (pool.map f) n (by simpa using fun a _ => h a)
  simpa [total, Nat.mul_comm] using hsum

theorem getElem?_set_cases {pool : List α} {i j : Nat} {a b : α}
    (h : (pool.set i b)[j]? = some a) :
    (i = j ∧ a = b) ∨ (i ≠ j ∧ pool[j]? = some a) := by
  by_cases hij : i = j
  · subst hij
    rw [List.getElem?_set] at h
    simp only [if_true] at h
    split at h
    · exact .inl ⟨rfl, (Option.some.inj h).symm⟩
    · cases h
  · rw [List.getElem?_set_ne hij] at h
    exact .inr ⟨hij, h⟩

theorem getElem?_snoc_cases {pool : List α} {j : Nat} {a b : α}
    (h : (pool ++ [b])[j]? = some a) :
    (j = pool.length ∧ a = b) ∨ pool[j]? = some a := by
  rcases Nat.lt_or_ge j pool.length with hj | hj
  · rw [List.getElem?_append_left hj] at h
    exact .inr h
  · rw [List.getElem?_append_right hj] at h
    have hlt := (List.getElem?_eq_some_iff.mp h).1
    simp only [List.length_singleton] at hlt
    have hz : j - pool.length = 0 := by omega
    rw [hz] at h
    simp only [List.getElem?_cons_zero, Option.some.injEq] at h
    exact .inl ⟨by omega, h.symm⟩

theorem getElem?_set_self_of_some {pool : List α} {i : Nat} {a : α}
    (h : pool[i]? = some a) (b : α) : (pool.set i b)[i]? = some b := by
  have hlt := (List.getElem?_eq_some_iff.mp h).1
  simp [hlt]

end TaskPool
