import Mathlib

/-! # Justified histories

A history is a list that grows at its end. It is justified when each of its entries is
allowed by the entries before it. Where entries move a machine, a history replays to the
state it leads to, and to what an observer of the machine saw change on the way.
-/

namespace History

universe u v w

variable {α : Type u} {F : List α → α → Prop} {past log : List α} {a : α}

/-- Each entry stands in relation `F` to what came before it. -/
def Justified (F : List α → α → Prop) (log : List α) : Prop :=
  ∀ past a future, log = past ++ a :: future → F past a

theorem justified_nil : Justified F [] := by
  intro past a future h
  simp at h

theorem justified_snoc : Justified F (log ++ [a]) ↔ Justified F log ∧ F log a := by
  constructor
  · intro h
    refine ⟨fun past b future hlog => ?_, h log a [] rfl⟩
    exact h past b (future ++ [a]) (by simp [hlog])
  · rintro ⟨hlog, ha⟩ past b future hsplit
    rcases List.eq_nil_or_concat future with rfl | ⟨future', c, rfl⟩
    · obtain ⟨rfl, heq⟩ := List.append_inj' hsplit rfl
      cases heq
      exact ha
    · have hsplit' : log ++ [a] = (past ++ b :: future') ++ [c] := by simpa using hsplit
      obtain ⟨heq, _⟩ := List.append_inj' hsplit' rfl
      exact hlog past b future' heq

theorem justified_append {news : List α} (hfree : ∀ past, ∀ a ∈ news, F past a) :
    Justified F (log ++ news) ↔ Justified F log := by
  induction news generalizing log with
  | nil => simp
  | cons a news ih =>
      have hcons : log ++ a :: news = (log ++ [a]) ++ news := by simp
      rw [hcons, ih fun past b hb => hfree past b (List.mem_cons_of_mem a hb), justified_snoc]
      exact and_iff_left (hfree log a List.mem_cons_self)

/-! ## Replaying -/

section Replay

variable {σ : Type v} {κ : Type w} [DecidableEq κ] {next : σ → α → σ} {view : σ → κ}

def replay (next : σ → α → σ) (s : σ) (log : List α) : σ := log.foldl next s

/-- What `view` shows after every entry that changes it. -/
def changes (next : σ → α → σ) (view : σ → κ) : σ → List α → List κ
  | _, [] => []
  | s, a :: log =>
      (if view (next s a) = view s then [] else [view (next s a)]) ++
        changes next view (next s a) log

@[simp] theorem replay_append (s : σ) (log log' : List α) :
    replay next s (log ++ log') = replay next (replay next s log) log' := List.foldl_append

theorem changes_append (s : σ) (log log' : List α) : changes next view s (log ++ log') =
    changes next view s log ++ changes next view (replay next s log) log' := by
  induction log generalizing s with
  | nil => rfl
  | cons a log ih =>
      simp only [List.cons_append, changes, ih, List.append_assoc]
      rfl

theorem replay_invariant {I : σ → Prop} (hstep : ∀ s a, I s → I (next s a)) {s : σ} (hs : I s)
    (log : List α) : I (replay next s log) := by
  induction log generalizing s with
  | nil => exact hs
  | cons a log ih => exact ih (hstep s a hs)

theorem replay_still {log : List α} (hstill : ∀ a ∈ log, ∀ s, next s a = s) (s : σ) :
    replay next s log = s := by
  induction log with
  | nil => rfl
  | cons a log ih =>
      rw [replay, List.foldl_cons, hstill a List.mem_cons_self s]
      exact ih fun b hb => hstill b (List.mem_cons_of_mem a hb)

theorem changes_still {log : List α} (hstill : ∀ a ∈ log, ∀ s, next s a = s) (s : σ) :
    changes next view s log = [] := by
  induction log with
  | nil => rfl
  | cons a log ih =>
      rw [changes, hstill a List.mem_cons_self s, if_pos rfl, List.nil_append]
      exact ih fun b hb => hstill b (List.mem_cons_of_mem a hb)

end Replay

end History
