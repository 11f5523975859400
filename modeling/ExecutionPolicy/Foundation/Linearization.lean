import ExecutionPolicy.Foundation.StepSystem
import ExecutionPolicy.Foundation.TaskPool

/-! # Atomic objects and linearizable histories

An atomic object does one operation at a time. A history of calls and returns is
linearizable when its answers are those of the operations done one after another, in an
order that never puts a call before one that had returned when it was made. The automaton
below keeps the callers of an object apart from it and commits each call at a moment
between its call and its return; an operation that only reads may commit in hindsight, at
an object that was current at some moment since the call. Every history of the automaton
is linearizable, and so is every history of a system the automaton simulates.
-/

namespace Linearization

open StepSystem
open scoped List

universe u v w x y

variable {α : Type u} {ω : Type v} {ρ : Type w}

/-- What the callers of an object see, the calls numbered as they come. -/
inductive Event (ω : Type v) (ρ : Type w) where
  | call (i : Nat) (op : ω)
  | ret (i : Nat) (answer : ρ)
deriving DecidableEq, Repr

/-- A call's turn in an order of the operations, with the answer it has there. -/
structure Turn (ω : Type v) (ρ : Type w) where
  caller : Nat
  op : ω
  answer : ρ
deriving DecidableEq, Repr

/-- An object with its operations, some of which only read it. -/
structure AtomicObject (α : Type u) (ω : Type v) (ρ : Type w) where
  apply : α → ω → ρ × α
  reads : ω → Bool
  apply_of_reads : ∀ a op, reads op = true → (apply a op).2 = a

namespace AtomicObject

variable (obj : AtomicObject α ω ρ)

def perform : α → List (Turn ω ρ) → α
  | a, [] => a
  | a, t :: order => perform (obj.apply a t.op).2 order

/-- Each turn has the answer the object gives when it comes. -/
def Legal : α → List (Turn ω ρ) → Prop
  | _, [] => True
  | a, t :: order => (obj.apply a t.op).1 = t.answer ∧ Legal (obj.apply a t.op).2 order

/-- The order explains the history: it is legal, each call has one turn at most, every
answer returned is that of the call's turn, and what had returned before a call was made
comes before it. -/
structure Linearizes (a : α) (history : List (Event ω ρ)) (order : List (Turn ω ρ)) : Prop where
  legal : obj.Legal a order
  once : (order.map Turn.caller).Nodup
  called : ∀ t ∈ order, .call t.caller t.op ∈ history
  returned : ∀ i r, .ret i r ∈ history → ∃ op, ⟨i, op, r⟩ ∈ order
  realTime : ∀ i r, ∀ t ∈ order, [.ret i r, .call t.caller t.op] <+ history →
    ∃ op, [⟨i, op, r⟩, t] <+ order

variable {obj}

@[simp] theorem perform_append (a : α) (order order' : List (Turn ω ρ)) :
    obj.perform a (order ++ order') = obj.perform (obj.perform a order) order' := by
  induction order generalizing a with
  | nil => rfl
  | cons t order ih => exact ih _

@[simp] theorem legal_append (a : α) (order order' : List (Turn ω ρ)) :
    obj.Legal a (order ++ order') ↔
      obj.Legal a order ∧ obj.Legal (obj.perform a order) order' := by
  induction order generalizing a with
  | nil => simp [Legal, perform]
  | cons t order ih => simp only [List.cons_append, Legal, perform, ih, and_assoc]

end AtomicObject

namespace AtomicObject

variable {obj : AtomicObject α ω ρ} {a : α} {history : List (Event ω ρ)}
  {order : List (Turn ω ρ)}

theorem Linearizes.length_le {n : Nat} (h : obj.Linearizes a history order)
    (hcalls : ∀ i op, .call i op ∈ history → i < n) : order.length ≤ n := by
  have hsub : order.map Turn.caller ⊆ List.range n := by
    intro i hi
    obtain ⟨t, ht, rfl⟩ := List.mem_map.mp hi
    exact List.mem_range.mpr (hcalls _ _ (h.called t ht))
  have hlength := (h.once.subperm hsub).length_le
  simpa using hlength

theorem Linearizes.turns {i j : Nat} {r r' : ρ} (h : obj.Linearizes a history order)
    (hi : .ret i r ∈ history) (hj : .ret j r' ∈ history) :
    ∃ p q : Nat, order[p]?.map Turn.answer = some r ∧ order[q]?.map Turn.answer = some r' ∧
      (p = q → i = j) := by
  obtain ⟨op, hmem⟩ := h.returned i r hi
  obtain ⟨op', hmem'⟩ := h.returned j r' hj
  obtain ⟨p, hp⟩ := List.getElem?_of_mem hmem
  obtain ⟨q, hq⟩ := List.getElem?_of_mem hmem'
  refine ⟨p, q, by simp [hp], by simp [hq], ?_⟩
  rintro rfl
  have hsame := hp.symm.trans hq
  simp only [Option.some.injEq, Turn.mk.injEq] at hsame
  exact hsame.1

end AtomicObject

theorem pair_sublist_snoc {β : Type x} {a b c : β} {l : List β} :
    [a, b] <+ l ++ [c] ↔ [a, b] <+ l ∨ (a ∈ l ∧ b = c) := by
  constructor
  · intro h
    obtain ⟨l₁, l₂, hsplit, h₁, h₂⟩ := List.sublist_append_iff.mp h
    rcases List.sublist_singleton.mp h₂ with rfl | rfl
    · rw [List.append_nil] at hsplit
      exact .inl (hsplit ▸ h₁)
    · have hsplit' : [a] ++ [b] = l₁ ++ [c] := hsplit
      obtain ⟨rfl, hb⟩ := List.append_inj' hsplit' rfl
      cases hb
      exact .inr ⟨List.singleton_sublist.mp h₁, rfl⟩
  · rintro (h | ⟨ha, rfl⟩)
    · exact h.trans (List.sublist_append_left l [c])
    · exact List.Sublist.append (List.singleton_sublist.mpr ha) (List.Sublist.refl [b])

/-! ## The automaton -/

/-- A caller of the automaton, with the objects that were current since its call. -/
inductive Caller (α : Type u) (ω : Type v) (ρ : Type w) where
  | called (op : ω) (seen : List α)
  | committed (op : ω) (answer : ρ)
  | returned (op : ω) (answer : ρ)

def Caller.note (a : α) : Caller α ω ρ → Caller α ω ρ
  | called op seen => called op (seen ++ [a])
  | committed op answer => committed op answer
  | returned op answer => returned op answer

structure State (α : Type u) (ω : Type v) (ρ : Type w) where
  object : α
  callers : List (Caller α ω ρ)

inductive Move (ω : Type v) where
  | call (op : ω)
  | commit (i : Nat)
  | hindsight (i k : Nat)
  | ret (i : Nat)

namespace AtomicObject

def step (obj : AtomicObject α ω ρ) (s : State α ω ρ) : Move ω → Option (State α ω ρ)
  | .call op => some { s with callers := s.callers ++ [.called op [s.object]] }
  | .commit i =>
      match s.callers[i]? with
      | some (.called op _) =>
          some
            { object := (obj.apply s.object op).2
              callers := (s.callers.set i (.committed op (obj.apply s.object op).1)).map
                (Caller.note (obj.apply s.object op).2) }
      | _ => none
  | .hindsight i k =>
      match s.callers[i]? with
      | some (.called op seen) =>
          match seen[k]? with
          | some b =>
              if obj.reads op then
                some { s with callers := s.callers.set i (.committed op (obj.apply b op).1) }
              else none
          | none => none
      | _ => none
  | .ret i =>
      match s.callers[i]? with
      | some (.committed op answer) =>
          some { s with callers := s.callers.set i (.returned op answer) }
      | _ => none

def event (s : State α ω ρ) : Move ω → Option (Event ω ρ)
  | .call op => some (.call s.callers.length op)
  | .commit _ => none
  | .hindsight _ _ => none
  | .ret i =>
      match s.callers[i]? with
      | some (.committed _ answer) => some (.ret i answer)
      | _ => none

variable {obj : AtomicObject α ω ρ}

section Moves

variable (obj) {s : State α ω ρ} {i : Nat} {op : ω} {seen : List α}

theorem step_commit (h : s.callers[i]? = some (.called op seen)) :
    obj.step s (.commit i) = some
      { object := (obj.apply s.object op).2
        callers := (s.callers.set i (.committed op (obj.apply s.object op).1)).map
          (Caller.note (obj.apply s.object op).2) } := by
  simp [step, h]

theorem step_hindsight {k : Nat} {b : α} (h : s.callers[i]? = some (.called op seen))
    (hk : seen[k]? = some b) (hreads : obj.reads op = true) :
    obj.step s (.hindsight i k) =
      some { s with callers := s.callers.set i (.committed op (obj.apply b op).1) } := by
  simp [step, h, hk, hreads]

theorem step_ret {answer : ρ} (h : s.callers[i]? = some (.committed op answer)) :
    obj.step s (.ret i) = some { s with callers := s.callers.set i (.returned op answer) } := by
  simp [step, h]

theorem event_ret {answer : ρ} (h : s.callers[i]? = some (.committed op answer)) :
    event s (.ret i) = some (.ret i answer) := by
  simp [event, h]

end Moves

/-! ## Every history of the automaton is linearizable -/

/-- A place in the order at which the object was `b`, after everything that had returned
when call `i` was made. -/
def Moment (obj : AtomicObject α ω ρ) (a : α) (history : List (Event ω ρ))
    (order : List (Turn ω ρ)) (i : Nat) (op : ω) (b : α) : Prop :=
  ∃ pre post, order = pre ++ post ∧ obj.perform a pre = b ∧
    ∀ j r, [.ret j r, .call i op] <+ history → ∃ op', ⟨j, op', r⟩ ∈ pre

/-- The order explains the history, and leads to the state of the automaton. -/
structure Explains (obj : AtomicObject α ω ρ) (a : α) (history : List (Event ω ρ))
    (order : List (Turn ω ρ)) (s : State α ω ρ) : Prop where
  linear : obj.Linearizes a history order
  object : obj.perform a order = s.object
  known : ∀ i op, .call i op ∈ history → i < s.callers.length
  waiting : ∀ (i : Nat) op seen, s.callers[i]? = some (.called op seen) →
    .call i op ∈ history ∧ (∀ t ∈ order, t.caller ≠ i) ∧
      ∀ b ∈ seen, obj.Moment a history order i op b
  committed : ∀ (i : Nat) op r, s.callers[i]? = some (.committed op r) → ⟨i, op, r⟩ ∈ order

section Explaining

variable {a : α} {history : List (Event ω ρ)} {order : List (Turn ω ρ)} {s : State α ω ρ}

theorem explains_init (obj : AtomicObject α ω ρ) (a : α) :
    obj.Explains a [] [] { object := a, callers := [] } where
  linear := ⟨trivial, List.nodup_nil, by simp, by simp, by simp⟩
  object := rfl
  known := by simp
  waiting := by simp
  committed := by simp

theorem Explains.call (h : obj.Explains a history order s) (op : ω) :
    obj.Explains a (history ++ [.call s.callers.length op]) order
      { s with callers := s.callers ++ [.called op [s.object]] } := by
  have hfresh : ∀ t ∈ order, t.caller ≠ s.callers.length := fun t ht heq =>
    absurd (h.known _ _ (h.linear.called t ht)) (by omega)
  refine ⟨⟨h.linear.legal, h.linear.once, fun t ht => ?_, fun i r hret => ?_,
      fun i r t ht hpair => ?_⟩,
    h.object, fun i op' hcall => ?_, fun i op' seen hi => ?_, fun i op' r hi => ?_⟩
  · exact List.mem_append_left _ (h.linear.called t ht)
  · rcases List.mem_append.mp hret with hold | hnew
    · exact h.linear.returned i r hold
    · simp at hnew
  · rcases pair_sublist_snoc.mp hpair with hold | ⟨_, heq⟩
    · exact h.linear.realTime i r t ht hold
    · exact absurd (Event.call.inj heq).1 (hfresh t ht)
  · rw [List.length_append, List.length_singleton]
    rcases List.mem_append.mp hcall with hold | hnew
    · have := h.known i op' hold
      omega
    · simp only [List.mem_singleton, Event.call.injEq] at hnew
      omega
  · rcases TaskPool.getElem?_snoc_cases hi with ⟨rfl, heq⟩ | hold
    · cases heq
      refine ⟨by simp, hfresh, fun b hb => ⟨order, [], by simp, ?_, fun j r hpair => ?_⟩⟩
      · rw [List.mem_singleton.mp hb, h.object]
      · rcases pair_sublist_snoc.mp hpair with hold | ⟨hret, _⟩
        · exact h.linear.returned j r (hold.subset (by simp))
        · exact h.linear.returned j r hret
    · obtain ⟨hcall, hnone, hseen⟩ := h.waiting i op' seen hold
      refine ⟨List.mem_append_left _ hcall, hnone, fun b hb => ?_⟩
      obtain ⟨pre, post, hsplit, hperform, hbefore⟩ := hseen b hb
      refine ⟨pre, post, hsplit, hperform, fun j r hpair => ?_⟩
      rcases pair_sublist_snoc.mp hpair with hpair' | ⟨_, heq⟩
      · exact hbefore j r hpair'
      · have hlt := h.known i op' hcall
        cases heq
        omega
  · rcases TaskPool.getElem?_snoc_cases hi with ⟨_, heq⟩ | hold
    · cases heq
    · exact h.committed i op' r hold

/-- A waiting call may have its turn at any moment since it was made, as long as the turn
leaves the object as it was there or comes last. -/
theorem Explains.linear_insert (h : obj.Explains a history order s) {i : Nat} {op : ω}
    {seen : List α} (hi : s.callers[i]? = some (.called op seen)) {pre post : List (Turn ω ρ)}
    (hsplit : order = pre ++ post)
    (hbefore : ∀ j r, [.ret j r, .call i op] <+ history → ∃ op', ⟨j, op', r⟩ ∈ pre)
    (hkeep : post ≠ [] → (obj.apply (obj.perform a pre) op).2 = obj.perform a pre) :
    obj.Linearizes a history
      (pre ++ ⟨i, op, (obj.apply (obj.perform a pre) op).1⟩ :: post) := by
  obtain ⟨hcall, hnone, _⟩ := h.waiting i op seen hi
  have hlegal := h.linear.legal
  rw [hsplit, legal_append] at hlegal
  have hkept :
      ∀ t, t ∈ order → t ∈ pre ++ ⟨i, op, (obj.apply (obj.perform a pre) op).1⟩ :: post := by
    intro t ht
    rw [hsplit] at ht
    rcases List.mem_append.mp ht with hpre | hpost
    · exact List.mem_append_left _ hpre
    · exact List.mem_append_right _ (List.mem_cons_of_mem _ hpost)
  have hsub : order <+ pre ++ ⟨i, op, (obj.apply (obj.perform a pre) op).1⟩ :: post := by
    rw [hsplit]
    exact List.Sublist.append (List.Sublist.refl pre) (List.sublist_cons_self _ post)
  refine ⟨?_, ?_, fun t ht => ?_, fun j r hret => ?_, fun j r t ht hpair => ?_⟩
  · rw [legal_append]
    refine ⟨hlegal.1, rfl, ?_⟩
    cases hpost : post with
    | nil => trivial
    | cons t rest =>
        rw [hkeep (by simp [hpost]), ← hpost]
        exact hlegal.2
  · have honce := h.linear.once
    have hfresh : i ∉ order.map Turn.caller := by
      simpa using fun t ht => hnone t ht
    rw [hsplit] at honce hfresh
    rw [List.map_append, List.map_cons]
    rw [List.map_append] at honce hfresh
    exact List.nodup_middle.mpr (List.nodup_cons.mpr ⟨hfresh, honce⟩)
  · rcases List.mem_append.mp ht with hpre | hrest
    · exact h.linear.called t (hsplit ▸ List.mem_append_left _ hpre)
    · rcases List.mem_cons.mp hrest with rfl | hpost
      · exact hcall
      · exact h.linear.called t (hsplit ▸ List.mem_append_right _ hpost)
  · obtain ⟨op', hmem⟩ := h.linear.returned j r hret
    exact ⟨op', hkept _ hmem⟩
  · have hold : t ∈ order → ∃ op', [⟨j, op', r⟩, t] <+
        pre ++ ⟨i, op, (obj.apply (obj.perform a pre) op).1⟩ :: post := by
      intro ht
      obtain ⟨op', hpair'⟩ := h.linear.realTime j r t ht hpair
      exact ⟨op', hpair'.trans hsub⟩
    rcases List.mem_append.mp ht with hpre | hrest
    · exact hold (hsplit ▸ List.mem_append_left _ hpre)
    · rcases List.mem_cons.mp hrest with rfl | hpost
      · obtain ⟨op', hmem⟩ := hbefore j r hpair
        refine ⟨op', List.Sublist.append (List.singleton_sublist.mpr hmem) ?_⟩
        exact List.singleton_sublist.mpr List.mem_cons_self
      · exact hold (hsplit ▸ List.mem_append_right _ hpost)

/-- A moment stays one when a turn that keeps the object, or the newest turn, comes in. -/
theorem Moment.insert {j : Nat} {op' : ω} {b : α} {t : Turn ω ρ}
    {pre post : List (Turn ω ρ)} (h : obj.Moment a history (pre ++ post) j op' b)
    (hkeep : post ≠ [] → (obj.apply (obj.perform a pre) t.op).2 = obj.perform a pre) :
    obj.Moment a history (pre ++ t :: post) j op' b := by
  obtain ⟨pre', post', hsplit, hperform, hbefore⟩ := h
  rcases List.append_eq_append_iff.mp hsplit with ⟨mid, rfl, hpost⟩ | ⟨mid, rfl, rfl⟩
  · cases hmid : mid with
    | nil =>
        refine ⟨pre, t :: post, rfl, ?_, ?_⟩
        · simpa [hmid] using hperform
        · simpa [hmid] using hbefore
    | cons t' rest =>
        have hne : post ≠ [] := by simp [hpost, hmid]
        refine ⟨pre ++ t :: mid, post', by simp [hpost], ?_, fun k r hpair => ?_⟩
        · rw [perform_append] at hperform ⊢
          rw [perform, hkeep hne]
          exact hperform
        · obtain ⟨opk, hmem⟩ := hbefore k r hpair
          refine ⟨opk, ?_⟩
          rcases List.mem_append.mp hmem with hpre | hm
          · exact List.mem_append_left _ hpre
          · exact List.mem_append_right _ (List.mem_cons_of_mem _ hm)
  · exact ⟨pre', mid ++ t :: post, by simp, hperform, hbefore⟩

theorem Explains.commit (h : obj.Explains a history order s) {i : Nat} {op : ω} {seen : List α}
    (hi : s.callers[i]? = some (.called op seen)) :
    obj.Explains a history (order ++ [⟨i, op, (obj.apply s.object op).1⟩])
      { object := (obj.apply s.object op).2
        callers := (s.callers.set i (.committed op (obj.apply s.object op).1)).map
          (Caller.note (obj.apply s.object op).2) } := by
  have hall : ∀ j r op', [.ret j r, .call i op'] <+ history → ∃ op'', ⟨j, op'', r⟩ ∈ order :=
    fun j r op' hpair => h.linear.returned j r (hpair.subset (by simp))
  have hlinear := h.linear_insert hi (List.append_nil order).symm (fun j r => hall j r op)
    (fun hne => absurd rfl hne)
  rw [h.object] at hlinear
  have hperform : obj.perform a (order ++ [⟨i, op, (obj.apply s.object op).1⟩]) =
      (obj.apply s.object op).2 := by
    rw [perform_append, h.object]
    rfl
  refine ⟨hlinear, hperform, fun j op' hcall => ?_, fun j op' seen' hj => ?_, fun j op' r hj => ?_⟩
  · rw [List.length_map, List.length_set]
    exact h.known j op' hcall
  · rw [List.getElem?_map, Option.map_eq_some_iff] at hj
    obtain ⟨c, hc, hnote⟩ := hj
    rcases TaskPool.getElem?_set_cases hc with ⟨_, rfl⟩ | ⟨hne, hold⟩
    · cases hnote
    · cases c with
      | committed | returned => cases hnote
      | called op₁ seen₁ =>
          cases hnote
          obtain ⟨hcall, hnone, hseen⟩ := h.waiting j op' seen₁ hold
          refine ⟨hcall, fun t ht => ?_, fun b hb => ?_⟩
          · rcases List.mem_append.mp ht with hold' | hnew
            · exact hnone t hold'
            · rw [List.mem_singleton.mp hnew]
              exact hne
          · rcases List.mem_append.mp hb with hold' | hnew
            · have hmoment : obj.Moment a history (order ++ []) j op' b := by
                rw [List.append_nil]
                exact hseen b hold'
              exact hmoment.insert fun hne => absurd rfl hne
            · rw [List.mem_singleton.mp hnew]
              refine ⟨_, [], (List.append_nil _).symm, hperform, fun k r hpair => ?_⟩
              obtain ⟨opk, hmem⟩ := h.linear.returned k r (hpair.subset (by simp))
              exact ⟨opk, List.mem_append_left _ hmem⟩
  · rw [List.getElem?_map, Option.map_eq_some_iff] at hj
    obtain ⟨c, hc, hnote⟩ := hj
    rcases TaskPool.getElem?_set_cases hc with ⟨rfl, rfl⟩ | ⟨_, hold⟩
    · cases hnote
      simp
    · cases c with
      | called | returned => cases hnote
      | committed op₁ r₁ =>
          cases hnote
          exact List.mem_append_left _ (h.committed j op' r hold)

/-- The turn of a call that only reads comes where the object was the one it recalls. -/
theorem Explains.hindsight (h : obj.Explains a history order s) {i : Nat} {op : ω} {seen : List α}
    {b : α} (hi : s.callers[i]? = some (.called op seen)) (hb : b ∈ seen)
    (hreads : obj.reads op = true) :
    ∃ order', obj.Explains a history order'
      { s with callers := s.callers.set i (.committed op (obj.apply b op).1) } := by
  obtain ⟨_, _, hseen⟩ := h.waiting i op seen hi
  obtain ⟨pre, post, hsplit, rfl, hbefore⟩ := hseen b hb
  have hkeep : (obj.apply (obj.perform a pre) op).2 = obj.perform a pre :=
    obj.apply_of_reads _ op hreads
  have hlinear := h.linear_insert hi hsplit hbefore fun _ => hkeep
  have hmem : ∀ t, t ∈ pre ++ (⟨i, op, (obj.apply (obj.perform a pre) op).1⟩ : Turn ω ρ) :: post →
      t = ⟨i, op, (obj.apply (obj.perform a pre) op).1⟩ ∨ t ∈ order := by
    intro t ht
    rw [hsplit]
    simp only [List.mem_append, List.mem_cons] at ht ⊢
    tauto
  refine ⟨_, hlinear, ?_, fun j op' hcall => ?_, fun j op' seen' hj => ?_, fun j op' r hj => ?_⟩
  · rw [← h.object, hsplit, perform_append, perform_append, perform, hkeep]
  · rw [List.length_set]
    exact h.known j op' hcall
  · rcases TaskPool.getElem?_set_cases hj with ⟨_, heq⟩ | ⟨hne, hold⟩
    · cases heq
    · obtain ⟨hcall, hnone, hseen'⟩ := h.waiting j op' seen' hold
      refine ⟨hcall, fun t ht => ?_, fun c hc => ?_⟩
      · rcases hmem t ht with rfl | hold'
        · exact hne
        · exact hnone t hold'
      · exact Moment.insert (hsplit ▸ hseen' c hc) fun _ => hkeep
  · rcases TaskPool.getElem?_set_cases hj with ⟨rfl, heq⟩ | ⟨_, hold⟩
    · cases heq
      simp
    · have hold' := h.committed j op' r hold
      rw [hsplit] at hold'
      simp only [List.mem_append, List.mem_cons] at hold' ⊢
      tauto

theorem Explains.ret (h : obj.Explains a history order s) {i : Nat} {op : ω} {r : ρ}
    (hi : s.callers[i]? = some (.committed op r)) :
    obj.Explains a (history ++ [.ret i r]) order
      { s with callers := s.callers.set i (.returned op r) } := by
  have hpast : ∀ e j op', [e, .call j op'] <+ history ++ [.ret i r] →
      [e, .call j op'] <+ history := by
    intro e j op' hpair
    rcases pair_sublist_snoc.mp hpair with hold | ⟨_, heq⟩
    · exact hold
    · cases heq
  refine ⟨⟨h.linear.legal, h.linear.once, fun t ht => ?_, fun j r' hret => ?_,
    fun j r' t ht hpair => h.linear.realTime j r' t ht (hpast _ _ _ hpair)⟩, h.object,
    fun j op' hcall => ?_, fun j op' seen hj => ?_, fun j op' r' hj => ?_⟩
  · exact List.mem_append_left _ (h.linear.called t ht)
  · rcases List.mem_append.mp hret with hold | hnew
    · exact h.linear.returned j r' hold
    · rw [List.mem_singleton, Event.ret.injEq] at hnew
      obtain ⟨rfl, rfl⟩ := hnew
      exact ⟨op, h.committed j op r' hi⟩
  · rw [List.length_set]
    rcases List.mem_append.mp hcall with hold | hnew
    · exact h.known j op' hold
    · simp at hnew
  · rcases TaskPool.getElem?_set_cases hj with ⟨_, heq⟩ | ⟨_, hold⟩
    · cases heq
    · obtain ⟨hcall, hnone, hseen⟩ := h.waiting j op' seen hold
      refine ⟨List.mem_append_left _ hcall, hnone, fun b hb => ?_⟩
      obtain ⟨pre, post, hsplit, hperform, hbefore⟩ := hseen b hb
      exact ⟨pre, post, hsplit, hperform, fun k r' hpair => hbefore k r' (hpast _ _ _ hpair)⟩
  · rcases TaskPool.getElem?_set_cases hj with ⟨_, heq⟩ | ⟨_, hold⟩
    · cases heq
    · exact h.committed j op' r' hold

theorem Explains.step {s' : State α ω ρ} {m : Move ω} (h : obj.Explains a history order s)
    (hstep : obj.step s m = some s') :
    ∃ order', obj.Explains a (history ++ (event s m).toList) order' s' := by
  cases m with
  | call op =>
      cases hstep
      exact ⟨order, h.call op⟩
  | commit i =>
      rw [event, Option.toList_none, List.append_nil]
      simp only [AtomicObject.step] at hstep
      split at hstep
      next op seen hi =>
        cases hstep
        exact ⟨_, h.commit hi⟩
      next => cases hstep
  | hindsight i k =>
      rw [event, Option.toList_none, List.append_nil]
      simp only [AtomicObject.step] at hstep
      split at hstep
      next op seen hi =>
        split at hstep
        next b hk =>
          split at hstep
          next hreads =>
            cases hstep
            exact h.hindsight hi (List.mem_of_getElem? hk) hreads
          next => cases hstep
        next => cases hstep
      next => cases hstep
  | ret i =>
      simp only [AtomicObject.step] at hstep
      split at hstep
      next op r hi =>
        cases hstep
        rw [event_ret hi]
        exact ⟨order, h.ret hi⟩
      next => cases hstep

theorem Explains.run {s' : State α ω ρ} {ms : List (Move ω)} (h : obj.Explains a history order s)
    (hrun : StepSystem.run obj.step s ms = some s') :
    ∃ order', obj.Explains a (history ++ observe obj.step event s ms) order' s' := by
  induction ms generalizing s history order with
  | nil =>
      cases hrun
      exact ⟨order, by simpa using h⟩
  | cons m ms ih =>
      obtain ⟨s₁, hs₁, hrest⟩ := run_cons_some hrun
      obtain ⟨order₁, h₁⟩ := h.step hs₁
      obtain ⟨order', h'⟩ := ih h₁ hrest
      refine ⟨order', ?_⟩
      rwa [observe_cons ms hs₁, ← List.append_assoc]

end Explaining

/-! ## Systems that behave like the automaton -/

section Simulation

variable {σ : Type x} {ℓ : Type y} {step' : σ → ℓ → Option σ}
  {event' : σ → ℓ → Option (Event ω ρ)} {R : σ → State α ω ρ → Prop}

/-- Each step is answered by moves of the automaton that show the callers the same. -/
def Answers (obj : AtomicObject α ω ρ) (step' : σ → ℓ → Option σ)
    (event' : σ → ℓ → Option (Event ω ρ)) (R : σ → State α ω ρ → Prop) : Prop :=
  ∀ s l s' t, R s t → step' s l = some s' →
    ∃ ms t', StepSystem.run obj.step t ms = some t' ∧
      observe obj.step event t ms = (event' s l).toList ∧ R s' t'

theorem Answers.run (h : obj.Answers step' event' R) {s s' : σ} {t : State α ω ρ} {ls : List ℓ}
    (hR : R s t) (hrun : StepSystem.run step' s ls = some s') :
    ∃ ms t', StepSystem.run obj.step t ms = some t' ∧
      observe obj.step event t ms = observe step' event' s ls ∧ R s' t' := by
  induction ls generalizing s t with
  | nil =>
      cases hrun
      exact ⟨[], t, rfl, rfl, hR⟩
  | cons l ls ih =>
      obtain ⟨s₁, hs₁, hrest⟩ := run_cons_some hrun
      obtain ⟨ms₁, t₁, ht₁, hsame₁, hR₁⟩ := h s l s₁ t hR hs₁
      obtain ⟨ms₂, t₂, ht₂, hsame₂, hR₂⟩ := ih hR₁ hrest
      refine ⟨ms₁ ++ ms₂, t₂, run_trans ht₁ ht₂, ?_, hR₂⟩
      rw [observe_append ms₂ ht₁, observe_cons ls hs₁, hsame₁, hsame₂]

/-- Every history of a system that the automaton answers is linearizable, the order leads
to the automaton's object, and no call is numbered past the callers. -/
theorem Answers.linearizes (h : obj.Answers step' event' R) {s s' : σ} {a : α} {ls : List ℓ}
    (hR : R s { object := a, callers := [] }) (hrun : StepSystem.run step' s ls = some s') :
    ∃ order t, obj.Linearizes a (observe step' event' s ls) order ∧
      obj.perform a order = t.object ∧
      (∀ i op, .call i op ∈ observe step' event' s ls → i < t.callers.length) ∧ R s' t := by
  obtain ⟨ms, t, hms, hsame, hR'⟩ := h.run hR hrun
  obtain ⟨order, hexplains⟩ := (explains_init obj a).run hms
  rw [List.nil_append, hsame] at hexplains
  exact ⟨order, t, hexplains.linear, hexplains.object, hexplains.known, hR'⟩

end Simulation

end AtomicObject

end Linearization
