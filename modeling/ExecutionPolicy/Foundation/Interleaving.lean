import ExecutionPolicy.Foundation.StepSystem
import ExecutionPolicy.Foundation.TaskPool

/-! # Programs that run side by side

A program accesses shared objects one at a time and computes in between. Jobs run their
programs on one set of objects and any access of any job may come next. What the jobs do
together is reasoned about through a protocol: it says which accesses a job may make in
which phase. A program is checked against the protocol alone, whatever its accesses
answer, and what every allowed access preserves holds of every interleaving.
-/

namespace Interleaving

open StepSystem

variable {Op : Type} {Ans : Op → Type} {α β : Type}

/-! ## Programs -/

inductive Program (Op : Type) (Ans : Op → Type) (α : Type) where
  | done (a : α)
  | access (op : Op) (next : Ans op → Program Op Ans α)

namespace Program

/-- Go on with `f` where the program ends. -/
protected def bind : Program Op Ans α → (α → Program Op Ans β) → Program Op Ans β
  | done a, f => f a
  | access op next, f => access op fun r => (next r).bind f

instance monad : Monad (Program Op Ans) where
  pure := done
  bind := Program.bind

def ask (op : Op) : Program Op Ans (Ans op) := access op done

@[simp] theorem pure_eq (a : α) : (pure a : Program Op Ans α) = done a := rfl

@[simp] theorem done_bind (a : α) (f : α → Program Op Ans β) : done a >>= f = f a := rfl

@[simp] theorem access_bind (op : Op) (next : Ans op → Program Op Ans α)
    (f : α → Program Op Ans β) : access op next >>= f = access op fun r => next r >>= f := rfl

@[simp] theorem ask_bind (op : Op) (f : Ans op → Program Op Ans β) :
    ask op >>= f = access op f := rfl

theorem bind_done (p : Program Op Ans α) : p >>= done = p := by
  induction p with
  | done a => rfl
  | access op next ih => exact congrArg (access op) (funext ih)

theorem bind_assoc {γ : Type} (p : Program Op Ans α) (f : α → Program Op Ans β)
    (g : β → Program Op Ans γ) : (p >>= f) >>= g = p >>= fun a => f a >>= g := by
  induction p with
  | done a => rfl
  | access op next ih => exact congrArg (access op) (funext ih)

instance lawfulMonad : LawfulMonad (Program Op Ans) :=
  LawfulMonad.mk' (Program Op Ans) bind_done (fun _ _ => rfl) bind_assoc

/-! ## Programs in another monad -/

section Play

variable {m : Type → Type} [Monad m]

/-- The program run in `m`, which answers its accesses. -/
def play (answer : (op : Op) → m (Ans op)) : Program Op Ans α → m α
  | done a => pure a
  | access op next => answer op >>= fun r => (next r).play answer

variable {answer : (op : Op) → m (Ans op)}

@[simp] theorem play_done (a : α) : (done a : Program Op Ans α).play answer = pure a := rfl

@[simp] theorem play_access (op : Op) (next : Ans op → Program Op Ans α) :
    (access op next).play answer = answer op >>= fun r => (next r).play answer := rfl

variable [LawfulMonad m]

@[simp] theorem play_ask (op : Op) : (ask op : Program Op Ans (Ans op)).play answer = answer op :=
  bind_pure (answer op)

@[simp] theorem play_bind (p : Program Op Ans α) (f : α → Program Op Ans β) :
    (p >>= f).play answer = p.play answer >>= fun a => (f a).play answer := by
  induction p with
  | done a => rw [done_bind, play_done, pure_bind]
  | access op next ih =>
      rw [access_bind, play_access, play_access, LawfulMonad.bind_assoc]
      exact congrArg _ (funext ih)

end Play

/-! ## Number of accesses -/

/-- The program makes at most `n` accesses, whatever they answer. -/
def Within : Nat → Program Op Ans α → Prop
  | _, done _ => True
  | 0, access _ _ => False
  | n + 1, access _ next => ∀ r, (next r).Within n

theorem Within.mono {p : Program Op Ans α} {m n : Nat} (h : p.Within m) (hle : m ≤ n) :
    p.Within n := by
  induction p generalizing m n with
  | done a => cases n <;> trivial
  | access op next ih =>
      cases m with
      | zero => exact h.elim
      | succ m =>
          cases n with
          | zero => omega
          | succ n => exact fun r => ih r (h r) (Nat.le_of_succ_le_succ hle)

theorem within_done (n : Nat) (a : α) : (done a : Program Op Ans α).Within n := by
  cases n <;> trivial

theorem Within.bind {p : Program Op Ans α} {f : α → Program Op Ans β} {m n : Nat}
    (h : p.Within m) (hf : ∀ a, (f a).Within n) : (p >>= f).Within (m + n) := by
  induction p generalizing m with
  | done a => exact (hf a).mono (Nat.le_add_left n m)
  | access op next ih =>
      cases m with
      | zero => exact h.elim
      | succ m =>
          rw [Nat.succ_add]
          exact fun r => ih r (h r)

end Program

/-! ## Protocols -/

/-- Which accesses a job may make in which phase, and the phase after them. -/
structure Protocol (Φ Op : Type) (Ans : Op → Type) where
  allows : Φ → Op → Prop
  next : Φ → (op : Op) → Ans op → Φ

namespace Program

variable {Φ : Type} {P : Protocol Φ Op Ans} {post : Φ → α → Prop} {φ : Φ}

/-- From phase `φ` on the program makes allowed accesses only, and it ends as `post` says. -/
def Keeps (P : Protocol Φ Op Ans) (post : Φ → α → Prop) : Φ → Program Op Ans α → Prop
  | φ, done a => post φ a
  | φ, access op next => P.allows φ op ∧ ∀ r, (next r).Keeps P post (P.next φ op r)

@[simp] theorem keeps_done (a : α) : (done a).Keeps P post φ ↔ post φ a := Iff.rfl

@[simp] theorem keeps_access (op : Op) (next : Ans op → Program Op Ans α) :
    (access op next).Keeps P post φ ↔
      P.allows φ op ∧ ∀ r, (next r).Keeps P post (P.next φ op r) := Iff.rfl

theorem keeps_bind (p : Program Op Ans α) (f : α → Program Op Ans β) {post : Φ → β → Prop} :
    (p >>= f).Keeps P post φ ↔ p.Keeps P (fun ψ a => (f a).Keeps P post ψ) φ := by
  induction p generalizing φ with
  | done a => exact Iff.rfl
  | access op next ih => exact and_congr_right fun _ => forall_congr' fun r => ih r

theorem Keeps.mono {post' : Φ → α → Prop} {p : Program Op Ans α} (h : p.Keeps P post φ)
    (hpost : ∀ ψ a, post ψ a → post' ψ a) : p.Keeps P post' φ := by
  induction p generalizing φ with
  | done a => exact hpost φ a h
  | access op next ih => exact ⟨h.1, fun r => ih r (h.2 r)⟩

theorem Keeps.bind {p : Program Op Ans α} {f : α → Program Op Ans β} {mid : Φ → α → Prop}
    {post : Φ → β → Prop} (h : p.Keeps P mid φ)
    (hf : ∀ ψ a, mid ψ a → (f a).Keeps P post ψ) : (p >>= f).Keeps P post φ :=
  (keeps_bind p f).mpr (h.mono hf)

/-- Some answers lead the program to an end of this kind, past no barred access. -/
def MayEnd (barred : Op → Prop) (rest : α → Prop) : Program Op Ans α → Prop
  | done a => rest a
  | access op next => ¬ barred op ∧ ∃ r, (next r).MayEnd barred rest

/-- What holds of the phase at such an end, and before every access that is not barred when
it holds after it, holds now. -/
theorem Keeps.of_mayEnd {barred : Op → Prop} {rest : α → Prop} {Q : Φ → Prop}
    (hpost : ∀ ψ a, post ψ a → rest a → Q ψ)
    (hback : ∀ ψ op r, P.allows ψ op → ¬ barred op → Q (P.next ψ op r) → Q ψ)
    {p : Program Op Ans α} (h : p.Keeps P post φ) (hend : p.MayEnd barred rest) : Q φ := by
  induction p generalizing φ with
  | done a => exact hpost φ a h hend
  | access op next ih =>
      obtain ⟨hfree, r, hr⟩ := hend
      exact hback φ op r h.1 hfree (ih r (h.2 r) hr)

end Program

/-! ## Jobs -/

/-- A job between two programs, or before an access of one. -/
inductive Job (Op : Type) (Ans : Op → Type) (C : Type) where
  | idle (c : C)
  | busy (op : Op) (next : Ans op → Program Op Ans C)

/-- The job that has `p` before it: idle as soon as there is no access left. -/
def Job.of {C : Type} : Program Op Ans C → Job Op Ans C
  | .done c => idle c
  | .access op next => busy op next

/-- How jobs work: what a new one is, the program a move lets it run, what an access does to
the objects and answers, and what else happens to the objects. -/
structure Machine (σ Op : Type) (Ans : Op → Type) (C M W D : Type) where
  fresh : C
  arrive : Nat → σ → σ
  program : M → C → Option (Program Op Ans C)
  perform : Nat → W → (op : Op) → σ → Ans op × σ
  disturb : D → σ → Option σ

/-- The shared objects and the jobs, each named by its place. -/
structure Pool (σ Op : Type) (Ans : Op → Type) (C : Type) where
  objects : σ
  jobs : List (Job Op Ans C)

inductive Label (M W D : Type) where
  | arrive
  /-- Job `i` begins the program of a move. -/
  | start (i : Nat) (move : M)
  /-- The next access of job `i`; `choice` is what the environment has to say in it. -/
  | access (i : Nat) (choice : W)
  | disturb (d : D)

variable {σ C M W D : Type}

namespace Machine

variable (m : Machine σ Op Ans C M W D)

def step (s : Pool σ Op Ans C) : Label M W D → Option (Pool σ Op Ans C)
  | .arrive => some ⟨m.arrive s.jobs.length s.objects, s.jobs ++ [.idle m.fresh]⟩
  | .start i move =>
      match s.jobs[i]? with
      | some (.idle c) => (m.program move c).map fun p => { s with jobs := s.jobs.set i (.of p) }
      | _ => none
  | .access i choice =>
      match s.jobs[i]? with
      | some (.busy op next) =>
          let r := m.perform i choice op s.objects
          some ⟨r.2, s.jobs.set i (.of (next r.1))⟩
      | _ => none
  | .disturb d => (m.disturb d s.objects).map fun objects => { s with objects }

variable {m} {s s' : Pool σ Op Ans C} {i : Nat}

theorem step_start {move : M} (h : m.step s (.start i move) = some s') :
    ∃ c p, s.jobs[i]? = some (.idle c) ∧ m.program move c = some p ∧
      s' = { s with jobs := s.jobs.set i (.of p) } := by
  simp only [step] at h
  split at h
  next c hc =>
    obtain ⟨p, hp, hs'⟩ := Option.map_eq_some_iff.mp h
    exact ⟨c, p, hc, hp, hs'.symm⟩
  next => cases h

theorem step_access {choice : W} (h : m.step s (.access i choice) = some s') :
    ∃ op next, s.jobs[i]? = some (.busy op next) ∧
      s' = ⟨(m.perform i choice op s.objects).2,
        s.jobs.set i (.of (next (m.perform i choice op s.objects).1))⟩ := by
  simp only [step] at h
  split at h
  next op next hi => exact ⟨op, next, hi, (Option.some.inj h).symm⟩
  next => cases h

theorem step_disturb {d : D} (h : m.step s (.disturb d) = some s') :
    ∃ objects, m.disturb d s.objects = some objects ∧ s' = { s with objects } := by
  obtain ⟨objects, hd, hs'⟩ := Option.map_eq_some_iff.mp h
  exact ⟨objects, hd, hs'.symm⟩

end Machine

/-! ## Lists place by place -/

/-- What stands at the same place of both lists is related. -/
structure Paired (R : α → β → Prop) (as : List α) (bs : List β) : Prop where
  length : as.length = bs.length
  each : ∀ (i : Nat) (a : α) (b : β), as[i]? = some a → bs[i]? = some b → R a b

section Pairs

variable {R : α → β → Prop} {as : List α} {bs : List β} {a : α} {b : β}

theorem paired_nil : Paired R [] [] :=
  ⟨rfl, fun i a b h => by simp at h⟩

theorem Paired.snoc (h : Paired R as bs) (hab : R a b) : Paired R (as ++ [a]) (bs ++ [b]) := by
  refine ⟨by simp [h.length], fun i a' b' ha hb => ?_⟩
  rcases TaskPool.getElem?_snoc_cases ha with ⟨rfl, rfl⟩ | ha
  · rw [h.length, List.getElem?_concat_length] at hb
    cases hb
    exact hab
  · have hlt := (List.getElem?_eq_some_iff.mp ha).1
    rw [List.getElem?_append_left (by rw [← h.length]; exact hlt)] at hb
    exact h.each i a' b' ha hb

theorem Paired.set (h : Paired R as bs) (i : Nat) (hab : R a b) :
    Paired R (as.set i a) (bs.set i b) := by
  refine ⟨by simp [h.length], fun j a' b' ha hb => ?_⟩
  rcases TaskPool.getElem?_set_cases ha with ⟨rfl, rfl⟩ | ⟨hij, ha⟩
  · rcases TaskPool.getElem?_set_cases hb with ⟨_, rfl⟩ | ⟨hne, _⟩
    · exact hab
    · exact absurd rfl hne
  · rw [List.getElem?_set_ne hij] at hb
    exact h.each j a' b' ha hb

theorem Paired.left (h : Paired R as bs) {i : Nat} (hi : bs[i]? = some b) :
    ∃ a, as[i]? = some a ∧ R a b := by
  have hlt : i < as.length := h.length ▸ (List.getElem?_eq_some_iff.mp hi).1
  have ha := List.getElem?_eq_getElem hlt
  exact ⟨as[i], ha, h.each i _ b ha hi⟩

theorem Paired.right (h : Paired R as bs) {i : Nat} (hi : as[i]? = some a) :
    ∃ b, bs[i]? = some b ∧ R a b := by
  have hlt : i < bs.length := h.length ▸ (List.getElem?_eq_some_iff.mp hi).1
  have hb := List.getElem?_eq_getElem hlt
  exact ⟨bs[i], hb, h.each i a _ hi hb⟩

theorem Paired.forall₂ (h : Paired R as bs) :
    List.Forall₂ (fun a b => b ∈ bs ∧ R a b) as bs := by
  refine List.forall₂_iff_get.mpr ⟨h.length, fun j ha hb => ⟨List.get_mem bs ⟨j, hb⟩, ?_⟩⟩
  exact h.each j _ _ (List.getElem?_eq_getElem ha) (List.getElem?_eq_getElem hb)

end Pairs

/-! ## The rule for interleavings -/

section Rule

variable {Φ : Type} {m : Machine σ Op Ans C M W D} {P : Protocol Φ Op Ans} {At : Φ → C → Prop}

/-- A job in phase `φ` is at rest as `At` says, or keeps to the protocol until it is. -/
def Job.Keeps (P : Protocol Φ Op Ans) (At : Φ → C → Prop) (φ : Φ) : Job Op Ans C → Prop
  | idle c => At φ c
  | busy op next => (Program.access op next).Keeps P At φ

theorem Job.keeps_of {φ : Φ} {p : Program Op Ans C} (h : p.Keeps P At φ) :
    (Job.of p).Keeps P At φ := by
  cases p <;> exact h

/-- Each job keeps to the protocol from its own phase on. -/
abbrev Attended (P : Protocol Φ Op Ans) (At : Φ → C → Prop) (phases : List Φ)
    (jobs : List (Job Op Ans C)) : Prop :=
  Paired (fun φ job => job.Keeps P At φ) phases jobs

section Attendance

variable {phases : List Φ} {jobs : List (Job Op Ans C)}

theorem Attended.total_le (h : Attended P At phases jobs) {w : Job Op Ans C → Nat} {f : Φ → Nat}
    (hw : ∀ φ job, job ∈ jobs → job.Keeps P At φ → w job ≤ f φ) :
    TaskPool.total w jobs ≤ TaskPool.total f phases := by
  have hweights : List.Forall₂ (· ≤ ·) (jobs.map w) (phases.map f) := by
    refine List.forall₂_map_left_iff.mpr (List.forall₂_map_right_iff.mpr ?_)
    exact h.forall₂.flip.imp fun job φ hjob => hw φ job hjob.1 hjob.2
  exact hweights.sum_le_sum

theorem Attended.le_total (h : Attended P At phases jobs) {w : Job Op Ans C → Nat} {f : Φ → Nat}
    (hw : ∀ φ job, job ∈ jobs → job.Keeps P At φ → f φ ≤ w job) :
    TaskPool.total f phases ≤ TaskPool.total w jobs := by
  have hweights : List.Forall₂ (· ≤ ·) (phases.map f) (jobs.map w) := by
    refine List.forall₂_map_left_iff.mpr (List.forall₂_map_right_iff.mpr ?_)
    exact h.forall₂.imp fun φ job hjob => hw φ job hjob.1 hjob.2
  exact hweights.sum_le_sum

end Attendance

/-- Every program a job at rest may run keeps to the protocol and brings it to rest. -/
structure Machine.Follows (m : Machine σ Op Ans C M W D) (P : Protocol Φ Op Ans)
    (At : Φ → C → Prop) (φ₀ : Φ) : Prop where
  fresh : At φ₀ m.fresh
  program : ∀ φ c move p, At φ c → m.program move c = some p → p.Keeps P At φ

/-- `I` is preserved by allowed accesses, arrivals and all else that happens; it may speak of
the disturbances so far. -/
structure Machine.Preserves (m : Machine σ Op Ans C M W D) (P : Protocol Φ Op Ans) (φ₀ : Φ)
    (I : List D → σ → List Φ → Prop) : Prop where
  arrive : ∀ ds s φs, I ds s φs → I ds (m.arrive φs.length s) (φs ++ [φ₀])
  access : ∀ ds s φs i φ choice op, I ds s φs → φs[i]? = some φ → P.allows φ op →
    I ds (m.perform i choice op s).2 (φs.set i (P.next φ op (m.perform i choice op s).1))
  disturb : ∀ ds s φs d s', I ds s φs → m.disturb d s = some s' → I (ds ++ [d]) s' φs

def Label.disturbance? : Label M W D → Option D
  | disturb d => some d
  | _ => none

section Interleavings

variable {φ₀ : Φ} {I : List D → σ → List Φ → Prop} {s s' : Pool σ Op Ans C} {φs : List Φ}
  {ds : List D}

theorem Machine.attended_step (hm : m.Follows P At φ₀) (hI : m.Preserves P φ₀ I)
    {l : Label M W D} (hat : Attended P At φs s.jobs) (hs : I ds s.objects φs)
    (hstep : m.step s l = some s') :
    ∃ φs', Attended P At φs' s'.jobs ∧ I (ds ++ l.disturbance?.toList) s'.objects φs' := by
  cases l with
  | arrive =>
      cases hstep
      refine ⟨φs ++ [φ₀], hat.snoc hm.fresh, ?_⟩
      rw [← hat.length]
      simpa [Label.disturbance?] using hI.arrive ds s.objects φs hs
  | start i move =>
      obtain ⟨c, p, hi, hp, rfl⟩ := Machine.step_start hstep
      obtain ⟨φ, hφ, hjob⟩ := hat.left hi
      have hset : Attended P At (φs.set i φ) (s.jobs.set i (.of p)) :=
        hat.set i (Job.keeps_of (hm.program φ c move p hjob hp))
      obtain ⟨hlt, rfl⟩ := List.getElem?_eq_some_iff.mp hφ
      rw [List.set_getElem_self] at hset
      exact ⟨φs, hset, by simpa [Label.disturbance?] using hs⟩
  | access i choice =>
      obtain ⟨op, next, hi, rfl⟩ := Machine.step_access hstep
      obtain ⟨φ, hφ, hjob⟩ := hat.left hi
      refine ⟨φs.set i _, hat.set i (Job.keeps_of (hjob.2 _)), ?_⟩
      simpa [Label.disturbance?] using hI.access ds s.objects φs i φ choice op hs hφ hjob.1
  | disturb d =>
      obtain ⟨objects, hd, rfl⟩ := Machine.step_disturb hstep
      exact ⟨φs, hat, hI.disturb ds s.objects φs d objects hs hd⟩

/-- What allowed accesses preserve holds in every interleaving of programs that make no
others. -/
theorem Machine.invariant_of_protocol (hm : m.Follows P At φ₀) (hI : m.Preserves P φ₀ I)
    {ls : List (Label M W D)} (hat : Attended P At φs s.jobs) (hs : I ds s.objects φs)
    (hrun : run m.step s ls = some s') :
    ∃ φs', Attended P At φs' s'.jobs ∧
      I (ds ++ ls.filterMap Label.disturbance?) s'.objects φs' := by
  induction ls generalizing s φs ds with
  | nil =>
      cases hrun
      exact ⟨φs, hat, by simpa using hs⟩
  | cons l ls ih =>
      obtain ⟨s₁, hs₁, hrest⟩ := run_cons_some hrun
      obtain ⟨φs₁, hat₁, hI₁⟩ := Machine.attended_step hm hI hat hs hs₁
      obtain ⟨φs', hat', hI'⟩ := ih hat₁ hI₁ hrest
      refine ⟨φs', hat', ?_⟩
      cases hl : l.disturbance? with
      | none => simpa [hl] using hI'
      | some d => simpa [hl] using hI'

end Interleavings

end Rule

/-! ## One program at a time -/

/-- Where the machine can follow each access of a program, it can follow the program. -/
theorem Machine.run_play {m : Machine σ Op Ans C M W D} {i : Nat} {τ : Type} {view : τ → σ}
    {answer : (op : Op) → StateM τ (Ans op)}
    (hanswer : ∀ (op : Op) (next : Ans op → Program Op Ans C) (t : τ) (jobs : List (Job Op Ans C)),
      jobs[i]? = some (.busy op next) → ∃ ls, run m.step ⟨view t, jobs⟩ ls =
        some ⟨view ((answer op).run t).run.2,
          jobs.set i (.of (next ((answer op).run t).run.1))⟩)
    (p : Program Op Ans C) (t : τ) {jobs : List (Job Op Ans C)} (hi : jobs[i]? = some (.of p)) :
    ∃ ls, run m.step ⟨view t, jobs⟩ ls =
      some ⟨view ((p.play answer).run t).run.2,
        jobs.set i (.idle ((p.play answer).run t).run.1)⟩ := by
  induction p generalizing t jobs with
  | done c =>
      obtain ⟨hlt, hc⟩ := List.getElem?_eq_some_iff.mp hi
      refine ⟨[], ?_⟩
      show some _ = some (Pool.mk (view t) (jobs.set i (Job.of (.done c))))
      rw [← hc, List.set_getElem_self]
  | access op next ih =>
      obtain ⟨ls, hls⟩ := hanswer op next t jobs hi
      obtain ⟨ls', hls'⟩ := ih ((answer op).run t).run.1 ((answer op).run t).run.2
        (TaskPool.getElem?_set_self_of_some hi _)
      rw [List.set_set] at hls'
      exact ⟨ls ++ ls', run_trans hls hls'⟩

/-! ## Own work -/

section OwnWork

variable {m : Machine σ Op Ans C M W D} {s s' : Pool σ Op Ans C} {i : Nat}

def Label.accesses (i : Nat) : Label M W D → Bool
  | .access j _ => j == i
  | _ => false

def Label.starts (i : Nat) : Label M W D → Bool
  | .start j _ => j == i
  | _ => false

def Job.Within (n : Nat) : Job Op Ans C → Prop
  | idle _ => True
  | busy op next => (Program.access op next).Within n

theorem Job.within_of {n : Nat} {p : Program Op Ans C} (h : p.Within n) : (Job.of p).Within n := by
  cases p with
  | done c => trivial
  | access op next => exact h

/-- Whatever the others do in between, a job makes no more accesses than it has left and the
programs it begins have. -/
theorem Machine.accesses_le {n k : Nat} {ls : List (Label M W D)}
    (hprogram : ∀ move c p, m.program move c = some p → p.Within n)
    (hi : ∀ job ∈ s.jobs[i]?, job.Within k) (hrun : run m.step s ls = some s') :
    ls.countP (Label.accesses i) ≤ k + n * ls.countP (Label.starts i) := by
  induction ls generalizing s k with
  | nil => exact Nat.zero_le _
  | cons l ls ih =>
      obtain ⟨s₁, hs₁, hrest⟩ := run_cons_some hrun
      rw [List.countP_cons, List.countP_cons]
      cases l with
      | arrive =>
          cases hs₁
          refine ih (fun job hjob => ?_) hrest
          rcases TaskPool.getElem?_snoc_cases hjob with ⟨_, rfl⟩ | hold
          · trivial
          · exact hi job hold
      | start j move =>
          obtain ⟨c, p, hj, hp, rfl⟩ := Machine.step_start hs₁
          by_cases hji : j = i
          · subst hji
            have hown := ih (k := n) (fun job hjob => ?_) hrest
            · simp only [Label.accesses, Label.starts, beq_self_eq_true, if_true,
                Bool.false_eq_true, if_false, Nat.mul_add]
              omega
            · obtain rfl : Job.of p = job := by
                simpa [TaskPool.getElem?_set_self_of_some hj] using hjob
              exact Job.within_of (hprogram move c p hp)
          · have hown := ih (fun job hjob => hi job (by
              rwa [List.getElem?_set_ne hji] at hjob)) hrest
            simpa [Label.accesses, Label.starts, hji] using hown
      | access j choice =>
          obtain ⟨op, next, hj, rfl⟩ := Machine.step_access hs₁
          by_cases hji : j = i
          · subst hji
            have hleft := hi _ hj
            cases k with
            | zero => exact hleft.elim
            | succ k =>
                have hown := ih (k := k) (fun job hjob => ?_) hrest
                · simp only [Label.accesses, Label.starts, beq_self_eq_true, if_true,
                    Bool.false_eq_true, if_false, Nat.add_zero]
                  omega
                · obtain rfl : Job.of (next _) = job := by
                    simpa [TaskPool.getElem?_set_self_of_some hj] using hjob
                  exact Job.within_of (hleft _)
          · have hown := ih (fun job hjob => hi job (by
              rwa [List.getElem?_set_ne hji] at hjob)) hrest
            simpa [Label.accesses, Label.starts, hji] using hown
      | disturb d =>
          obtain ⟨objects, _, rfl⟩ := Machine.step_disturb hs₁
          exact ih (s := { s with objects }) hi hrest

end OwnWork

end Interleaving
