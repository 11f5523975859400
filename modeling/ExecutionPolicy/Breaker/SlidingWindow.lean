import ExecutionPolicy.Breaker.Runtime
import ExecutionPolicy.Foundation.History

/-! # What the sliding window counts

Each bucket stands for a run of recorded outcomes: those that came less than a bucket's
length after its first. The buckets in order, after what eviction has let go, are the whole
record since the window was last cleared, and neighbouring buckets start at least a
bucket's length apart, so a span holds at most eleven of them.
-/

namespace ExecutionPolicy

open History

/-- An outcome as recorded: the instant, and whether it was a failure. -/
abbrev Outcome := Nat × Bool

inductive WindowOp where
  | clear
  | record (now : Nat) (failure : Bool)
  | totals (now : Nat)
deriving DecidableEq, Repr

namespace WindowOp

def time? : WindowOp → Option Nat
  | clear => none
  | record now _ => some now
  | totals now => some now

def outcome? : WindowOp → Option Outcome
  | record now failure => some (now, failure)
  | _ => none

end WindowOp

/-- What was done to a window since it was last cleared, or else since it was made. -/
def sinceClear (ops : List WindowOp) : List WindowOp := ops.rtakeWhile (· ≠ .clear)

/-- The outcomes recorded since the window was last cleared. -/
def recordedOutcomes (ops : List WindowOp) : List Outcome :=
  (sinceClear ops).filterMap WindowOp.outcome?

/-- The clock readings since the window was last cleared never go back and none is later
than `now`. -/
def MonotoneUntil (now : Nat) (ops : List WindowOp) : Prop :=
  ((sinceClear ops).filterMap WindowOp.time? ++ [now]).Pairwise (· ≤ ·)

instance (now : Nat) (ops : List WindowOp) : Decidable (MonotoneUntil now ops) :=
  inferInstanceAs (Decidable (List.Pairwise _ _))

theorem MonotoneUntil.of_concat {now t : Nat} {ops : List WindowOp} {op : WindowOp}
    (htime : op.time? = some t) (h : MonotoneUntil now (ops ++ [op])) :
    MonotoneUntil t ops ∧ t ≤ now := by
  have hop : op ≠ .clear := by
    rintro rfl
    cases htime
  have hsince : sinceClear (ops ++ [op]) = sinceClear ops ++ [op] := by
    simp [sinceClear, hop]
  unfold MonotoneUntil at h ⊢
  rw [hsince, List.filterMap_append, List.filterMap_cons_some htime, List.filterMap_nil,
    List.pairwise_append] at h
  exact ⟨h.1, h.2.2 t (by simp) now (by simp)⟩

namespace Window

def apply (w : Window) : WindowOp → Window
  | .clear => w.clear
  | .record now failure => w.record now failure
  | .totals now => (w.totals now).2

def exec (span : Nat) (ops : List WindowOp) : Window := replay apply (new span) ops

/-! ## One bucket and its outcomes -/

/-- The bucket has counted these outcomes, none before its start or a bucket's length after. -/
structure Counts (width : Nat) (b : Nat × Nat × Nat) (group : List Outcome) : Prop where
  failures : b.2.1 = group.countP (·.2)
  total : b.2.2 = group.length
  times : ∀ o ∈ group, b.1 ≤ o.1 ∧ o.1 < b.1 + width

theorem Counts.single (width now : Nat) (failure : Bool) (hwidth : 0 < width) :
    Counts width (now, (if failure then 1 else 0), 1) [(now, failure)] := by
  refine ⟨?_, rfl, ?_⟩
  · cases failure <;> rfl
  · intro o ho
    rw [List.mem_singleton.mp ho]
    exact ⟨Nat.le_refl _, Nat.lt_add_of_pos_right hwidth⟩

theorem Counts.concat {width start failures total now : Nat} {group : List Outcome}
    (h : Counts width (start, failures, total) group) (failure : Bool) (hlo : start ≤ now)
    (hhi : now < start + width) :
    Counts width (start, (if failure then failures + 1 else failures), total + 1)
      (group ++ [(now, failure)]) := by
  have hfailures := h.failures
  have htotal := h.total
  dsimp only at hfailures htotal
  refine ⟨?_, ?_, ?_⟩
  · cases failure <;> simp [hfailures]
  · simp [htotal]
  · intro o ho
    rcases List.mem_append.mp ho with ho | ho
    · exact h.times o ho
    · rw [List.mem_singleton.mp ho]
      exact ⟨hlo, hhi⟩

/-- Neighbouring starts lie at least `width` apart. -/
def Spaced (width : Nat) (starts : List Nat) : Prop :=
  starts.Pairwise fun s t => s + width ≤ t

theorem Spaced.concat {width now : Nat} {starts : List Nat} (h : Spaced width starts)
    (hlast : ∀ s ∈ starts.getLast?, s + width ≤ now) : Spaced width (starts ++ [now]) := by
  rcases List.eq_nil_or_concat' starts with rfl | ⟨starts, t, rfl⟩
  · exact List.pairwise_singleton _ _
  · have ht : t + width ≤ now := hlast t (by simp)
    refine List.pairwise_append.mpr ⟨h, List.pairwise_singleton _ _, ?_⟩
    intro s hs now' hnow
    rw [List.mem_singleton.mp hnow]
    rcases List.mem_append.mp hs with hs | hs
    · have hst : s + width ≤ t := (List.pairwise_append.mp h).2.2 s hs t (by simp)
      omega
    · rw [List.mem_singleton.mp hs]
      exact ht

theorem Spaced.length_mul_le {width lo hi : Nat} {starts : List Nat} (h : Spaced width starts)
    (hlo : ∀ s ∈ starts, lo ≤ s) (hhi : ∀ s ∈ starts, s ≤ hi) :
    (starts.length - 1) * width ≤ hi - lo := by
  induction starts generalizing lo with
  | nil => simp
  | cons s starts ih =>
      cases starts with
      | nil => simp
      | cons t starts =>
          have hs := hlo s List.mem_cons_self
          have hst : s + width ≤ t := List.rel_of_pairwise_cons h List.mem_cons_self
          have ht := hhi t (List.mem_cons_of_mem _ List.mem_cons_self)
          have hrest : ((t :: starts).length - 1) * width ≤ hi - (s + width) :=
            ih h.of_cons (fun x hx => List.rel_of_pairwise_cons h hx)
              (fun x hx => hhi x (List.mem_cons_of_mem _ hx))
          simp only [List.length_cons, Nat.add_sub_cancel] at hrest ⊢
          rw [Nat.succ_mul]
          omega

/-! ## All buckets and all outcomes -/

section Groups

variable {width : Nat} {bs : List (Nat × Nat × Nat)} {groups : List (List Outcome)}

theorem foldl_of_counts (h : List.Forall₂ (Counts width) bs groups) (acc : Nat × Nat) :
    bs.foldl (fun acc b => (acc.1 + b.2.1, acc.2 + b.2.2)) acc =
      (acc.1 + groups.flatten.countP (·.2), acc.2 + groups.flatten.length) := by
  induction h generalizing acc with
  | nil => simp
  | cons hb _ ih =>
      rw [List.foldl_cons, ih, hb.failures, hb.total]
      simp [Nat.add_assoc]

theorem exists_start_le (h : List.Forall₂ (Counts width) bs groups) {o : Outcome}
    (ho : o ∈ groups.flatten) : ∃ s ∈ bs.map Prod.fst, s ≤ o.1 := by
  induction h with
  | nil => simp at ho
  | cons hb _ ih =>
      rw [List.flatten_cons] at ho
      rcases List.mem_append.mp ho with ho | ho
      · exact ⟨_, List.mem_cons_self, (hb.times o ho).1⟩
      · obtain ⟨s, hs, hle⟩ := ih ho
        exact ⟨s, List.mem_cons_of_mem _ hs, hle⟩

/-- Letting go of the buckets that start before the cutoff lets go of the first outcomes, all
of them before the cutoff or less than a bucket's length after it; a cutoff at zero lets go
of none. -/
theorem counts_filter (h : List.Forall₂ (Counts width) bs groups) (cutoff : Nat)
    (hspaced : Spaced width (bs.map Prod.fst)) :
    ∃ gone kept, groups.flatten = gone ++ List.flatten kept ∧
      List.Forall₂ (Counts width) (bs.filter fun b => decide (cutoff ≤ b.1)) kept ∧
      ∀ o ∈ gone, 0 < cutoff ∧ o.1 < cutoff + width := by
  induction h with
  | nil => exact ⟨[], [], rfl, .nil, by simp⟩
  | cons hb hbs ih =>
      rename_i b group bs groups
      by_cases hcut : cutoff ≤ b.1
      · have hall : ∀ c ∈ b :: bs, decide (cutoff ≤ c.1) = true := by
          intro c hc
          apply decide_eq_true
          rcases List.mem_cons.mp hc with rfl | hc
          · exact hcut
          · have := List.rel_of_pairwise_cons hspaced (List.mem_map_of_mem hc)
            omega
        refine ⟨[], group :: groups, rfl, ?_, by simp⟩
        rw [List.filter_eq_self.mpr hall]
        exact .cons hb hbs
      · obtain ⟨gone, kept, hsplit, hkept, hgone⟩ := ih hspaced.of_cons
        refine ⟨group ++ gone, kept, ?_, ?_, ?_⟩
        · simp [hsplit]
        · rw [List.filter_cons_of_neg (by simpa using hcut)]
          exact hkept
        · intro o ho
          rcases List.mem_append.mp ho with ho | ho
          · have := (hb.times o ho).2
            omega
          · exact hgone o ho

end Groups

/-! ## A window and what was recorded into it -/

/-- The instants at which the window's buckets start. -/
def starts (w : Window) : List Nat := w.buckets.map Prod.fst

/-- The window's buckets have counted the end of `outs`; what came before is older than
the span at `last` but for less than a bucket's length. -/
structure Tracks (w : Window) (outs : List Outcome) (last : Nat) : Prop where
  shape : w.bucket = max (w.span / 10) oneMilli
  spaced : Spaced w.bucket w.starts
  few : w.buckets.length ≤ 11
  recent : ∀ s ∈ w.starts, s ≤ last
  split : ∃ old groups, outs = old ++ List.flatten groups ∧
    List.Forall₂ (Counts w.bucket) w.buckets groups ∧
    ∀ o ∈ old, o.1 + w.span < last + w.bucket

variable {w : Window} {outs : List Outcome} {last now : Nat}

theorem Tracks.bucket_pos (h : w.Tracks outs last) : 0 < w.bucket := by
  have hshape := h.shape
  unfold oneMilli at hshape
  omega

theorem Tracks.mono (h : w.Tracks outs last) (hle : last ≤ now) : w.Tracks outs now := by
  obtain ⟨old, groups, houts, hgroups, hold⟩ := h.split
  refine ⟨h.shape, h.spaced, h.few, fun b hb => Nat.le_trans (h.recent b hb) hle,
    old, groups, houts, hgroups, fun o ho => ?_⟩
  have := hold o ho
  omega

theorem tracks_clear (hshape : w.bucket = max (w.span / 10) oneMilli) (now : Nat) :
    w.clear.Tracks [] now where
  shape := hshape
  spaced := .nil
  few := Nat.zero_le _
  recent := by simp [clear, starts]
  split := ⟨[], [], rfl, .nil, by simp⟩

@[simp] theorem evict_span (w : Window) (now : Nat) : (w.evict now).span = w.span := by
  unfold evict
  cases Instant.checkedSub now w.span <;> rfl

@[simp] theorem evict_bucket (w : Window) (now : Nat) : (w.evict now).bucket = w.bucket := by
  unfold evict
  cases Instant.checkedSub now w.span <;> rfl

theorem evict_buckets (w : Window) (now : Nat) :
    (w.evict now).buckets = w.buckets.filter fun b => decide (now - w.span ≤ b.1) := by
  unfold evict Instant.checkedSub
  split
  next cutoff hcutoff =>
    split at hcutoff
    · cases hcutoff
      rfl
    · cases hcutoff
  next hnone =>
    have hlt : now < w.span := by
      by_contra hge
      simp [Nat.not_lt.mp hge] at hnone
    have hzero : now - w.span = 0 := Nat.sub_eq_zero_of_le (Nat.le_of_lt hlt)
    simp [hzero]

theorem evict_starts_sublist (w : Window) (now : Nat) :
    (w.evict now).starts.Sublist w.starts := by
  rw [starts, evict_buckets]
  exact List.filter_sublist.map _

theorem le_start_of_evict {s : Nat} (hs : s ∈ (w.evict now).starts) : now - w.span ≤ s := by
  obtain ⟨b, hb, rfl⟩ := List.mem_map.mp hs
  rw [evict_buckets] at hb
  simpa using (List.mem_filter.mp hb).2

theorem Tracks.evict (h : w.Tracks outs last) (hle : last ≤ now) :
    (w.evict now).Tracks outs now := by
  obtain ⟨old, groups, houts, hgroups, hold⟩ := h.split
  obtain ⟨gone, kept, hsplit, hkept, hgone⟩ := counts_filter hgroups (now - w.span) h.spaced
  refine ⟨?_, ?_, ?_, ?_, old ++ gone, kept, ?_, ?_, ?_⟩
  · simpa using h.shape
  · rw [evict_bucket]
    exact h.spaced.sublist (w.evict_starts_sublist now)
  · rw [evict_buckets]
    exact Nat.le_trans (List.length_filter_le _ _) h.few
  · intro s hs
    exact Nat.le_trans (h.recent s ((w.evict_starts_sublist now).subset hs)) hle
  · rw [houts, hsplit, List.append_assoc]
  · rw [evict_bucket, evict_buckets]
    exact hkept
  · intro o ho
    rw [evict_span, evict_bucket]
    rcases List.mem_append.mp ho with ho | ho
    · have := hold o ho
      omega
    · have := hgone o ho
      omega

/-- Everything `record` can have done: count the outcome into the youngest bucket left by
eviction, or start a bucket. -/
theorem record_cases (w : Window) (now : Nat) (failure : Bool) :
    (∃ bs start failures total, (w.evict now).buckets = bs ++ [(start, failures, total)] ∧
      now - start < (w.evict now).bucket ∧
      w.record now failure = { w.evict now with buckets := bs ++
        [(start, (if failure then failures + 1 else failures), total + 1)] }) ∨
    ((∀ s ∈ (w.evict now).starts.getLast?, (w.evict now).bucket ≤ now - s) ∧
      w.record now failure = { w.evict now with buckets := (w.evict now).buckets ++
        [(now, (if failure then 1 else 0), 1)] }) := by
  unfold record starts
  generalize w.evict now = e
  rcases List.eq_nil_or_concat' e.buckets with hnil | ⟨bs, ⟨start, failures, total⟩, hbs⟩
  · exact .inr ⟨by simp [hnil], by simp [hnil]⟩
  · by_cases hyoung : now - start < e.bucket
    · refine .inl ⟨bs, start, failures, total, hbs, hyoung, ?_⟩
      simp [hbs, Instant.durationSince, hyoung]
    · refine .inr ⟨by simpa [hbs] using hyoung, ?_⟩
      simp [hbs, Instant.durationSince, hyoung]

theorem length_le_of_spaced {width span now : Nat} {starts : List Nat}
    (hwidth : width = max (span / 10) oneMilli) (hspaced : Spaced width starts)
    (hlo : ∀ s ∈ starts, now - span ≤ s) (hhi : ∀ s ∈ starts, s ≤ now) :
    starts.length ≤ 11 := by
  have hmul : (starts.length - 1) * width ≤ now - (now - span) := hspaced.length_mul_le hlo hhi
  unfold oneMilli at hwidth
  by_contra hmany
  have heleven : 11 * width ≤ (starts.length - 1) * width :=
    Nat.mul_le_mul_right width (by omega)
  omega

theorem forall₂_concat_left {α β : Type*} {R : α → β → Prop} {as : List α} {a : α} {bs : List β}
    (h : List.Forall₂ R (as ++ [a]) bs) :
    ∃ bs' b, bs = bs' ++ [b] ∧ List.Forall₂ R as bs' ∧ R a b := by
  induction as generalizing bs with
  | nil =>
      cases h with
      | cons hab hnil =>
          cases hnil
          exact ⟨[], _, rfl, .nil, hab⟩
  | cons a' as ih =>
      cases h with
      | cons hab hrest =>
          obtain ⟨bs', b, rfl, has, hb⟩ := ih hrest
          exact ⟨_ :: bs', b, rfl, .cons hab has, hb⟩

theorem Tracks.record_joins (h : w.Tracks outs last) (hle : last ≤ now) {failure : Bool}
    {bs : List (Nat × Nat × Nat)} {start failures total : Nat}
    (hbs : (w.evict now).buckets = bs ++ [(start, failures, total)])
    (hyoung : now - start < (w.evict now).bucket)
    (hrecord : w.record now failure = { w.evict now with buckets :=
      bs ++ [(start, (if failure then failures + 1 else failures), total + 1)] }) :
    (w.record now failure).Tracks (outs ++ [(now, failure)]) now := by
  have he := h.evict hle
  obtain ⟨old, groups, houts, hgroups, hold⟩ := he.split
  have hstarts : (w.record now failure).starts = (w.evict now).starts := by
    simp [hrecord, starts, hbs]
  have hcount : (w.record now failure).buckets.length = (w.evict now).buckets.length := by
    simp [hrecord, hbs]
  have hstart : start ≤ now := he.recent start (by simp [starts, hbs])
  rw [hbs] at hgroups
  obtain ⟨groups, group, rfl, hrest, hgroup⟩ := forall₂_concat_left hgroups
  have hgroup' := hgroup.concat failure hstart (by omega)
  refine ⟨?_, ?_, ?_, ?_, old, groups ++ [group ++ [(now, failure)]], ?_, ?_, ?_⟩
  · rw [hrecord]
    exact he.shape
  · rw [hstarts, hrecord]
    exact he.spaced
  · rw [hcount]
    exact he.few
  · rw [hstarts]
    exact he.recent
  · simp [houts]
  · rw [hrecord]
    exact List.rel_append hrest (.cons hgroup' .nil)
  · rw [hrecord]
    exact hold

theorem Tracks.record_opens (h : w.Tracks outs last) (hle : last ≤ now) {failure : Bool}
    (hfull : ∀ s ∈ (w.evict now).starts.getLast?, (w.evict now).bucket ≤ now - s)
    (hrecord : w.record now failure = { w.evict now with buckets := (w.evict now).buckets ++
      [(now, (if failure then 1 else 0), 1)] }) :
    (w.record now failure).Tracks (outs ++ [(now, failure)]) now := by
  have he := h.evict hle
  obtain ⟨old, groups, houts, hgroups, hold⟩ := he.split
  have hstarts : (w.record now failure).starts = (w.evict now).starts ++ [now] := by
    simp [hrecord, starts]
  have hspaced : Spaced (w.evict now).bucket ((w.evict now).starts ++ [now]) := by
    refine he.spaced.concat fun s hs => ?_
    have hwide := hfull s hs
    have hpos := he.bucket_pos
    omega
  have hlo : ∀ s ∈ (w.evict now).starts ++ [now], now - (w.evict now).span ≤ s := by
    intro s hs
    rcases List.mem_append.mp hs with hs | hs
    · rw [evict_span]
      exact le_start_of_evict hs
    · rw [List.mem_singleton.mp hs]
      exact Nat.sub_le _ _
  have hhi : ∀ s ∈ (w.evict now).starts ++ [now], s ≤ now := by
    intro s hs
    rcases List.mem_append.mp hs with hs | hs
    · exact he.recent s hs
    · exact Nat.le_of_eq (List.mem_singleton.mp hs)
  refine ⟨?_, ?_, ?_, ?_, old, groups ++ [[(now, failure)]], ?_, ?_, ?_⟩
  · rw [hrecord]
    exact he.shape
  · rw [hstarts, hrecord]
    exact hspaced
  · have hfew := length_le_of_spaced he.shape hspaced hlo hhi
    rw [← hstarts, starts, List.length_map] at hfew
    exact hfew
  · rw [hstarts]
    exact hhi
  · simp [houts]
  · rw [hrecord]
    exact List.rel_append hgroups (.cons (Counts.single _ now failure he.bucket_pos) .nil)
  · rw [hrecord]
    exact hold

theorem Tracks.record (h : w.Tracks outs last) (hle : last ≤ now) (failure : Bool) :
    (w.record now failure).Tracks (outs ++ [(now, failure)]) now := by
  rcases w.record_cases now failure with
    ⟨bs, start, failures, total, hbs, hyoung, hrecord⟩ | ⟨hfull, hrecord⟩
  · exact h.record_joins hle hbs hyoung hrecord
  · exact h.record_opens hle hfull hrecord

/-! ## Sequences of operations -/

theorem exec_concat (span : Nat) (ops : List WindowOp) (op : WindowOp) :
    exec span (ops ++ [op]) = (exec span ops).apply op := replay_append _ _ _

theorem exec_span (span : Nat) (ops : List WindowOp) : (exec span ops).span = span := by
  refine replay_invariant (I := fun w : Window => w.span = span) ?_ rfl ops
  intro w op hw
  cases op with
  | clear => exact hw
  | record now failure =>
      rcases w.record_cases now failure with ⟨_, _, _, _, _, _, hrecord⟩ | ⟨_, hrecord⟩
      · simpa [apply, hrecord] using hw
      · simpa [apply, hrecord] using hw
  | totals now => simpa [apply, totals] using hw

theorem exec_bucket (span : Nat) (ops : List WindowOp) :
    (exec span ops).bucket = max (span / 10) oneMilli := by
  refine replay_invariant (I := fun w : Window => w.bucket = max (span / 10) oneMilli) ?_ rfl ops
  intro w op hw
  cases op with
  | clear => exact hw
  | record now failure =>
      rcases w.record_cases now failure with ⟨_, _, _, _, _, _, hrecord⟩ | ⟨_, hrecord⟩
      · simpa [apply, hrecord] using hw
      · simpa [apply, hrecord] using hw
  | totals now => simpa [apply, totals] using hw

/-- While the clock does not go back, a window tracks what was recorded since the last
`clear`. -/
theorem tracks_exec (span : Nat) (ops : List WindowOp) (now : Nat) (h : MonotoneUntil now ops) :
    (exec span ops).Tracks (recordedOutcomes ops) now := by
  induction ops using List.reverseRecOn generalizing now with
  | nil => exact tracks_clear (w := new span) rfl now
  | append_singleton ops op ih =>
      have hshape : (exec span ops).bucket = max ((exec span ops).span / 10) oneMilli := by
        rw [exec_bucket, exec_span]
      rw [exec_concat]
      cases op with
      | clear =>
          have hnone : recordedOutcomes (ops ++ [.clear]) = [] := by
            simp [recordedOutcomes, sinceClear]
          rw [hnone]
          exact tracks_clear hshape now
      | record t failure =>
          have houts : recordedOutcomes (ops ++ [.record t failure]) =
              recordedOutcomes ops ++ [(t, failure)] := by
            simp [recordedOutcomes, sinceClear, WindowOp.outcome?]
          obtain ⟨hbefore, hle⟩ := MonotoneUntil.of_concat rfl h
          rw [houts]
          exact ((ih t hbefore).record (Nat.le_refl t) failure).mono hle
      | totals t =>
          have houts : recordedOutcomes (ops ++ [.totals t]) = recordedOutcomes ops := by
            simp [recordedOutcomes, sinceClear, WindowOp.outcome?]
          obtain ⟨hbefore, hle⟩ := MonotoneUntil.of_concat rfl h
          rw [houts]
          exact ((ih t hbefore).evict (Nat.le_refl t)).mono hle

theorem totals_record_pos (w : Window) (now : Nat) (failure : Bool) :
    0 < ((w.record now failure).totals now).1.2 := by
  have hyoung : ∃ bs b, (w.record now failure).buckets = bs ++ [b] ∧ 0 < b.2.2 ∧
      now - (w.record now failure).span ≤ b.1 := by
    rcases w.record_cases now failure with ⟨bs, start, _, _, hbs, _, hrecord⟩ | ⟨_, hrecord⟩
    · refine ⟨bs, _, by rw [hrecord], Nat.succ_pos _, ?_⟩
      rw [hrecord, evict_span]
      exact le_start_of_evict (by simp [starts, hbs])
    · refine ⟨(w.evict now).buckets, _, by rw [hrecord], Nat.one_pos, ?_⟩
      exact Nat.sub_le _ _
  obtain ⟨bs, b, hbs, hpos, hstart⟩ := hyoung
  -- the youngest bucket outlives a second eviction at the same instant and is added last
  have hkept : ((w.record now failure).evict now).buckets =
      (bs.filter fun c => decide (now - (w.record now failure).span ≤ c.1)) ++ [b] := by
    rw [evict_buckets, hbs, List.filter_append, List.filter_cons_of_pos (by simpa using hstart)]
    rfl
  simp only [totals, hkept, List.foldl_append, List.foldl_cons, List.foldl_nil]
  exact Nat.lt_of_lt_of_le hpos (Nat.le_add_left _ _)

end Window

/-- For every span and every sequence of operations whose clock readings since the last
`clear` never go back: what `totals` reads at `now` are the failures and the number of the
last outcomes recorded, which are no older than the span; what it leaves out is older than
the span less a bucket's length; a window never has more than eleven buckets. Right after a
failure is counted, in whatever state the breaker is, the total the trip test divides by is
positive. -/
theorem sliding_window_accurate (span : Nat) (ops : List WindowOp) (now : Nat)
    (hmono : MonotoneUntil now ops) :
    (((Window.exec span ops).totals now).1.1 ≤ ((Window.exec span ops).totals now).1.2 ∧
      ∃ old counted, recordedOutcomes ops = old ++ counted ∧
        ((Window.exec span ops).totals now).1 = (counted.countP (·.2), counted.length) ∧
        (∀ o ∈ counted, now ≤ o.1 + span) ∧
        ∀ o ∈ old, o.1 + span < now + max (span / 10) Window.oneMilli) ∧
    (Window.exec span ops).buckets.length ≤ 11 ∧
    ((Window.exec span ops).totals now).2.buckets.length ≤ 11 ∧
    ∀ (b : BreakerRuntime) (t : Nat), 0 < ((b.countFailure t).window.totals t).1.2 := by
  have htracks := Window.tracks_exec span ops now hmono
  have he := htracks.evict (Nat.le_refl now)
  obtain ⟨old, groups, houts, hgroups, hold⟩ := he.split
  have htotals : ((Window.exec span ops).totals now).1 =
      (groups.flatten.countP (·.2), groups.flatten.length) := by
    have hfold := Window.foldl_of_counts hgroups (0, 0)
    rw [Nat.zero_add, Nat.zero_add] at hfold
    exact hfold
  refine ⟨⟨?_, old, groups.flatten, houts, htotals, ?_, ?_⟩, htracks.few, he.few, ?_⟩
  · rw [htotals]
    exact List.countP_le_length
  · intro o ho
    obtain ⟨s, hs, hle⟩ := Window.exists_start_le hgroups ho
    have hcutoff := Window.le_start_of_evict hs
    rw [Window.exec_span] at hcutoff
    omega
  · simpa [Window.exec_span, Window.exec_bucket] using hold
  · intro b t
    exact Window.totals_record_pos b.window t true

/-- Ten nanoseconds over a full second: the first bucket is let go, the rest counted. -/
theorem sliding_window_accurate_second :
    ∃ old counted, recordedOutcomes [.record 0 true, .record (10 ^ 8) false] = old ++ counted ∧
      ((Window.exec (10 ^ 9) [.record 0 true, .record (10 ^ 8) false]).totals (10 ^ 9 + 10)).1 =
        (counted.countP (·.2), counted.length) := by
  obtain ⟨⟨_, old, counted, houts, htotals, _⟩, _⟩ :=
    sliding_window_accurate (10 ^ 9) [.record 0 true, .record (10 ^ 8) false] (10 ^ 9 + 10)
      (by decide)
  exact ⟨old, counted, houts, htotals⟩

end ExecutionPolicy
