import ExecutionPolicy.Router.Fleet

/-! # What a run has done so far

The loop works on a shrinking list of healthy members and an error accumulator; both
are functions of the finished member calls. From that the result of a run is read off
the sequence of its calls.
-/

namespace ExecutionPolicy

variable {Id T E : Type}

/-! ## The scan -/

namespace Scan

/-- The healthy members are those seen to be healthy, in insertion order. -/
structure Sorted (s : Scan) : Prop where
  mem : ∀ i, i ∈ s.healthy ↔ s.looks[i]? = some .healthy
  order : s.healthy.Pairwise (· < ·)

theorem sorted_empty : Scan.empty.Sorted :=
  ⟨fun i => by simp [empty], List.Pairwise.nil⟩

@[simp] theorem see_looks (s : Scan) (l : Look) : (s.see l).looks = s.looks ++ [l] := by
  cases l <;> rfl

theorem getElem?_looks_snoc (s : Scan) (l l' : Look) (i : Nat) :
    (s.looks ++ [l])[i]? = some l' ↔ s.looks[i]? = some l' ∨ (i = s.looks.length ∧ l = l') := by
  by_cases hi : i < s.looks.length
  · rw [List.getElem?_append_left hi]
    constructor
    · exact .inl
    · rintro (h | ⟨rfl, _⟩)
      · exact h
      · omega
  · rw [List.getElem?_append_right (by omega)]
    have hnone : s.looks[i]? = none := List.getElem?_eq_none_iff.mpr (by omega)
    by_cases heq : i = s.looks.length
    · simp [heq]
    · have hpos : 0 < i - s.looks.length := by omega
      have hbeyond : [l].length ≤ i - s.looks.length := hpos
      simp [hnone, heq, List.getElem?_eq_none_iff.mpr hbeyond]

theorem Sorted.lt {s : Scan} (h : s.Sorted) {i : Nat} (hi : i ∈ s.healthy) :
    i < s.looks.length :=
  (List.getElem?_eq_some_iff.mp ((h.mem i).mp hi)).1

theorem Sorted.see {s : Scan} (h : s.Sorted) (l : Look) : (s.see l).Sorted := by
  refine ⟨fun i => ?_, ?_⟩
  · rw [see_looks, getElem?_looks_snoc, ← h.mem i]
    cases l <;> simp [Scan.see]
  · cases l with
    | healthy =>
        refine List.pairwise_append.mpr ⟨h.order, List.pairwise_singleton _ _, ?_⟩
        intro i hi j hj
        rw [List.mem_singleton.mp hj]
        exact h.lt hi
    | cooling ends => exact h.order
    | lapsed => exact h.order

end Scan

theorem healthyMembers_sorted (ms : List (Plan T E × BreakerRuntime)) {s : Scan} (k : Core)
    (h : s.Sorted) : (healthyMembers ms s k).1.Sorted ∧
      (healthyMembers ms s k).1.looks.length = s.looks.length + ms.length := by
  induction ms generalizing s k with
  | nil => exact ⟨h, rfl⟩
  | cons m ms ih =>
      obtain ⟨hsorted, hlen⟩ := ih (look m k).2 (h.see (look m k).1)
      refine ⟨hsorted, hlen.trans ?_⟩
      simp only [Scan.see_looks, List.length_append, List.length_cons, List.length_nil]
      omega

/-! ## Finished member calls -/

namespace Tried

/-- The run goes on to the next member after this outcome. -/
def advances (p : RouterPolicy Id E) (t : Tried Id T E) : Bool :=
  match t.outcome with
  | .ok _ => false
  | .error (.operation e _) => p.advanceWhen e
  | .error _ => true

def operationError? (t : Tried Id T E) : Option E :=
  match t.outcome with
  | .ok _ => none
  | .error e => e.intoInner

end Tried

def lastOperationError (history : List (Tried Id T E)) : Option E :=
  (history.filterMap Tried.operationError?).getLast?

theorem lastOperationError_snoc (history : List (Tried Id T E)) (t : Tried Id T E) :
    lastOperationError (history ++ [t]) = t.operationError?.or (lastOperationError history) := by
  cases ht : t.operationError? with
  | none => simp [lastOperationError, ht]
  | some e => simp [lastOperationError, ht]

theorem RouterPolicy.afterAttempt_cases (p : RouterPolicy Id E) (t : Tried Id T E) (attempts : Nat)
    (lastErr : Option E) :
    (t.advances p = true ∧ p.afterAttempt t.target attempts t.outcome lastErr =
      .advance (t.operationError?.or lastErr)) ∨
    (∃ value, t.outcome = .ok value ∧ p.afterAttempt t.target attempts t.outcome lastErr =
      .stop (.ok { value, target := t.target.id, attempts })) ∨
    (∃ e ctx, t.outcome = .error (.operation e ctx) ∧ p.advanceWhen e = false ∧
      p.afterAttempt t.target attempts t.outcome lastErr = .stop (.error (.exhausted e))) := by
  obtain ⟨chosen, target, call, outcome⟩ := t
  cases outcome with
  | ok value => exact .inr (.inl ⟨value, rfl, rfl⟩)
  | error e =>
      cases e with
      | operation source ctx =>
          cases hadv : p.advanceWhen source with
          | true =>
              refine .inl ⟨hadv, ?_⟩
              simp [RouterPolicy.afterAttempt, hadv, Tried.operationError?]
          | false =>
              refine .inr (.inr ⟨source, ctx, rfl, hadv, ?_⟩)
              simp [RouterPolicy.afterAttempt, hadv]
      | _ => exact .inl ⟨rfl, rfl⟩

/-- What a run returns, given its finished member calls in order. -/
inductive Verdict (p : RouterPolicy Id E) (scan : Scan) (history : List (Tried Id T E)) :
    Except (RouterError Id E) (Served Id T) → Prop where
  | served {earlier : List (Tried Id T E)} {last : Tried Id T E} {value : T}
      (hsplit : history = earlier ++ [last]) (hearlier : ∀ t ∈ earlier, t.advances p = true)
      (hlast : last.outcome = .ok value) :
      Verdict p scan history (.ok ⟨value, last.target.id, history.length⟩)
  | failedFast {earlier : List (Tried Id T E)} {last : Tried Id T E} {e : E} {ctx : ErrorContext}
      (hsplit : history = earlier ++ [last]) (hearlier : ∀ t ∈ earlier, t.advances p = true)
      (hlast : last.outcome = .error (.operation e ctx)) (hpermanent : p.advanceWhen e = false) :
      Verdict p scan history (.error (.exhausted e))
  | exhausted {e : E} (hadvanced : ∀ t ∈ history, t.advances p = true)
      (hall : ∀ i : Nat, scan.looks[i]? = some .healthy → i ∈ history.map Tried.chosen)
      (herr : lastOperationError history = some e) :
      Verdict p scan history (.error (.exhausted e))
  | unavailable (hadvanced : ∀ t ∈ history, t.advances p = true)
      (hall : ∀ i : Nat, scan.looks[i]? = some .healthy → i ∈ history.map Tried.chosen)
      (herr : lastOperationError history = none) :
      Verdict p scan history (.error (.allUnavailable scan.soonest))

theorem not_advances_ok {p : RouterPolicy Id E} {t : Tried Id T E} {value : T}
    (h : t.outcome = .ok value) : t.advances p = false := by
  simp [Tried.advances, h]

theorem not_advances_permanent {p : RouterPolicy Id E} {t : Tried Id T E} {e : E}
    {ctx : ErrorContext} (h : t.outcome = .error (.operation e ctx))
    (hpermanent : p.advanceWhen e = false) : t.advances p = false := by
  simp [Tried.advances, h, hpermanent]

/-- The calls determine the result. -/
theorem verdict_unique {p : RouterPolicy Id E} {scan : Scan} {history : List (Tried Id T E)}
    {r r' : Except (RouterError Id E) (Served Id T)} (h : Verdict p scan history r)
    (h' : Verdict p scan history r') : r = r' := by
  have hresolved : ∀ {earlier : List (Tried Id T E)} {last : Tried Id T E},
      history = earlier ++ [last] → last.advances p = false →
      ¬ ∀ t ∈ history, t.advances p = true := by
    intro earlier last hsplit hlast hall
    have hadv := hall last (by simp [hsplit])
    simp [hlast] at hadv
  cases h with
  | served hsplit hearlier hlast =>
      cases h' with
      | served hsplit' _ hlast' =>
          obtain ⟨_, heq⟩ := List.append_inj' (hsplit.symm.trans hsplit') rfl
          cases heq
          cases hlast.symm.trans hlast'
          rfl
      | failedFast hsplit' _ hlast' _ =>
          obtain ⟨_, heq⟩ := List.append_inj' (hsplit.symm.trans hsplit') rfl
          cases heq
          cases hlast.symm.trans hlast'
      | exhausted hadv _ _ => exact absurd hadv (hresolved hsplit (not_advances_ok hlast))
      | unavailable hadv _ _ => exact absurd hadv (hresolved hsplit (not_advances_ok hlast))
  | failedFast hsplit hearlier hlast hpermanent =>
      have hstop := hresolved hsplit (not_advances_permanent hlast hpermanent)
      cases h' with
      | served hsplit' _ hlast' =>
          obtain ⟨_, heq⟩ := List.append_inj' (hsplit.symm.trans hsplit') rfl
          cases heq
          cases hlast.symm.trans hlast'
      | failedFast hsplit' _ hlast' _ =>
          obtain ⟨_, heq⟩ := List.append_inj' (hsplit.symm.trans hsplit') rfl
          cases heq
          cases hlast.symm.trans hlast'
          rfl
      | exhausted hadv _ _ => exact absurd hadv hstop
      | unavailable hadv _ _ => exact absurd hadv hstop
  | exhausted hadv _ herr =>
      cases h' with
      | served hsplit _ hlast => exact absurd hadv (hresolved hsplit (not_advances_ok hlast))
      | failedFast hsplit _ hlast hpermanent =>
          exact absurd hadv (hresolved hsplit (not_advances_permanent hlast hpermanent))
      | exhausted _ _ herr' =>
          cases herr.symm.trans herr'
          rfl
      | unavailable _ _ herr' => cases herr.symm.trans herr'
  | unavailable hadv _ herr =>
      cases h' with
      | served hsplit _ hlast => exact absurd hadv (hresolved hsplit (not_advances_ok hlast))
      | failedFast hsplit _ hlast hpermanent =>
          exact absurd hadv (hresolved hsplit (not_advances_permanent hlast hpermanent))
      | exhausted _ _ herr' => cases herr.symm.trans herr'
      | unavailable _ _ _ => rfl

/-! ## The ledger of a run -/

/-- The finished calls are of different healthy members. -/
structure Ledger (p : RouterPolicy Id E) (route : Route Id T E) : Prop where
  looks : route.scan.looks.length ≤ p.targets.length
  once : (route.history.map Tried.chosen).Nodup
  scanned : ∀ t ∈ route.history, route.scan.looks[t.chosen]? = some .healthy
  targets : ∀ t ∈ route.history, p.targets[t.chosen]? = some t.target
  increasing : p.select = Pick.firstHealthy → (route.history.map Tried.chosen).Pairwise (· < ·)

/-- In the loop: `healthy` holds the members not called yet, everything has advanced
and `last_err` is the most recent operation error. -/
structure Going (p : RouterPolicy Id E) (route : Route Id T E) (healthy : List Nat) : Prop
    extends Ledger p route where
  rest : ∀ i, i ∈ healthy ↔
    route.scan.looks[i]? = some .healthy ∧ i ∉ route.history.map Tried.chosen
  order : healthy.Pairwise (· < ·)
  advanced : ∀ t ∈ route.history, t.advances p = true
  lastErr : route.lastErr = lastOperationError route.history
  later : p.select = Pick.firstHealthy → ∀ t ∈ route.history, ∀ i ∈ healthy, t.chosen < i

theorem Going.lt {p : RouterPolicy Id E} {route : Route Id T E} {healthy : List Nat}
    (h : Going p route healthy) {i : Nat} (hi : i ∈ healthy) : i < p.targets.length := by
  have hlook := ((h.rest i).mp hi).1
  exact Nat.lt_of_lt_of_le (List.getElem?_eq_some_iff.mp hlook).1 h.looks

theorem Going.length_le {p : RouterPolicy Id E} {route : Route Id T E} {healthy : List Nat}
    (h : Going p route healthy) : healthy.length ≤ p.targets.length := by
  have hsub : healthy ⊆ List.range p.targets.length :=
    fun i hi => List.mem_range.mpr (h.lt hi)
  have hnodup : healthy.Nodup := h.order.imp fun hlt => Nat.ne_of_lt hlt
  have hle := (hnodup.subperm hsub).length_le
  rwa [List.length_range] at hle

def Orderly (p : RouterPolicy Id E) (route : Route Id T E) : Prop :=
  match route.stage with
  | .created => Ledger p route ∧ route.history = [] ∧ route.lastErr = none ∧ route.attempts = 0
  | .choosing healthy =>
      Going p route healthy ∧ healthy ≠ [] ∧ route.attempts = route.history.length
  | .calling healthy chosen target _ _ =>
      Going p route healthy ∧ chosen ∈ healthy ∧ p.targets[chosen]? = some target ∧
        route.attempts = route.history.length + 1 ∧
        (p.select = Pick.firstHealthy → healthy.head? = some chosen)
  | .returned r => Ledger p route ∧ Verdict p route.scan route.history r
  | .dropped => Ledger p route

section Stretches

variable {net : Network Id T E} {route : Route Id T E} {script : RouteScript T E}
  {c : Commons T E}

theorem orderly_create (p : RouterPolicy Id E) (router : Nat) (entry : Entry) :
    Orderly p (.create router entry : Route Id T E) := by
  refine ⟨⟨Nat.zero_le _, List.nodup_nil, ?_, ?_, fun _ => List.Pairwise.nil⟩, rfl, rfl, rfl⟩
  · intro t ht
    cases ht
  · intro t ht
    cases ht

theorem orderly_goOn {p : RouterPolicy Id E} {healthy : List Nat} {lastErr : Option E}
    (h : Going p { route with lastErr } healthy)
    (hattempts : route.attempts = route.history.length) :
    Orderly p (route.goOn healthy lastErr) := by
  by_cases hnil : healthy = []
  · have hall : ∀ i : Nat, route.scan.looks[i]? = some .healthy →
        i ∈ route.history.map Tried.chosen := by
      intro i hi
      by_contra hnot
      have hmem := (h.rest i).mpr ⟨hi, hnot⟩
      simp [hnil] at hmem
    have hledger : Ledger p (route.goOn healthy lastErr) :=
      ⟨h.looks, h.once, h.scanned, h.targets, h.increasing⟩
    unfold Route.goOn at hledger ⊢
    simp only [hnil, if_true] at hledger ⊢
    refine ⟨hledger, ?_⟩
    cases lastErr with
    | none => exact .unavailable h.advanced hall h.lastErr.symm
    | some e => exact .exhausted h.advanced hall h.lastErr.symm
  · unfold Route.goOn
    simp only [hnil, if_false]
    exact ⟨⟨⟨h.looks, h.once, h.scanned, h.targets, h.increasing⟩, h.rest, h.order, h.advanced,
      h.lastErr, h.later⟩, hnil, hattempts⟩

theorem orderly_enter (h : Orderly (net.routers route.router) route)
    (hstage : route.stage = .created) :
    Orderly (net.routers route.router) (route.enter net script c).1 := by
  simp only [Orderly, hstage] at h
  obtain ⟨_, hhistory, hlast, hattempts⟩ := h
  obtain ⟨hsorted, hlen⟩ := healthyMembers_sorted
    ((net.routers route.router).targets.map (c.member net)) ⟨c.time, script.ticks, script.draws⟩
    Scan.sorted_empty
  unfold Route.enter
  dsimp only
  generalize healthyMembers ((net.routers route.router).targets.map (c.member net)) .empty
    ⟨c.time, script.ticks, script.draws⟩ = seen at hsorted hlen ⊢
  have hledger : ∀ stage, Ledger (net.routers route.router)
      { route with scan := seen.1, stage } := by
    intro stage
    refine ⟨?_, ?_, ?_, ?_, ?_⟩
    · simp only [hlen, Scan.empty, List.length_nil, List.length_map]
      omega
    · simp [hhistory]
    · simp [hhistory]
    · simp [hhistory]
    · simp [hhistory]
  by_cases hnil : seen.1.healthy = []
  · simp only [hnil, if_true]
    refine ⟨hledger _, .unavailable ?_ ?_ ?_⟩
    · simp [hhistory]
    · intro i hi
      have hmem := (hsorted.mem i).mpr hi
      simp [hnil] at hmem
    · simp [hhistory, lastOperationError]
  · simp only [hnil, if_false]
    refine ⟨⟨hledger _, ?_, hsorted.order, ?_, ?_, ?_⟩, hnil, ?_⟩
    · intro i
      simp [hsorted.mem i, hhistory]
    · simp [hhistory]
    · simp [hhistory, hlast, lastOperationError]
    · simp [hhistory]
    · simp [hhistory, hattempts]

theorem orderly_choose {healthy : List Nat} {done : Route Id T E × Commons T E}
    (hfinite : ∀ c, ((net.routers route.router).select.score c).isFinite = true)
    (h : Orderly (net.routers route.router) route) (hstage : route.stage = .choosing healthy)
    (hdone : route.choose net healthy script c = some done) :
    Orderly (net.routers route.router) done.1 := by
  simp only [Orderly, hstage] at h
  obtain ⟨hgoing, hne, hattempts⟩ := h
  rcases Route.choose_cases hdone with
    ⟨e, k, hk, rfl⟩ | ⟨chosen, k, target, c', hk, htarget, _, rfl⟩
  · obtain ⟨i, hi⟩ := List.exists_mem_of_ne_nil healthy hne
    obtain ⟨chosen, hchosen⟩ := RouterPolicy.choose_of_finite c.loads
      ⟨c.time, script.ticks, script.draws⟩ hfinite hi (hgoing.lt hi)
    rw [hk] at hchosen
    cases hchosen
  · have hok := congrArg Prod.fst hk
    exact ⟨⟨⟨hgoing.looks, hgoing.once, hgoing.scanned, hgoing.targets, hgoing.increasing⟩,
        hgoing.rest, hgoing.order, hgoing.advanced, hgoing.lastErr, hgoing.later⟩,
      RouterPolicy.choose_mem hok, htarget, congrArg Nat.succ hattempts,
      fun hfirst => RouterPolicy.choose_firstHealthy hfirst hgoing.order
        (fun i hi => hgoing.lt hi) hok⟩

theorem Going.called {p : RouterPolicy Id E} {healthy : List Nat} {chosen : Nat}
    (h : Going p route healthy) (hmem : chosen ∈ healthy) :
    (route.history.map Tried.chosen ++ [chosen]).Nodup ∧
      (p.select = Pick.firstHealthy →
        (route.history.map Tried.chosen ++ [chosen]).Pairwise (· < ·)) := by
  constructor
  · apply List.Nodup.append h.once (List.nodup_singleton _)
    intro i hi hi'
    rw [List.mem_singleton.mp hi'] at hi
    exact ((h.rest chosen).mp hmem).2 hi
  · intro hfirst
    refine List.pairwise_append.mpr ⟨h.increasing hfirst, List.pairwise_singleton _ _, ?_⟩
    intro i hi j hj
    obtain ⟨t, ht, rfl⟩ := List.mem_map.mp hi
    rw [List.mem_singleton.mp hj]
    exact h.later hfirst t ht _ hmem

theorem Going.snoc {p : RouterPolicy Id E} {healthy : List Nat} {tried : Tried Id T E}
    (h : Going p route healthy) (hmem : tried.chosen ∈ healthy)
    (htarget : p.targets[tried.chosen]? = some tried.target) :
    Ledger p { route with history := route.history ++ [tried] } := by
  have hcalled := h.called hmem
  have hmap : (route.history ++ [tried]).map Tried.chosen =
      route.history.map Tried.chosen ++ [tried.chosen] := by simp
  rw [← hmap] at hcalled
  refine ⟨h.looks, hcalled.1, ?_, ?_, hcalled.2⟩
  · intro t ht
    rcases List.mem_append.mp ht with hold | hlast
    · exact h.scanned t hold
    · rw [List.mem_singleton.mp hlast]
      exact ((h.rest tried.chosen).mp hmem).1
  · intro t ht
    rcases List.mem_append.mp ht with hold | hlast
    · exact h.targets t hold
    · rw [List.mem_singleton.mp hlast]
      exact htarget

theorem Going.advance {p : RouterPolicy Id E} {healthy : List Nat} {tried : Tried Id T E}
    (h : Going p route healthy) (hmem : tried.chosen ∈ healthy)
    (htarget : p.targets[tried.chosen]? = some tried.target)
    (hfirst : p.select = Pick.firstHealthy → healthy.head? = some tried.chosen)
    (hadvances : tried.advances p = true) :
    Going p { route with
        history := route.history ++ [tried]
        lastErr := tried.operationError?.or route.lastErr }
      (healthy.filter fun i => i != tried.chosen) := by
  have hledger := h.snoc hmem htarget
  refine ⟨⟨hledger.looks, hledger.once, hledger.scanned, hledger.targets, hledger.increasing⟩,
    ?_, h.order.filter _, ?_, ?_, ?_⟩
  · intro i
    simp only [List.mem_filter, bne_iff_ne, List.map_append, List.map_cons, List.map_nil,
      List.mem_append, List.mem_singleton, h.rest i]
    constructor
    · rintro ⟨⟨hlook, hold⟩, hne⟩
      refine ⟨hlook, ?_⟩
      rintro (hin | heq)
      · exact hold hin
      · exact hne heq
    · rintro ⟨hlook, hnot⟩
      exact ⟨⟨hlook, fun hin => hnot (.inl hin)⟩, fun heq => hnot (.inr heq)⟩
  · intro t ht
    rcases List.mem_append.mp ht with hold | hlast
    · exact h.advanced t hold
    · rw [List.mem_singleton.mp hlast]
      exact hadvances
  · rw [lastOperationError_snoc, ← h.lastErr]
  · intro hfirst' t ht i hi
    obtain ⟨hmem', hne⟩ := List.mem_filter.mp hi
    rcases List.mem_append.mp ht with hold | hlast
    · exact h.later hfirst' t hold i hmem'
    · rw [List.mem_singleton.mp hlast]
      -- the head of an increasing list is below everything else in it
      obtain ⟨rest, hrest⟩ := List.head?_eq_some_iff.mp (hfirst hfirst')
      have horder := h.order
      rw [hrest] at hmem' horder
      rcases List.mem_cons.mp hmem' with heq | htail
      · simp [heq] at hne
      · exact (List.pairwise_cons.mp horder).1 i htail

theorem orderly_settle {healthy : List Nat} {tried : Tried Id T E} {attemptStart : Nat}
    (h : Going (net.routers route.router) route healthy) (hmem : tried.chosen ∈ healthy)
    (htarget : (net.routers route.router).targets[tried.chosen]? = some tried.target)
    (hattempts : route.attempts = route.history.length + 1)
    (hfirst : (net.routers route.router).select = Pick.firstHealthy →
      healthy.head? = some tried.chosen) :
    Orderly (net.routers route.router)
      (route.settle net healthy tried attemptStart script c).1 := by
  have hcases := RouterPolicy.afterAttempt_cases (net.routers route.router) tried route.attempts
    route.lastErr
  have hledger := h.snoc hmem htarget
  have hlen : (route.history ++ [tried]).length = route.history.length + 1 := by simp
  unfold Route.settle
  rcases hcases with ⟨hadv, heq⟩ | ⟨value, hvalue, heq⟩ | ⟨e, ctx, herr, hpermanent, heq⟩
  · simp only [heq]
    apply orderly_goOn (h.advance hmem htarget hfirst hadv)
    exact hattempts.trans hlen.symm
  · simp only [heq]
    refine ⟨⟨hledger.looks, hledger.once, hledger.scanned, hledger.targets,
      hledger.increasing⟩, ?_⟩
    rw [hattempts, ← hlen]
    exact .served rfl h.advanced hvalue
  · simp only [heq]
    exact ⟨⟨hledger.looks, hledger.once, hledger.scanned, hledger.targets, hledger.increasing⟩,
      .failedFast rfl h.advanced herr hpermanent⟩

theorem Route.settle_router (net : Network Id T E) (route : Route Id T E) (healthy : List Nat)
    (tried : Tried Id T E) (attemptStart : Nat) (script : RouteScript T E) (c : Commons T E) :
    (route.settle net healthy tried attemptStart script c).1.router = route.router := by
  unfold Route.settle
  dsimp only
  split
  · rfl
  · rfl

theorem Route.settle_scan (net : Network Id T E) (route : Route Id T E) (healthy : List Nat)
    (tried : Tried Id T E) (attemptStart : Nat) (script : RouteScript T E) (c : Commons T E) :
    (route.settle net healthy tried attemptStart script c).1.scan = route.scan := by
  unfold Route.settle
  dsimp only
  split
  · rfl
  · rfl

theorem Route.poll_router {done : Route Id T E × Commons T E}
    (hdone : route.poll net script c = some done) : done.1.router = route.router := by
  unfold Route.poll at hdone
  cases hstage : route.stage with
  | created =>
      simp only [hstage] at hdone
      cases hdone
      rfl
  | choosing healthy =>
      simp only [hstage] at hdone
      rcases Route.choose_cases hdone with ⟨e, k, _, rfl⟩ | ⟨chosen, k, target, c', _, _, _, rfl⟩
      · rfl
      · rfl
  | calling healthy chosen target call attemptStart =>
      simp only [hstage] at hdone
      obtain ⟨c', _, ⟨_, rfl⟩ | ⟨outcome, _, rfl⟩⟩ := Route.await_cases hdone
      · rfl
      · exact Route.settle_router _ _ _ _ _ _ _
  | returned r => simp [hstage] at hdone
  | dropped => simp [hstage] at hdone

theorem orderly_poll {done : Route Id T E × Commons T E}
    (hfinite : ∀ c, ((net.routers route.router).select.score c).isFinite = true)
    (h : Orderly (net.routers route.router) route)
    (hdone : route.poll net script c = some done) :
    Orderly (net.routers route.router) done.1 := by
  unfold Route.poll at hdone
  cases hstage : route.stage with
  | created =>
      simp only [hstage] at hdone
      cases hdone
      exact orderly_enter h hstage
  | choosing healthy =>
      simp only [hstage] at hdone
      exact orderly_choose hfinite h hstage hdone
  | calling healthy chosen target call attemptStart =>
      simp only [hstage] at hdone
      obtain ⟨c', _, ⟨_, rfl⟩ | ⟨outcome, _, rfl⟩⟩ := Route.await_cases hdone
      · exact h
      · simp only [Orderly, hstage] at h
        obtain ⟨hgoing, hmem, htarget, hattempts, hfirst⟩ := h
        exact orderly_settle hgoing hmem htarget hattempts hfirst
  | returned r => simp [hstage] at hdone
  | dropped => simp [hstage] at hdone

theorem Orderly.ledger {p : RouterPolicy Id E} (h : Orderly p route) : Ledger p route := by
  unfold Orderly at h
  cases hstage : route.stage with
  | created =>
      simp only [hstage] at h
      exact h.1
  | choosing healthy =>
      simp only [hstage] at h
      exact h.1.toLedger
  | calling healthy chosen target call attemptStart =>
      simp only [hstage] at h
      exact h.1.toLedger
  | returned r =>
      simp only [hstage] at h
      exact h.1
  | dropped =>
      simp only [hstage] at h
      exact h

theorem orderly_drop {p : RouterPolicy Id E} (h : Orderly p route) :
    Orderly p { route with stage := .dropped } := by
  have hledger := h.ledger
  exact ⟨hledger.looks, hledger.once, hledger.scanned, hledger.targets, hledger.increasing⟩

end Stretches

end ExecutionPolicy
