import ExecutionPolicy.Foundation.Sharing
import ExecutionPolicy.Router.ParkHint
import ExecutionPolicy.Router.Rotation
import ExecutionPolicy.Router.Scores

/-! # The members of one router

What is counted for each of a router's members, and runs that find all of them healthy.
-/

namespace ExecutionPolicy

open Sharing

variable {Id T E : Type}

/-! ## Counts, member by member -/

namespace RouterPolicy

variable {p : RouterPolicy Id E} {f : MemberState → Nat} {loads : Nat → MemberState}

def counts (p : RouterPolicy Id E) (f : MemberState → Nat) (loads : Nat → MemberState) :
    Fin p.targets.length → Nat :=
  fun i => f (loads (p.targets.get i).state)

theorem exists_member {ti : Nat} {t : Target Id} (h : p.targets[ti]? = some t) :
    ∃ i : Fin p.targets.length, i = ti ∧ p.targets.get i = t := by
  obtain ⟨hlt, hget⟩ := List.getElem?_eq_some_iff.mp h
  exact ⟨⟨ti, hlt⟩, rfl, hget⟩

theorem getElem?_member (i : Fin p.targets.length) : p.targets[i.val]? = some (p.targets.get i) :=
  List.getElem?_eq_getElem i.isLt

theorem state_inj {i j : Fin p.targets.length}
    (h : (p.targets.get i).state = (p.targets.get j).state) : i = j := by
  have hlength : (p.targets.map Target.state).length = p.targets.length := List.length_map ..
  have hi : i.val < (p.targets.map Target.state).length := i.isLt.trans_eq hlength.symm
  have hj : j.val < (p.targets.map Target.state).length := j.isLt.trans_eq hlength.symm
  have hget : (p.targets.map Target.state)[i.val] = (p.targets.map Target.state)[j.val] := by
    rw [List.getElem_map, List.getElem_map]
    exact h
  exact Fin.ext ((List.getElem_inj p.states_nodup).mp hget)

theorem counts_congr {loads' : Nat → MemberState} (h : ∀ m, f (loads' m) = f (loads m)) :
    p.counts f loads' = p.counts f loads := by
  funext i
  exact h _

theorem counts_update_same {m : Nat} {load : MemberState} (h : f load = f (loads m)) :
    p.counts f (Function.update loads m load) = p.counts f loads := by
  apply counts_congr
  exact load_update_same h

theorem counts_update_succ {i : Fin p.targets.length} {load : MemberState}
    (h : f load = f (loads (p.targets.get i).state) + 1) :
    p.counts f (Function.update loads (p.targets.get i).state load) =
      serve (p.counts f loads) i := by
  funext j
  by_cases hj : j = i
  · rw [hj, serve_self]
    show f (Function.update loads _ load _) = f (loads _) + 1
    rw [Function.update_self, h]
  · have hstate : (p.targets.get j).state ≠ (p.targets.get i).state := fun h => hj (state_inj h)
    rw [serve_ne _ hj]
    show f (Function.update loads _ load _) = f (loads _)
    rw [Function.update_of_ne hstate]

end RouterPolicy

/-! ## All members healthy -/

/-- No breaker of the members of router `r₀` is open now. -/
def Fleet.AllHealthy (net : Network Id T E) (r₀ : Nat) (s : Fleet Id T E) : Prop :=
  ∀ t ∈ (net.routers r₀).targets, s.commons.circuitState net t s.commons.time ≠ some .open

instance (net : Network Id T E) (r₀ : Nat) (s : Fleet Id T E) :
    Decidable (s.AllHealthy net r₀) := by
  unfold Fleet.AllHealthy
  infer_instance

theorem healthyMembers_all (ms : List (Plan T E × BreakerRuntime)) (s : Scan) (k : Core)
    (hall : ∀ m ∈ ms, m.1.circuitState m.2 k.time ≠ some .open) :
    (healthyMembers ms s k).1.looks = s.looks ++ List.replicate ms.length .healthy := by
  induction ms generalizing s k with
  | nil => simp [healthyMembers]
  | cons m ms ih =>
      have hlook : (look m k).1 = .healthy := by
        apply (look_healthy_iff m k).mpr
        exact Plan.circuitState_ne_open (hall m List.mem_cons_self) k.time_le_tick
      have hlater : ∀ m' ∈ ms, m'.1.circuitState m'.2 (look m k).2.time ≠ some .open :=
        fun m' hm' => Plan.circuitState_ne_open (hall m' (List.mem_cons_of_mem m hm'))
          (look_time_le m k)
      simp only [healthyMembers]
      rw [ih _ _ hlater, Scan.see_looks, hlook, List.length_cons, List.replicate_succ,
        List.append_assoc, List.singleton_append]

theorem Route.enter_all {net : Network Id T E} (route : Route Id T E) (script : RouteScript T E)
    (c : Commons T E) (hall : ∀ t ∈ (net.routers route.router).targets,
      c.circuitState net t c.time ≠ some .open) :
    ∃ healthy, (route.enter net script c).1.stage = .choosing healthy ∧
      ∀ i : Fin (net.routers route.router).targets.length, i.val ∈ healthy := by
  have hmembers : ∀ m ∈ (net.routers route.router).targets.map (c.member net),
      m.1.circuitState m.2 c.time ≠ some .open := by
    intro m hm
    obtain ⟨t, ht, rfl⟩ := List.mem_map.mp hm
    exact hall t ht
  have hlooks := healthyMembers_all ((net.routers route.router).targets.map (c.member net)) .empty
    ⟨c.time, script.ticks, script.draws⟩ hmembers
  have hsorted := (healthyMembers_sorted ((net.routers route.router).targets.map (c.member net))
    ⟨c.time, script.ticks, script.draws⟩ Scan.sorted_empty).1
  have hmem : ∀ i : Fin (net.routers route.router).targets.length,
      i.val ∈ (healthyMembers ((net.routers route.router).targets.map (c.member net)) .empty
        ⟨c.time, script.ticks, script.draws⟩).1.healthy := by
    intro i
    rw [hsorted.mem, hlooks, List.length_map]
    exact List.getElem?_replicate_of_lt i.isLt
  have hsome : (healthyMembers ((net.routers route.router).targets.map (c.member net)) .empty
      ⟨c.time, script.ticks, script.draws⟩).1.healthy ≠ [] :=
    have hpos := List.length_pos_iff.mpr (net.routers route.router).targets_nonempty
    List.ne_nil_of_mem (hmem ⟨0, hpos⟩)
  refine ⟨_, ?_, hmem⟩
  unfold Route.enter
  exact if_neg hsome

end ExecutionPolicy
