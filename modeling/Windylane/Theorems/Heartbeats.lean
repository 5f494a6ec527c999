import Windylane.Theorems.Leases

/-! Heartbeats of claims that were superseded. A row knows its holder by the worker id alone, and the goroutines of one
    pool share it; where no worker id claims a task twice, the row tells the claims apart. -/

namespace Windylane

open Conc

/-- The process and the worker id of a call that claimed the task. -/
def claimBy (orgID id : UUID) : Event machine → Option (Nat × String)
  | ⟨pid, .task (.claimForProcessing org task workerID _), .ok _⟩ =>
    if org = orgID ∧ task = id then some (pid, workerID) else none
  | _ => none

theorem claimBy_eq_some {orgID id : UUID} {e : Event machine} {claim : Nat × String} (h : claimBy orgID id e = some claim) :
    ∃ now t, e = ⟨claim.1, .task (.claimForProcessing orgID id claim.2 now), .ok t⟩ := by
  unfold claimBy at h
  split at h
  · split at h
    · rename_i same
      obtain ⟨rfl, rfl⟩ := same
      cases h
      exact ⟨_, _, rfl⟩
    · cases h
  · cases h

/-- The claims on a task, the latest first. -/
def claimers (orgID id : UUID) (trace : List (Event machine)) : List (Nat × String) := trace.filterMap (claimBy orgID id)

/-- The claim of process `a` under a worker id was followed by another one. -/
def Superseded (orgID id : UUID) (a : Nat) (workerID : String) (trace : List (Event machine)) : Prop :=
  ∃ later earlier, later ≠ [] ∧ claimers orgID id trace = later ++ (a, workerID) :: earlier

/-- No worker id claims a task that it has claimed before. -/
def ClaimsAnew (s : State) (a : Action machine Request) : Prop :=
  ∀ pid env orgID id workerID now, a = .step pid env → s.Calling pid (.task (.claimForProcessing orgID id workerID now)) →
    (∃ r ∈ s.config.world.tasks, Tasks.claimable orgID id now env.locked r = true) →
    ∀ claim ∈ claimers orgID id s.config.trace, claim.2 ≠ workerID

/-- The row is not locked by a worker whose claim was superseded. -/
def LockedByLast (orgID id : UUID) (c : Config machine) : Prop :=
  ∀ r ∈ c.world.tasks, r.orgID = orgID → r.id = id → ∀ claim ∈ (claimers orgID id c.trace).tail, r.lockedBy ≠ some claim.2

/-- A statement keeps the lock or releases it, unless it is a claim. -/
theorem TaskChange.lockedBy {env : Env} {o : TaskOp} {r r' : Task} (h : TaskChange env o r r') :
    r'.lockedBy = r.lockedBy ∨ r'.lockedBy = none ∨
      ∃ workerID now, o = .claimForProcessing r.orgID r.id workerID now ∧ r'.lockedBy = some workerID ∧
        Tasks.claimable r.orgID r.id now env.locked r = true := by
  cases h with
  | @claim orgID id workerID now _ claimable =>
    have found := claimable
    simp only [Tasks.claimable, Bool.and_eq_true, decide_eq_true_eq] at found
    obtain ⟨⟨⟨⟨⟨rfl, rfl⟩, -⟩, -⟩, -⟩, -⟩ := found
    exact Or.inr (Or.inr ⟨workerID, now, rfl, rfl, claimable⟩)
  | heartbeat | softDelete | markDispatched => exact Or.inl rfl
  | complete | fail | deadLetter | reclaim | requeue | cancel => exact Or.inr (Or.inl rfl)

/-- After a claim the row is locked by its worker. -/
theorem claimed_locked {env : Env} {orgID id : UUID} {workerID : String} {now : Time} {w : World} {t r : Task}
    (ok : (Op.exec env (.task (.claimForProcessing orgID id workerID now)) w).1 = .ok t)
    (hr : r ∈ (Op.exec env (.task (.claimForProcessing orgID id workerID now)) w).2.tasks) (org : r.orgID = orgID)
    (same : r.id = id) : r.lockedBy = some workerID := by
  have done := Op.exec_ok ok
  rw [done] at ok hr
  simp only [Op.run, TaskOp.run, Tasks.claimForProcessing] at ok hr
  split at ok
  · cases ok
  · rename_i q found
    rw [found] at hr
    obtain ⟨r, -, rfl⟩ := Table.mem_update.1 hr
    have claimable := List.find?_some found
    simp only [Tasks.claimable, Bool.and_eq_true, decide_eq_true_eq] at claimable
    split
    · rfl
    · rename_i other
      rw [if_neg other] at org same
      refine absurd ?_ other
      simp only [Bool.and_eq_true, decide_eq_true_eq]
      exact ⟨org, same.trans claimable.1.1.1.1.2.symm⟩

section Runs
variable {h : Host} {w : World} {s : State} {orgID id : UUID}

theorem lockedByLast_step {c : Config machine} (ids : (c.world.tasks.map (·.id)).Nodup) (locked : LockedByLast orgID id c)
    {pid : Nat} {env : Env} {o : Op}
    (anew : ∀ workerID now, o = .task (.claimForProcessing orgID id workerID now) →
      (∃ r ∈ c.world.tasks, Tasks.claimable orgID id now env.locked r = true) →
      ∀ claim ∈ claimers orgID id c.trace, claim.2 ≠ workerID) : LockedByLast orgID id (c.after pid env o) := by
  intro r' hr' org same claim hclaim
  have fresh : ∀ workerID now, o = .task (.claimForProcessing orgID id workerID now) →
      (∃ r ∈ c.world.tasks, Tasks.claimable orgID id now env.locked r = true) → claim ∈ claimers orgID id c.trace →
      r'.lockedBy = some workerID → r'.lockedBy ≠ some claim.2 := by
    intro workerID now ho claimable earlier mine he
    exact anew workerID now ho claimable claim earlier (Option.some.inj (he.symm.trans mine))
  rw [Config.after_trace, claimers, List.filterMap_cons] at hclaim
  split at hclaim
  · rcases task_origin ids hr' with ⟨r, hr, rfl | ⟨o', rfl, change⟩⟩ | ⟨t, rfl, rfl⟩
    · exact locked r' hr org same claim hclaim
    · rcases change.lockedBy with kept | released | ⟨workerID, now, rfl, mine, claimable⟩
      · rw [kept]
        exact locked r hr (change.orgID.symm.trans org) (change.id.symm.trans same) claim hclaim
      · rw [released]
        exact fun he => by cases he
      · rw [← change.orgID, ← change.id, org, same] at claimable
        refine fresh workerID now ?_ ⟨r, hr, claimable⟩ (List.mem_of_mem_tail hclaim) mine
        rw [← change.orgID, ← change.id, org, same]
    · exact fun he => by cases he
  · -- the claim comes first, and everything before it is superseded
    rename_i won claims
    obtain ⟨now, t, he⟩ := claimBy_eq_some claims
    obtain ⟨-, rfl, ok⟩ := Event.mk.inj he
    have ok := eq_of_heq ok
    obtain ⟨r, hr, claimable, -⟩ := claimed_row ok
    exact fresh _ now rfl ⟨r, hr, claimable⟩ hclaim (claimed_locked ok hr' org same)

/-- In every run in which no worker id claims a task twice, the row is locked by the latest claimer only. -/
theorem lockedByLast_run (ids : (w.tasks.map (·.id)).Nodup) (reach : Reachable h ClaimsAnew w s) (orgID id : UUID) :
    (s.config.world.tasks.map (·.id)).Nodup ∧ LockedByLast orgID id s.config := by
  refine reach.invariant (fun s : State => (s.config.world.tasks.map (·.id)).Nodup ∧ LockedByLast orgID id s.config)
    ⟨ids, fun _ _ _ _ _ hclaim => by cases hclaim⟩ ?_
  rintro s t a - ⟨ids, locked⟩ allowed taken
  rcases System.next_cases taken with ⟨_, -, rfl⟩ | ⟨pid, env, request, o, k, rfl, hp, rfl⟩ | ⟨_, _, -, -, rfl⟩
  · exact ⟨ids, locked⟩
  · refine ⟨task_ids_kept ids env o, lockedByLast_step ids locked ?_⟩
    rintro workerID now rfl claimable
    exact allowed pid env orgID id workerID now rfl ⟨request, k, hp⟩ claimable
  · exact ⟨ids, locked⟩

/-- A heartbeat for a claim that was superseded is refused, and changes nothing. -/
theorem superseded_heartbeat (ids : (w.tasks.map (·.id)).Nodup) (reach : Reachable h ClaimsAnew w s) {a b : Nat}
    {workerID : String} {timeout : Duration} {now : Time} {env : Env}
    (superseded : Superseded orgID id a workerID s.config.trace)
    (beats : s.Calling b (.task (.heartbeat orgID id workerID timeout now))) (calm : env.fault = none) :
    ∃ t, s.next (body h) (.step b env) = some t ∧ t.config.world = s.config.world ∧
      t.config.trace = ⟨b, .task (.heartbeat orgID id workerID timeout now), .error .taskAlreadyLocked⟩ :: s.config.trace := by
  obtain ⟨ids, locked⟩ := lockedByLast_run ids reach orgID id
  obtain ⟨later, earlier, more, claims⟩ := superseded
  have missed : s.config.world.tasks.any (fun r => Tasks.processing orgID id r && r.lockedBy = some workerID) = false := by
    refine List.any_eq_false.2 fun r hr => ?_
    simp only [Tasks.processing, Bool.and_eq_true, decide_eq_true_eq, not_and]
    rintro ⟨⟨org, same⟩, -⟩
    refine locked r hr org same (a, workerID) ?_
    rw [claims, List.tail_append_of_ne_nil more]
    simp
  have refused : Op.exec env (.task (.heartbeat orgID id workerID timeout now)) s.config.world =
      (.error .taskAlreadyLocked, s.config.world) := by
    simp [Op.exec, calm, Op.run, TaskOp.run, Tasks.heartbeat, Tasks.exec, missed]
  obtain ⟨request, k, hp⟩ := beats
  refine ⟨_, System.next_step hp env, ?_, ?_⟩
  · show (Op.exec env _ s.config.world).2 = _
    rw [refused]
  · rw [Config.after_trace, show (machine.exec env _ s.config.world).1 = _ from congrArg Prod.fst refused]

/-- A task is claimed by a goroutine of pool "a", whose heartbeat is on its way when the lease expires and is reclaimed;
    another goroutine of the pool claims the task again. -/
def sharedRun : List (Action machine Request) :=
  [.spawn (.createTask sampleTask)] ++ steps 0 0 (idsFrom 100 14) ++
    [.spawn (.dispatch ⟨1⟩ "jobs" "a")] ++ steps 1 0 (idsFrom 200 3) ++
    [.spawn (.heartbeat ⟨1⟩ ⟨102⟩ "a" (seconds 30))] ++ steps 2 (seconds 20) (idsFrom 250 1) ++
    [.spawn (.reclaim ⟨1⟩ "jobs")] ++ steps 3 (seconds 31) (idsFrom 300 5) ++
    [.spawn (.dispatch ⟨1⟩ "jobs" "a")] ++ steps 4 (seconds 31) (idsFrom 400 3)

/-- The heartbeat of the first claim is accepted, and shortens the lease of the second. -/
theorem sharedRun_beats : ∃ s t r r', (System.init gateWorld).run (body sampleHost) sharedRun = some s ∧
    Superseded ⟨1⟩ ⟨102⟩ 1 "a" s.config.trace ∧ s.Calling 2 (.task (.heartbeat ⟨1⟩ ⟨102⟩ "a" (seconds 30) (seconds 20))) ∧
    s.next (body sampleHost) (.step 2 (sampleEnv (seconds 32) ⟨600⟩)) = some t ∧
    t.config.trace = ⟨2, .task (.heartbeat ⟨1⟩ ⟨102⟩ "a" (seconds 30) (seconds 20)), .ok ()⟩ :: s.config.trace ∧
    s.config.world.tasks = [r] ∧ t.config.world.tasks = [r'] ∧ r.visibleAt = seconds 61 ∧ r'.visibleAt = seconds 50 :=
  ⟨_, _, _, _, rfl, ⟨[(4, "a")], [], by decide, rfl⟩, ⟨_, _, rfl⟩, rfl, rfl, rfl, rfl, rfl, rfl⟩

/-- The action claims nothing under a worker id that has claimed it before. -/
def claimsAnew (s : State) : Action machine Request → Bool
  | .step pid _ =>
    match s.procs[pid]? with
    | some ⟨_, .call (.task (.claimForProcessing orgID id workerID _)) _, true⟩ =>
      (claimers orgID id s.config.trace).all fun claim => claim.2 ≠ workerID
    | _ => true
  | _ => true

theorem claimsAnew_sound {s : State} {a : Action machine Request} (anew : claimsAnew s a = true) : ClaimsAnew s a := by
  rintro pid env orgID id workerID now rfl ⟨request, k, hp⟩ - claim hclaim
  simp only [claimsAnew, hp, List.all_eq_true, decide_eq_true_eq] at anew
  exact anew claim hclaim

/-- The same with another pool. -/
def twoPoolsRun : List (Action machine Request) :=
  [.spawn (.createTask sampleTask)] ++ steps 0 0 (idsFrom 100 14) ++
    [.spawn (.dispatch ⟨1⟩ "jobs" "a")] ++ steps 1 0 (idsFrom 200 3) ++
    [.spawn (.heartbeat ⟨1⟩ ⟨102⟩ "a" (seconds 30))] ++ steps 2 (seconds 20) (idsFrom 250 1) ++
    [.spawn (.reclaim ⟨1⟩ "jobs")] ++ steps 3 (seconds 31) (idsFrom 300 5) ++
    [.spawn (.dispatch ⟨1⟩ "jobs" "b")] ++ steps 4 (seconds 31) (idsFrom 400 3)

theorem twoPoolsRun_refused : ∃ s t, System.runChecked (body sampleHost) claimsAnew (System.init gateWorld) twoPoolsRun = some s ∧
    s.next (body sampleHost) (.step 2 (sampleEnv (seconds 32) ⟨600⟩)) = some t ∧ t.config.world = s.config.world ∧
    t.config.trace = ⟨2, .task (.heartbeat ⟨1⟩ ⟨102⟩ "a" (seconds 30) (seconds 20)), .error .taskAlreadyLocked⟩ ::
      s.config.trace := by
  obtain ⟨s, run, superseded, beats⟩ : ∃ s, System.runChecked (body sampleHost) claimsAnew (System.init gateWorld) twoPoolsRun =
      some s ∧ Superseded ⟨1⟩ ⟨102⟩ 1 "a" s.config.trace ∧
      s.Calling 2 (.task (.heartbeat ⟨1⟩ ⟨102⟩ "a" (seconds 30) (seconds 20))) :=
    ⟨_, rfl, ⟨[(4, "b")], [], by decide, rfl⟩, ⟨_, _, rfl⟩⟩
  have reach : Reachable sampleHost ClaimsAnew gateWorld s :=
    System.reach_of_checked (fun _ _ _ anew => claimsAnew_sound anew) run
  have ids : (gateWorld.tasks.map (·.id)).Nodup := List.nodup_nil
  obtain ⟨t, taken, same, refused⟩ := superseded_heartbeat ids reach superseded beats
    (show (sampleEnv (seconds 32) ⟨600⟩).fault = none from rfl)
  exact ⟨s, t, run, taken, same, refused⟩

end Runs

end Windylane
