import Kar.Rpc.Assignment

/-!
# The callbacks of a generation

`Setup`, `ConsumeClaim` and `Cleanup` of `core/pkg/rpc/transport.go` decide what a process
does in a generation from its variable `recovery`, which only `Plan` writes.  So a process
that planned a recovery keeps the variable until it plans again, also in generations that
another member planned.

The first part is about who recovers.  The second part follows the mutex of one process
from `Dial` to the end of the consume loop.  The mutex is locked in `Dial`, unlocked by a
`Setup` that finds nothing to recover, locked by `Cleanup` and unlocked at the end.
-/

namespace Kar.Rpc

open Kar.Lib

/-! ## Setup and ConsumeClaim -/

/-- How `updateRoutes` ends.  The tables are reset and rebuilt member by member, so an
error leaves a part of them. -/
inductive RoutesEnd
  | done
  /-- The group is not described. -/
  | group
  /-- The metadata of a member is not read. -/
  | metadata (member : Nat)
  /-- The assignment of a member is not read. -/
  | assignment (member : Nat)
  deriving DecidableEq, Repr

inductive SetupEnd
  /-- In recovery, but not leader. -/
  | waiting
  /-- Recovery leader. -/
  | leading
  /-- Not in recovery: the mutex is released. -/
  | processing
  /-- An error is returned. -/
  | failed
  deriving DecidableEq, Repr

inductive ClaimEnd
  | recovers
  | processes
  deriving DecidableEq, Repr

namespace Process

variable (P : Process)

/-- `updateRoutes` with its errors. -/
def tryUpdateRoutes (members : List (String × Info)) (assignment : BalancePlan) :
    RoutesEnd → Process
  | .done => P.updateRoutes members assignment
  | .group => P
  | .metadata i => P.updateRoutes (members.take i) assignment
  | .assignment i =>
    { P.updateRoutes (members.take i) assignment with
      service2nodes := (P.updateRoutes (members.take (i + 1)) assignment).service2nodes }

/-- `Setup` with its errors.  The metadata of the topic is `refreshed` after the routes. -/
def setupHandler (members : List (String × Info)) (assignment : BalancePlan) (claims : List Nat)
    (routes : RoutesEnd) (refreshed : Bool) : SetupEnd × Process :=
  match claims with
  | [] => (.waiting, P)
  | p :: _ =>
    if P.recovery.isSome then (.leading, P)
    else
      let Q := { P with self := { P.self with partition := p } }.tryUpdateRoutes members assignment
        routes
      (if routes = .done ∧ refreshed = true then .processing else .failed, Q)

/-- `ConsumeClaim`, which is called for each of the claims. -/
def consumeClaim : ClaimEnd := if P.recovery.isSome then .recovers else .processes

theorem setupHandler_recovery (members : List (String × Info)) (assignment : BalancePlan)
    (claims : List Nat) (routes : RoutesEnd) (refreshed : Bool) :
    (P.setupHandler members assignment claims routes refreshed).2.recovery = P.recovery := by
  unfold setupHandler
  cases claims with
  | nil => rfl
  | cons =>
    simp only
    split
    · rfl
    · cases routes <;> rfl

end Process

/-! ## Who recovers -/

namespace Generation

/-- The plan of a recovery gives partition `0` to its leader, and a clean plan gives it to
nobody. -/
def Unclean (g : Generation) : Prop := 0 ∈ g.claims g.leader

instance (g : Generation) : Decidable g.Unclean := inferInstanceAs (Decidable (_ ∈ _))

end Generation

namespace Consumers

/-- The member runs `handler.recover`. -/
def Recovers (s : Consumers) (g : Generation) (n : String) : Prop :=
  ∃ _p ∈ g.claims n, (s.procs n).consumeClaim = .recovers

/-- The member releases the mutex in `Setup` and hands its messages to the processor. -/
def Processes (s : Consumers) (g : Generation) (n : String) : Prop :=
  ((s.procs n).setupHandler g.members g.plan (g.claims n) .done true).1 = .processing ∧
    ∀ _p ∈ g.claims n, (s.procs n).consumeClaim = .processes

/-- When a member plans, the variable `recovery` of each other member is nil: its own last
plan, if there was one, was clean. -/
def PlannersClean (s : Consumers) : GroupEvent → Prop
  | .plan leader members _ _ _ _ =>
    ∀ n ∈ members.map Prod.snd, n ≠ leader → (s.procs n).recovery.isNone = true
  | _ => True

instance (s : Consumers) : (e : GroupEvent) → Decidable (PlannersClean s e)
  | .plan leader members _ _ _ _ =>
    inferInstanceAs (Decidable (∀ n ∈ members.map Prod.snd, n ≠ leader → _))
  | .dial .. | .setup .. | .recovered => inferInstanceAs (Decidable True)

/-- What the variables of the members of a generation say. -/
structure RolesOk (s : Consumers) (g : Generation) : Prop where
  known : ∀ n ∈ g.nodes, n ∈ s.known
  leader : g.leader ∈ g.nodes
  others : ∀ n ∈ g.nodes, n ≠ g.leader → (s.procs n).recovery = none
  unclean : (s.procs g.leader).recovery ≠ none ↔ g.Unclean

structure RolesInv (s : Consumers) : Prop extends Named s where
  generation : ∀ g, s.generation = some g → s.RolesOk g

theorem rolesInv_init : RolesInv .init where
  names := fun _ => rfl
  published := fun _ => rfl
  generation := by simp [init]

/-- The leader of a generation is left with the variable of its own plan. -/
theorem rolesOk_afterPlan {s : Consumers} (h : s.Named) {leader : String}
    {members : List (String × String)} {order order' : List String} {size : Nat}
    {offsets : Nat → Option (Nat × Nat)} (hjoined : s.Joined leader members order order')
    {pl : BalancePlan} {Q : Process}
    (hplan : s.planned leader members order order' size offsets = (.ok pl, Q))
    (hothers : ∀ n ∈ members.map Prod.snd, n ≠ leader → (s.procs n).recovery.isNone = true) :
    (s.afterPlan leader members (.ok pl) Q).RolesOk
      { leader := leader, members := s.infos members, plan := pl } := by
  have hself : (s.afterPlan leader members (.ok pl) Q).procs leader = Q := Function.update_self _ _ _
  have hnodes : Generation.nodes { leader := leader, members := s.infos members, plan := pl } =
      members.map Prod.snd := infos_nodes' h
  obtain ⟨m₀, hm₀, hlead⟩ := List.mem_map.mp hjoined.leader
  have hclaims := claims_of_plan h hjoined pl hm₀
  rw [hlead] at hclaims
  have hunclean : Q.recovery ≠ none ↔
      Generation.Unclean { leader := leader, members := s.infos members, plan := pl } := by
    unfold Generation.Unclean
    rw [hclaims]
    constructor
    · intro hrecovery
      exact ((recoveryPlan_of_unclean h hjoined hplan rfl hrecovery m₀ hm₀).1 hlead 0).mpr (Or.inl rfl)
    · intro hzero hclean
      obtain ⟨hpl, hne⟩ := clean_apply h hjoined hplan rfl hclean hm₀
      rw [hpl, List.mem_singleton] at hzero
      exact hne hzero.symm
  refine ⟨?_, ?_, ?_, ?_⟩
  · rw [hnodes]
    exact hjoined.known
  · rw [hnodes]
    exact hjoined.leader
  · intro n hn hne
    rw [hnodes] at hn
    have hsame : (s.afterPlan leader members (.ok pl) Q).procs n = s.procs n :=
      Function.update_of_ne hne _ _
    rw [hsame]
    exact Option.isNone_iff_eq_none.mp (hothers n hn hne)
  · rw [hself]
    exact hunclean

theorem RolesInv.step (h : s.RolesInv)
    (hok : PlannersClean s e) (hstep : s.step e = some s') : s'.RolesInv := by
  cases e with
  | dial n services =>
    obtain ⟨hn, rfl⟩ := of_guard hstep
    refine ⟨h.toNamed.start n services, fun g hg => ?_⟩
    have hold := h.generation g hg
    have hsame : ∀ x ∈ g.nodes, (s.start n services).procs x = s.procs x := fun x hx =>
      start_of_ne fun heq => hn (heq ▸ hold.known x hx)
    refine ⟨fun x hx => List.mem_cons_of_mem n (hold.known x hx), hold.leader, ?_, ?_⟩
    · intro x hx hne
      rw [hsame x hx]
      exact hold.others x hx hne
    · rw [hsame _ hold.leader]
      exact hold.unclean
  | plan leader members order order' size offsets =>
    obtain ⟨hjoined, hstep⟩ := Option.ite_none_right_eq_some.mp hstep
    cases hplan : s.planned leader members order order' size offsets with
    | mk r =>
      rw [hplan] at hstep
      cases hstep
      refine ⟨h.toNamed.afterPlan hplan, fun g hg => ?_⟩
      cases r with
      | error => simp [afterPlan] at hg
      | ok =>
        simp only [afterPlan, Option.some.injEq] at hg
        subst hg
        exact rolesOk_afterPlan h.toNamed hjoined hplan hok
  | setup nodes =>
    simp only [Consumers.step] at hstep
    split at hstep
    · simp at hstep
    rename_i g hg
    cases hstep
    exact ⟨h.toNamed.setUp g nodes, by simp [Consumers.setUp]⟩
  | recovered =>
    simp only [Consumers.step] at hstep
    split at hstep
    · simp at hstep
    split at hstep
    · cases hstep
      refine ⟨h.toNamed.frame fun n => ?_, by simp⟩
      simp only [Function.update_apply]
      split
      · rename_i hn
        rw [hn]
        exact ⟨rfl, rfl⟩
      · exact ⟨rfl, rfl⟩
    · simp at hstep

/-- In every history in which a member plans only when the last own plan of each other
member was clean, the planner of a generation is the one that recovers, if the plan was
unclean, and every other member with a partition processes its messages. -/
theorem only_planner_recovers {s : Consumers} (h : Reachable Consumers.step PlannersClean .init s)
    {g : Generation} (hg : s.generation = some g) {n : String} (hn : n ∈ g.nodes) :
    (s.Recovers g n ↔ n = g.leader ∧ g.Unclean) ∧
      (g.claims n ≠ [] → ¬ (n = g.leader ∧ g.Unclean) → s.Processes g n) := by
  have hinv : s.RolesInv :=
    h.invariant rolesInv_init fun _ _ _ _ hinv hok hstep => hinv.step hok hstep
  have hok := hinv.generation g hg
  -- A member whose variable is not nil has planned the generation.
  have hclean : ¬ (n = g.leader ∧ g.Unclean) → (s.procs n).recovery = none := by
    intro hnot
    by_cases hleader : n = g.leader
    · by_contra hrecovery
      exact hnot ⟨hleader, hok.unclean.mp (hleader ▸ hrecovery)⟩
    · exact hok.others n hn hleader
  refine ⟨⟨?_, ?_⟩, ?_⟩
  · rintro ⟨p, -, hrecovers⟩
    by_contra hnot
    unfold Process.consumeClaim at hrecovers
    rw [hclean hnot] at hrecovers
    simp at hrecovers
  · rintro ⟨rfl, hunclean⟩
    refine ⟨0, hunclean, ?_⟩
    unfold Process.consumeClaim
    rw [if_pos (Option.isSome_iff_ne_none.mpr (hok.unclean.mpr hunclean))]
  · intro hclaims hnot
    refine ⟨?_, fun p _ => ?_⟩
    · unfold Process.setupHandler
      cases hc : g.claims n with
      | nil => exact absurd hc hclaims
      | cons => simp [hclean hnot]
    · unfold Process.consumeClaim
      rw [hclean hnot]
      rfl

/-- The node `n1` plans a recovery for itself and `n2`. -/
def recoveryRun : List GroupEvent :=
  [.dial "n1" [], .dial "n2" [],
    .plan "n1" [("m1", "n1"), ("m2", "n2")] ["n1", "n2"] ["n1", "n2"] 4 (oneMessage [3])]

theorem only_planner_recovers_once : ∃ s g, run step .init recoveryRun = some s ∧
    s.generation = some g ∧ s.Recovers g "n1" ∧ ¬ s.Recovers g "n2" := by
  have hok : runOk step PlannersClean .init recoveryRun = true := by decide +kernel
  obtain ⟨s, hrun, hs⟩ := reachable_of_run .init hok
  have hg := eq_of_run (fun s : Consumers => s.generation.map (fun g =>
    (g.nodes, g.leader, decide g.Unclean))) (a := some (["n1", "n2"], "n1", true)) hrun
    (by decide +kernel)
  obtain ⟨g, hgen, heq⟩ := Option.map_eq_some_iff.mp hg
  simp only [Prod.mk.injEq, decide_eq_true_eq] at heq
  obtain ⟨hnodes, hleader, hunclean⟩ := heq
  refine ⟨s, g, hrun, hgen, ?_, ?_⟩
  · exact (only_planner_recovers hs hgen (by simp [hnodes])).1.mpr ⟨hleader.symm, hunclean⟩
  · intro hrecovers
    have h := (only_planner_recovers hs hgen (by simp [hnodes])).1.mp hrecovers
    rw [hleader] at h
    exact absurd h.1 (by decide)

/-- After the recovery of `n1`, the node `n2` plans. -/
def formerRun : List GroupEvent :=
  recoveryRun ++ [.recovered,
    .plan "n2" [("m1", "n1"), ("m2", "n2")] ["n1", "n2"] ["n1", "n2"] 4 (oneMessage [])]

/-- The plan of `n2` is clean.  But `n1` still has the map of its own plan: it keeps the
mutex and runs the recovery code on its own partition. -/
theorem former_planner_recovers :
    (run step .init formerRun).map (fun s => s.generation.map (fun g =>
        (g.leader, decide g.Unclean, g.claims "n1"))) = some (some ("n2", false, [1])) ∧
    (run step .init formerRun).map (fun s => s.generation.map (fun g =>
        ((s.procs "n1").consumeClaim,
          ((s.procs "n1").setupHandler g.members g.plan (g.claims "n1") .done true).1))) =
      some (some (.recovers, .leading)) := by
  decide +kernel

end Consumers

/-! ## The mutex -/

/-- A use of the mutex that hangs the process or ends it. -/
inductive MutexFault
  /-- `mu.Lock` by the holder of the write lock. -/
  | locked
  /-- `mu.Unlock` without the write lock. -/
  | unlocked
  deriving DecidableEq, Repr

/-- A session between `Setup` and `Cleanup`. -/
structure GroupSession where
  claims : List Nat
  /-- The plan of the generation was clean. -/
  clean : Bool
  setup : SetupEnd
  deriving DecidableEq, Repr

inductive LoopState
  | running
  /-- The consume loop has stopped with its context. -/
  | stopped
  /-- `logger.Fatal` -/
  | exited
  deriving DecidableEq, Repr

/-- A process after `Dial`. -/
structure Sidecar where
  process : Process
  /-- The goroutine of the consume loop holds the write lock. -/
  held : Bool
  session : Option GroupSession
  /-- The process has planned since its last session. -/
  planned : Bool
  loop : LoopState
  fault : Option MutexFault

inductive SidecarEvent
  | plan (members : List (String × Info)) (order order' : List String) (partitions : List Nat)
      (offsets : Nat → Option (Nat × Nat))
  /-- The generation was planned by the process itself (`own`) or by another member. -/
  | setup (own clean : Bool) (members : List (String × Info)) (assignment : BalancePlan)
      (claims : List Nat) (routes : RoutesEnd) (refreshed : Bool)
  | cleanup
  | stop

namespace Sidecar

/-- The end of `Dial`: the write lock is held. -/
def dialed (node : String) (services : List String) : Sidecar where
  process := .dial node services
  held := true
  session := none
  planned := false
  loop := .running
  fault := none

variable (s : Sidecar)

def lock : Sidecar := if s.held then { s with fault := some .locked } else { s with held := true }

def unlock : Sidecar := if s.held then { s with held := false } else { s with fault := some .unlocked }

/-- The messages of the process are sent: `Send` gets the read lock and finds its context
alive. -/
def canSend : Bool := !s.held && decide (s.loop = .running)

/-- A member that did not plan has partitions if and only if the plan was clean.  The
planner always has some. -/
def Assigned (own clean : Bool) (claims : List Nat) : Prop :=
  (own = true → s.planned = true ∧ claims ≠ [] ∧ clean = s.process.recovery.isNone) ∧
    (own = false → (clean = true ↔ claims ≠ []))

instance (own clean : Bool) (claims : List Nat) : Decidable (s.Assigned own clean claims) :=
  inferInstanceAs (Decidable (
    (own = true → s.planned = true ∧ claims ≠ [] ∧ clean = s.process.recovery.isNone) ∧
      (own = false → (clean = true ↔ claims ≠ []))))

def afterPlan (r : Except PlanError BalancePlan) (P : Process) : Sidecar :=
  match r with
  | .ok _ => { s with process := P, planned := true }
  -- The consume loop ignores this error.
  | .error .tooFewPartitions => { s with process := P, planned := false }
  | .error .offset => { s with process := P, planned := false, loop := .exited }

def setUp (clean : Bool) (claims : List Nat) (r : SetupEnd × Process) : Sidecar :=
  let s := { s with
    process := r.2
    session := some { claims := claims, clean := clean, setup := r.1 }
    planned := false }
  if r.1 = .processing then s.unlock else s

def cleanUp (session : GroupSession) : Sidecar :=
  let s := { s with
    process := s.process.cleanup
    session := none
    -- The error of `Setup` ends the consume loop after `Cleanup`.
    loop := if session.setup = .failed then .exited else s.loop }
  if s.process.recovery.isNone ∧ session.claims ≠ [] then s.lock else s

def step (s : Sidecar) (e : SidecarEvent) : Option Sidecar :=
  if s.fault ≠ none ∨ s.loop ≠ .running then none
  else match s.session, e with
  | none, .plan members order order' partitions offsets =>
    let r := s.process.plan members order order' partitions offsets
    some (s.afterPlan r.1 r.2)
  | none, .setup own clean members assignment claims routes refreshed =>
    if s.Assigned own clean claims then
      some (s.setUp clean claims
        (s.process.setupHandler members assignment claims routes refreshed))
    else none
  | some session, .cleanup => some (s.cleanUp session)
  | none, .stop => some { s.unlock with loop := .stopped }
  | _, _ => none

/-- A `Setup` without recovery does not fail, and a process whose last own plan was not
clean is not given a partition by the clean plan of another member. -/
def Sound (s : Sidecar) : SidecarEvent → Prop
  | .setup own clean _ _ claims routes refreshed =>
    (s.process.recovery.isNone = true → claims ≠ [] → routes = .done ∧ refreshed = true) ∧
      (own = false → clean = true → s.process.recovery.isNone = true)
  | _ => True

instance (s : Sidecar) : (e : SidecarEvent) → Decidable (Sound s e)
  | .setup own clean _ _ claims routes refreshed => inferInstanceAs
    (Decidable ((_ → claims ≠ [] → routes = .done ∧ refreshed = true) ∧ (own = false → clean = true → _)))
  | .plan .. | .cleanup | .stop => inferInstanceAs (Decidable True)

/-- In a session of a clean generation the mutex is released, and otherwise it is held. -/
structure MutexInv (s : Sidecar) : Prop where
  fault : s.fault = none
  idle : s.session = none → s.loop ≠ .stopped → s.held = true
  session : ∀ σ, s.session = some σ → s.loop = .running ∧ s.held = !σ.clean ∧
    (σ.clean = true ↔ s.process.recovery.isNone = true ∧ σ.claims ≠ []) ∧ σ.setup ≠ .failed

theorem mutexInv_dialed :
    MutexInv (dialed node services) where
  fault := rfl
  idle := fun _ _ => rfl
  session := by simp [dialed]

theorem MutexInv.afterPlan {s : Sidecar} (h : s.MutexInv) (hnone : s.session = none)
    (hrunning : s.loop = .running) (r : Except PlanError BalancePlan) (P : Process) :
    (s.afterPlan r P).MutexInv := by
  have hheld := h.idle hnone (by simp [hrunning])
  unfold Sidecar.afterPlan
  split
  · exact ⟨h.fault, fun _ _ => hheld, by simp [hnone]⟩
  · exact ⟨h.fault, fun _ _ => hheld, by simp [hnone]⟩
  · exact ⟨h.fault, fun _ _ => hheld, by simp [hnone]⟩

/-- Which branch `Setup` takes. -/
theorem setupHandler_cases (P : Process) (members : List (String × Info)) (assignment : BalancePlan)
    (claims : List Nat)
    (hok : P.recovery.isNone = true → claims ≠ [] → routes = .done ∧ refreshed = true) :
    (P.setupHandler members assignment claims routes refreshed).1 ≠ .failed ∧ ((P.setupHandler
      members assignment claims routes refreshed).1 = .processing ↔ P.recovery.isNone = true ∧
      claims ≠ []) := by
  unfold Process.setupHandler
  cases claims with
  | nil => simp
  | cons p ps =>
    cases hrecovery : P.recovery with
    | some => simp
    | none =>
      obtain ⟨hroutes, hrefreshed⟩ := hok (hrecovery ▸ rfl) (List.cons_ne_nil p ps)
      simp [hroutes, hrefreshed]

theorem MutexInv.setUp {s : Sidecar} (h : s.MutexInv) (hnone : s.session = none)
    (hrunning : s.loop = .running) {clean : Bool} {claims : List Nat} {r : SetupEnd × Process}
    (hrecovery : r.2.recovery = s.process.recovery) (hfailed : r.1 ≠ .failed)
    (hprocessing : r.1 = .processing ↔ clean = true)
    (hclean : clean = true ↔ s.process.recovery.isNone = true ∧ claims ≠ []) :
    (s.setUp clean claims r).MutexInv := by
  have hheld := h.idle hnone (by simp [hrunning])
  unfold Sidecar.setUp unlock
  split
  · rename_i hr
    have hc := hprocessing.mp hr
    rw [if_pos hheld]
    refine ⟨h.fault, by simp, ?_⟩
    rintro σ ⟨rfl⟩
    exact ⟨hrunning, by simp [hc], by simpa only [hrecovery] using hclean, hfailed⟩
  · rename_i hr
    have hc : clean = false := by
      rw [← Bool.not_eq_true]
      exact fun hc => hr (hprocessing.mpr hc)
    refine ⟨h.fault, by simp, ?_⟩
    rintro σ ⟨rfl⟩
    exact ⟨hrunning, by simp [hc, hheld], by simpa only [hrecovery] using hclean, hfailed⟩

theorem MutexInv.cleanUp {s : Sidecar} (h : s.MutexInv) {σ : GroupSession}
    (hσ : s.session = some σ) : (s.cleanUp σ).MutexInv := by
  obtain ⟨hrunning, hheld, hclean, -⟩ := h.session σ hσ
  unfold Sidecar.cleanUp lock
  dsimp only
  split
  · rename_i hlock
    have hc := hclean.mpr hlock
    rw [hc] at hheld
    rw [if_neg (by simp [hheld])]
    exact ⟨h.fault, fun _ _ => rfl, by simp⟩
  · rename_i hlock
    have hc : σ.clean = false := by
      rw [← Bool.not_eq_true]
      exact fun hc => hlock (hclean.mp hc)
    rw [hc] at hheld
    exact ⟨h.fault, fun _ _ => hheld, by simp⟩

theorem MutexInv.step {s s' : Sidecar} (h : s.MutexInv) {e : SidecarEvent} (hok : Sound s e)
    (hstep : s.step e = some s') : s'.MutexInv := by
  unfold Sidecar.step at hstep
  split at hstep
  · simp at hstep
  rename_i hrunning
  have hrunning : s.loop = .running := by
    by_contra hloop
    exact hrunning (Or.inr hloop)
  cases hsession : s.session with
  | none =>
    rw [hsession] at hstep
    cases e with
    | plan =>
      cases hstep
      exact h.afterPlan hsession hrunning _ _
    | setup own clean members assignment claims routes refreshed =>
      obtain ⟨hassigned, rfl⟩ := of_guard hstep
      obtain ⟨hfailed, hprocessing⟩ := setupHandler_cases s.process members assignment claims hok.1
      -- The plan is clean exactly when `Setup` finds no recovery.
      have hclean : clean = true ↔ s.process.recovery.isNone = true ∧ claims ≠ [] := by
        cases own with
        | true =>
          obtain ⟨-, hclaims, hc⟩ := hassigned.1 rfl
          rw [hc]
          exact (and_iff_left hclaims).symm
        | false =>
          rw [hassigned.2 rfl]
          exact ⟨fun hclaims => ⟨hok.2 rfl ((hassigned.2 rfl).mpr hclaims), hclaims⟩, And.right⟩
      exact h.setUp hsession hrunning (s.process.setupHandler_recovery members assignment claims
        routes refreshed) hfailed (hprocessing.trans hclean.symm) hclean
    | cleanup => simp at hstep
    | stop =>
      cases hstep
      unfold unlock
      rw [if_pos (h.idle hsession (by simp [hrunning]))]
      exact ⟨h.fault, by simp, by simp [hsession]⟩
  | some =>
    rw [hsession] at hstep
    cases e with
    | cleanup =>
      cases hstep
      exact h.cleanUp hsession
    | plan => simp at hstep
    | setup => simp at hstep
    | stop => simp at hstep

/-- In every run of a process in which the conditions are met, the mutex is neither locked
twice nor unlocked twice, and messages are sent exactly in the sessions of clean
generations whose `Setup` succeeded. -/
theorem mutex_used_correctly (node : String) (services : List String) {s : Sidecar}
    (h : Reachable Sidecar.step Sound (dialed node services) s) :
    s.fault = none ∧
      (s.canSend = true ↔ ∃ σ, s.session = some σ ∧ σ.clean = true ∧ σ.setup ≠ .failed) := by
  have hinv : s.MutexInv := h.invariant (mutexInv_dialed)
    fun _ _ _ _ hinv hok hstep => hinv.step hok hstep
  refine ⟨hinv.fault, ?_⟩
  unfold canSend
  cases hsession : s.session with
  | none =>
    simp only [Bool.and_eq_true, decide_eq_true_eq, reduceCtorEq, false_and, exists_false, iff_false]
    rintro ⟨hfree, hrunning⟩
    rw [hinv.idle hsession (by simp [hrunning])] at hfree
    simp at hfree
  | some σ =>
    obtain ⟨hrunning, hheld, -, hfailed⟩ := hinv.session σ hsession
    simp [hrunning, hheld, hfailed]

/-- A recovery that the process leads, and the clean generation after it. -/
def twoGenerations : List SidecarEvent :=
  [.plan [("m1", { node := "n1", services := [], partition := 0 })] ["n1"] ["n1"] [0, 1]
      (Consumers.oneMessage [0]),
    .setup true false [] .empty [0] .done true, .cleanup,
    .plan [("m1", { node := "n1", services := [], partition := 0 })] ["n1"] ["n1"] [0, 1]
      (Consumers.oneMessage []),
    .setup true true [("m1", { node := "n1", services := [], partition := 0 })] (fun _ => [1]) [1]
      .done true]

theorem mutex_used_correctly_twice : ∃ s, run step (dialed "n1" []) twoGenerations = some s ∧
    s.fault = none ∧ s.canSend = true := by
  have hok : runOk step Sound (dialed "n1" []) twoGenerations = true := by decide +kernel
  obtain ⟨s, hrun, hs⟩ := reachable_of_run .init hok
  have hsession := eq_of_run (fun s : Sidecar => s.session)
    (a := some { claims := [1], clean := true, setup := .processing }) hrun (by decide +kernel)
  have h := mutex_used_correctly "n1" [] hs
  exact ⟨s, hrun, h.1, h.2.mpr ⟨_, hsession, rfl, by decide⟩⟩

/-- `Setup` fails in `updateRoutes` with the lock held, and `Cleanup` locks again.  And a
process whose recovery was followed by the clean plan of another member does not release
the mutex in its session. -/
theorem mutex_locked_twice :
    (run step (dialed "n1" []) [.setup false true [] .empty [1] .group true, .cleanup]).map
      (fun s => s.fault) = some (some .locked) ∧
    (run step (dialed "n1" []) (twoGenerations.take 3 ++
      [.setup false true [] .empty [1] .done true])).map
      (fun s => (s.session, s.canSend)) =
        some (some { claims := [1], clean := true, setup := .leading }, false) := by
  decide +kernel

end Sidecar

end Kar.Rpc
