import Kar.Rpc.TailCalls

/-!
# The nodes of an application

Several nodes with their schedulers, the store they share and the requests on their way.  A
request to an actor goes to the node that `routeToSession` finds, and so does the continuation
of a tail call: nothing sends it back to the node that parked its turn, except that the actor is
placed there.

The tables of the nodes do not change and no node fails.  Requests to services and nodes are not
followed.
-/

namespace Kar.Rpc

open Kar.Lib List

structure Mesh where
  nodes : String → Scheduler
  /-- `session2NodeCache` of the nodes. -/
  caches : String → Cache
  store : Store
  /-- The requests on their way, with the node they are routed to. -/
  mail : List (String × Request)

inductive MeshEvent
  /-- The node `sender` sends a request that is no continuation. -/
  | request (sender : String) (m : Request) (c : Chance)
  /-- An entry of the placement cache of a node is dropped. -/
  | evict (n key : String)
  /-- The scheduler of a node makes a step.  If it ends with a tail call, `c` is for its send. -/
  | node (n : String) (e : SchedulerEvent) (c : Chance)
  deriving DecidableEq, Repr

namespace Mesh

def init : Mesh where
  nodes := fun _ => .init
  caches := fun _ => .empty
  store := .empty
  mail := []

variable (T : String → Tables) (cfg : SchedulerConfig) (w : Mesh)

/-- The route of a request that the node `n` sends to an actor. -/
def route (n : String) (m : Request) (c : Chance) :
    Option (Except SendError (String × Nat) × Cache × Store) :=
  m.target.session?.map fun target =>
    routeToSession (T n) c target.name target.id (w.caches n) w.store

/-- The node to which the request is routed. -/
def home (n : String) (m : Request) (c : Chance) : Option String :=
  match w.route T n m c with
  | some (.ok (node, _), _, _) => some node
  | _ => none

/-- The node `n` sends a request, and the send succeeds. -/
def post (n : String) (m : Request) (c : Chance) : Option Mesh :=
  match w.route T n m c with
  | none => some w
  | some (.error _, _, _) => none
  | some (.ok (node, _), cache, store) => some { w with
      caches := Function.update w.caches n cache
      store := store
      mail := w.mail ++ [(node, m)] }

/-- The goroutine `t` of the node `n` has executed the command `delete`: `delSession`. -/
def afterCommand (n : String) (t : Nat) (delete : Bool) : Mesh :=
  let key := ((w.nodes n).instances ((w.nodes n).threads t).inst).key
  if delete then { w with store := w.store.delete (place key.name key.id) } else w

/-- The scheduler of the node `n` goes to `s'`. -/
def update (n : String) (s' : Scheduler) : Mesh := { w with nodes := Function.update w.nodes n s' }

def step : MeshEvent → Option Mesh
  | .request sender m c => w.post T sender m c
  | .evict n key =>
    some { w with caches := Function.update w.caches n ((w.caches n).delete key) }
  | .node n e c =>
    match Scheduler.step cfg (w.nodes n) e with
    | none => none
    | some s' =>
      match e with
      | .accept m _ =>
        if (n, m) ∈ w.mail then some { w.update n s' with mail := w.mail.erase (n, m) } else none
      | .finish t _ delete _ _ =>
        match (w.nodes n).tailCalled s' with
        | some v => ((w.afterCommand n t delete).update n s').post T n v c
        | none => some ((w.afterCommand n t delete).update n s')
      | _ => some (w.update n s')

/-- Requests that applications send present no lock, tail calls are those of `handlerActor`, and
the flow has one chain at a time on the actor `k`. -/
def OneChain (k : SessionKey) (flow : String) (w : Mesh) : MeshEvent → Prop
  | .request _ m _ => m.lock? = none
  | .evict .. => True
  | .node n e _ => (w.nodes n).OneChain k flow e ∧ (e.accepts = false → (w.nodes n).Delivers e)

/-- A continuation that presents a lock is routed to the node that parked the turn. -/
def Homed (w : Mesh) : MeshEvent → Prop
  | .node n (.finish t r delete activated now) c =>
    ∀ s' ∈ Scheduler.step cfg (w.nodes n) (.finish t r delete activated now),
      ∀ v ∈ (w.nodes n).tailCalled s', v.lock? ≠ none →
        (w.afterCommand n t delete).home T n v c = some n
  | _ => True

instance (k : SessionKey) (flow : String) (w : Mesh) (e : MeshEvent) :
    Decidable (w.OneChain k flow e) :=
  match e with
  | .request _ m _ => inferInstanceAs (Decidable (m.lock? = none))
  | .evict .. => inferInstanceAs (Decidable True)
  | .node n e _ => inferInstanceAs (Decidable ((w.nodes n).OneChain k flow e ∧
      (e.accepts = false → (w.nodes n).Delivers e)))

instance (w : Mesh) (e : MeshEvent) : Decidable (w.Homed T cfg e) :=
  match e with
  | .node n e c =>
    match e with
    | .accept .. | .schedule | .receive _ | .timeout _ | .awaitChild _ | .childDone _
    | .acquire _ | .enter .. | .pass _ | .collect .. | .claim .. | .probe _ | .beginCallback _
    | .callbackDone .. | .settle _ | .remove _ | .close _ => inferInstanceAs (Decidable True)
    | .finish t r delete activated now => inferInstanceAs (Decidable
        (∀ s' ∈ Scheduler.step cfg (w.nodes n) (.finish t r delete activated now),
          ∀ v ∈ (w.nodes n).tailCalled s', v.lock? ≠ none →
            (w.afterCommand n t delete).home T n v c = some n))
  | .request .. | .evict .. => inferInstanceAs (Decidable True)

/-! ## Locks on their way -/

section Steps

variable {T cfg w}

/-- What a send does: the request is on its way to its home, unless it is not for an actor. -/
theorem post_cases (h : w.post T n m c = some w') : w'.nodes = w.nodes ∧
    (m.target.session? = none ∧ w'.mail = w.mail ∨
      ∃ node, w.home T n m c = some node ∧ w'.mail = w.mail ++ [(node, m)]) := by
  unfold post at h
  split at h
  · rename_i hroute
    cases h
    exact ⟨rfl, .inl ⟨Option.map_eq_none_iff.mp hroute, rfl⟩⟩
  · simp at h
  · rename_i node partition cache store hroute
    cases h
    exact ⟨rfl, .inr ⟨node, by simp only [home, hroute], rfl⟩⟩

theorem afterCommand_cases (w : Mesh) (n : String) (t : Nat) (delete : Bool) :
    (w.afterCommand n t delete).nodes = w.nodes ∧ (w.afterCommand n t delete).mail = w.mail := by
  unfold afterCommand
  split <;> exact ⟨rfl, rfl⟩

/-- A request that presents a lock is on its way to a node as often as the node has sent it, and
the node has run by itself. -/
structure Posted (cfg : SchedulerConfig) (k : SessionKey) (flow : String) (w : Mesh) : Prop where
  locked : ∀ n m, m.lock? ≠ none → w.mail.count (n, m) = (w.nodes n).inFlight.count m
  runs : ∀ n, Reachable (Scheduler.step cfg) (fun s e => s.Delivers e ∧ s.OneChain k flow e) .init
    (w.nodes n)

theorem count_append_other {mail : List (String × Request)} {x y : String × Request}
    (hne : x ≠ y) : (mail ++ [x]).count y = mail.count y := by
  rw [count_append, count_singleton, if_neg (by simpa using hne), Nat.add_zero]

namespace Posted

variable {e : SchedulerEvent}

theorem init : Posted cfg k flow Mesh.init where
  locked := by simp [Mesh.init, Scheduler.init]
  runs := fun _ => .init

theorem wf (h : Posted cfg k flow w) (n : String) : Scheduler.Wf (w.nodes n) :=
  (Scheduler.Ordered.of_reachable ((h.runs n).mono fun _ _ _ => trivial)).toWf

/-- A request that presents no lock is sent. -/
theorem unlocked (h : Posted cfg k flow w) {x : String × Request} (hx : x.2.lock? = none) :
    Posted cfg k flow { w with mail := w.mail ++ [x] } where
  locked := by
    intro n m hm
    have hne : x ≠ (n, m) := fun heq => hm (by rw [← hx, heq])
    exact (count_append_other hne).trans (h.locked n m hm)
  runs := h.runs

theorem congr (h : Posted cfg k flow w) (hnodes : w'.nodes = w.nodes) (hmail : w'.mail = w.mail) :
    Posted cfg k flow w' where
  locked := by
    rw [hnodes, hmail]
    exact h.locked
  runs := by
    rw [hnodes]
    exact h.runs

/-- A node runs on, and the mail of the other nodes is the same. -/
theorem node (h : Posted cfg k flow w) (mail : List (String × Request))
    (hdelivers : (w.nodes n).Delivers e) (hone : (w.nodes n).OneChain k flow e)
    (hs : Scheduler.step cfg (w.nodes n) e = some s')
    (hother : ∀ n' m, n' ≠ n → m.lock? ≠ none → mail.count (n', m) = w.mail.count (n', m))
    (hself : ∀ m, m.lock? ≠ none → mail.count (n, m) = s'.inFlight.count m) :
    Posted cfg k flow { w.update n s' with mail := mail } where
  locked := by
    intro n' m hm
    show mail.count (n', m) = (Function.update w.nodes n s' n').inFlight.count m
    by_cases hn : n' = n
    · rw [hn, Function.update_self]
      exact hself m hm
    · rw [Function.update_of_ne hn, hother n' m hn hm]
      exact h.locked n' m hm
  runs := by
    intro n'
    show Reachable _ _ _ (Function.update w.nodes n s' n')
    by_cases hn : n' = n
    · rw [hn, Function.update_self]
      exact (h.runs n).step ⟨hdelivers, hone⟩ hs
    · rw [Function.update_of_ne hn]
      exact h.runs n'

/-- A node accepts a request that has come. -/
theorem accept (h : Posted cfg k flow w) (hmem : (n, m) ∈ w.mail)
    (hone : (w.nodes n).OneChain k flow (.accept m now))
    (hs : Scheduler.step cfg (w.nodes n) (.accept m now) = some s') :
    Posted cfg k flow { w.update n s' with mail := w.mail.erase (n, m) } := by
  have hin : s'.inFlight = (w.nodes n).inFlight.erase m := Scheduler.inFlight_of_step (h.wf n) hs
  have hdelivers : (w.nodes n).Delivers (.accept m now) := by
    intro hlock
    have hpos := count_pos_iff.mpr hmem
    rw [h.locked n m hlock] at hpos
    exact count_pos_iff.mp hpos
  refine h.node _ hdelivers hone hs (fun n' m' hn hm => ?_) fun m' hm => ?_
  · rw [count_erase, if_neg (by simp [Ne.symm hn]), Nat.sub_zero]
  · rw [hin, count_erase, count_erase, h.locked n m' hm]
    simp

/-- A handler of a node returns. -/
theorem finish (h : Posted cfg k flow w) {delete activated : Bool}
    {now : Int} (hone : w.OneChain k flow (.node n (.finish t r delete activated now) c))
    (hhomed : w.Homed T cfg (.node n (.finish t r delete activated now) c))
    (hs : Scheduler.step cfg (w.nodes n) (.finish t r delete activated now) = some s')
    (hw : w.step T cfg (.node n (.finish t r delete activated now) c) = some w') :
    Posted cfg k flow w' := by
  have hdelivers := hone.2 rfl
  obtain ⟨hnodes, hmail⟩ := afterCommand_cases w n t delete
  have hnodes' : ((w.afterCommand n t delete).update n s').nodes = (w.update n s').nodes := by
    simp [update, hnodes]
  simp only [step, hs] at hw
  rcases Scheduler.inFlight_of_step (h.wf n) hs with hin | ⟨v, hin⟩
  · have hnone : (w.nodes n).tailCalled s' = none := by
      rw [Scheduler.tailCalled, hin, drop_length, head?_nil]
    simp only [hnone] at hw
    cases hw
    have hposted := h.node w.mail hdelivers hone.1 hs (fun _ _ _ _ => rfl)
      fun m hm => by rw [hin, h.locked n m hm]
    exact hposted.congr hnodes' hmail
  have hsome : (w.nodes n).tailCalled s' = some v := by
    rw [Scheduler.tailCalled, hin, drop_left, head?_cons]
  simp only [hsome] at hw
  obtain ⟨hnodes'', hsent⟩ := post_cases hw
  have hmail' : ((w.afterCommand n t delete).update n s').mail = w.mail := hmail
  by_cases hlock : v.lock? = none
  · -- The continuation does not count, wherever it goes.
    have hposted := h.node w.mail hdelivers hone.1 hs (fun _ _ _ _ => rfl)
      fun m hm => by
        have hne : v ≠ m := fun heq => hm (heq ▸ hlock)
        rw [hin, count_append, count_singleton, if_neg (by simpa using hne),
          h.locked n m hm, Nat.add_zero]
    rcases hsent with ⟨-, hsame⟩ | ⟨node, -, hsent⟩
    · exact hposted.congr (hnodes''.trans hnodes') (hsame.trans hmail')
    · refine (hposted.unlocked (x := (node, v)) hlock).congr (hnodes''.trans hnodes') ?_
      rw [hsent, hmail']
  · have hhome := hhomed s' hs v hsome hlock
    have hmem : w'.mail = w.mail ++ [(n, v)] := by
      rcases hsent with ⟨hnone, -⟩ | ⟨node, hnode, hsent⟩
      · exact absurd (by simp [Request.lock?, hnone]) hlock
      · rw [hsent, hmail', Option.some.inj (hnode.symm.trans hhome)]
    refine (h.node (w.mail ++ [(n, v)]) hdelivers hone.1 hs (fun n' m hn hm => ?_)
      fun m hm => ?_).congr (hnodes''.trans hnodes') hmem
    · exact count_append_other (by simp [Ne.symm hn])
    · rw [hin, count_append, count_append, h.locked n m hm]
      simp [count_singleton]

theorem step {e : MeshEvent} (h : Posted cfg k flow w) (hone : w.OneChain k flow e)
    (hhomed : w.Homed T cfg e) (hw : w.step T cfg e = some w') : Posted cfg k flow w' := by
  cases e with
  | request _ m =>
    obtain ⟨hnodes, ⟨-, hmail⟩ | ⟨node, -, hmail⟩⟩ := post_cases hw
    · exact h.congr hnodes hmail
    · exact (h.unlocked (x := (node, m)) hone).congr hnodes hmail
  | evict =>
    cases hw
    exact h.congr rfl rfl
  | node n e =>
    cases hs : Scheduler.step cfg (w.nodes n) e with
    | none => simp [Mesh.step, hs] at hw
    | some s' =>
      have hquiet : e.accepts = false → s'.inFlight = (w.nodes n).inFlight →
          w' = w.update n s' → Posted cfg k flow w' := by
        intro haccepts hin hw'
        rw [hw']
        exact h.node w.mail (hone.2 haccepts) hone.1 hs (fun _ _ _ _ => rfl)
          fun m hm => by rw [hin, h.locked n m hm]
      have hin := Scheduler.inFlight_of_step (h.wf n) hs
      cases e with
      | accept =>
        simp only [Mesh.step, hs] at hw
        obtain ⟨_, rfl⟩ := of_guard hw
        exact h.accept ‹_› hone.1 hs
      | finish => exact h.finish hone hhomed hs hw
      | _ =>
        simp only [Mesh.step, hs] at hw
        exact hquiet rfl hin (Option.some.inj hw).symm

theorem of_reachable (h : Reachable (Mesh.step T cfg)
    (fun w e => w.OneChain k flow e ∧ w.Homed T cfg e) .init w) : Posted cfg k flow w :=
  h.invariant .init fun _ _ _ _ hposted hok hw => hposted.step hok.1 hok.2 hw

end Posted

end Steps

/-- **A tail call to the same actor keeps the lock.**  In every run without recovery in which a
continuation that presents a lock is routed to the node that parked the turn, the chains of tail
calls of a flow on an actor keep the lock, on every node. -/
theorem tail_calls_keep_the_lock {T : String → Tables} {cfg : SchedulerConfig} {k : SessionKey}
    {flow : String} {w : Mesh} (hordinary : ordinaryFlow flow = true)
    (hne : flow ≠ nonexclusiveFlow)
    (h : Reachable (Mesh.step T cfg) (fun w e => w.OneChain k flow e ∧ w.Homed T cfg e) .init w)
    (n : String) : Scheduler.KeepsLock cfg k flow (w.nodes n) := by
  have hruns := (Posted.of_reachable h).runs n
  have hall := hruns.mono fun _ _ _ => trivial
  exact (Scheduler.Chain.of_reachable hordinary hne hruns).keepsLock (.of_reachable hall)
    (.of_reachable hall)

open Scheduler (account actorConfig callGet returns tailGet)

/-- The tables of two nodes that both host accounts. -/
def accountTables (self : String) : Tables where
  self := self
  service2nodes := fun service => if service = "Account" then ["n1", "n2"] else []
  node2partition := fun n => if n = "n1" then 1 else if n = "n2" then 2 else 0
  placementCache := true

/-- The random choice `rand`, and Redis answers at once. -/
def picks (rand : Nat) : Chance where
  cancelled := false
  rand := rand
  rounds := [true]
  acked := true

/-- The steps of the node `n1`. -/
def onN1 (es : List SchedulerEvent) : List MeshEvent := es.map fun e => .node "n1" e (picks 1)

/-- `n2` sends a request to the actor, which is placed on `n1`.  It makes a tail call while another
request waits, and the continuation executes with the turn. -/
theorem lock_kept_while_another_waits :
    ∃ w, Reachable (Mesh.step accountTables actorConfig)
        (fun w e => w.OneChain account "f1" e ∧ w.Homed accountTables actorConfig e) .init w ∧
      ((w.nodes "n1").threads 1).place = .waiting ∧ ((w.nodes "n1").threads 2).place = .running ∧
      Scheduler.KeepsLock actorConfig account "f1" (w.nodes "n1") := by
  have hok : runOk (Mesh.step accountTables actorConfig)
      (fun w e => w.OneChain account "f1" e ∧ w.Homed accountTables actorConfig e) .init
      ([.request "n2" (callGet "r1" "f1" "" 0) (picks 0),
        .request "n2" (callGet "r2" "f2" "" 0) (picks 0)] ++
      onN1 [.accept (callGet "r1" "f1" "" 0) 0, .schedule, .receive 0, .acquire 0,
        .enter 0 false 0, .accept (callGet "r2" "f2" "" 0) 0, .schedule,
        .finish 0 (tailGet "f1" "l1") false true 0, .accept (callGet "r1" "f1" "l1" 1) 0,
        .schedule, .acquire 2, .enter 2 false 0]) = true := by
    decide +kernel
  obtain ⟨w, hrun, hw⟩ := reachable_of_run .init hok
  have hplaces := eq_of_run (fun w : Mesh => (((w.nodes "n1").threads 1).place,
    ((w.nodes "n1").threads 2).place)) (a := (Place.waiting, Place.running)) hrun (by decide +kernel)
  obtain ⟨hwaiting, hrunning⟩ := Prod.mk.inj hplaces
  exact ⟨w, hw, hwaiting, hrunning,
    tail_calls_keep_the_lock (by decide +kernel) (by decide +kernel) hw "n1"⟩

/-- A deletion of the actor executes before the request, which is already in the queue of `n1`.
Then the actor has no placement, the tail call of the request places it on `n2`, and the
continuation queues there, while the turn of `n1` stays parked. -/
theorem deletion_loses_the_lock :
    ∃ w, Reachable (Mesh.step accountTables actorConfig) (OneChain account "f1") .init w ∧
      (w.nodes "n1").deferredLocks.get? "l1" = some ⟨0, 2⟩ ∧
      ¬Scheduler.KeepsLock actorConfig account "f1" (w.nodes "n2") := by
  have hok : runOk (Mesh.step accountTables actorConfig) (OneChain account "f1") .init
      ([.request "n2" (callGet "r0" "deactivate" "" 0) (picks 0),
        .request "n2" (callGet "r1" "f1" "" 0) (picks 0)] ++
      onN1 [.accept (callGet "r0" "deactivate" "" 0) 0, .schedule,
        .accept (callGet "r1" "f1" "" 0) 0, .schedule, .receive 0, .acquire 0, .enter 0 false 0,
        .finish 0 returns true false 0, .pass 0, .receive 1, .acquire 1, .enter 1 false 0,
        .finish 1 (tailGet "f1" "l1") false true 0] ++
      [.node "n2" (.accept (callGet "r1" "f1" "l1" 1) 0) (picks 0)]) = true := by
    decide +kernel
  obtain ⟨w, hrun, hw⟩ := reachable_of_run .init hok
  have hparked := eq_of_run (fun w : Mesh => (w.nodes "n1").deferredLocks.get? "l1")
    (a := some ⟨0, 2⟩) hrun (by decide +kernel)
  have hloading := eq_of_run (fun w : Mesh => (w.nodes "n2").loading)
    (a := some ⟨⟨"Account", "7", "f1", "l1"⟩, callGet "r1" "f1" "l1" 1, none⟩) hrun
    (by decide +kernel)
  have htable := eq_of_run (fun w : Mesh => (w.nodes "n2").sessionTable account) (a := none) hrun
    (by decide +kernel)
  refine ⟨w, hw, hparked, fun hkeeps => ?_⟩
  obtain ⟨i, c, hentry, -⟩ := hkeeps.resumes _ _ hloading (by decide +kernel)
    (by rw [Scheduler.schedule, hloading])
  simp [htable] at hentry

end Mesh

end Kar.Rpc
