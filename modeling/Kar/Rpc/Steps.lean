import Kar.Rpc.Invariant

/-!
# What a step does

`Effect s l s'` spells out the outcomes of a step: which message is written where,
and what happens to the store.  It is derived from `step` once, in `step_effect`,
and every later invariant is proved by cases on it.
-/

namespace Kar.Rpc

open Kar.Lib Function

/-- What a send on node `n` may do to the placements and to the caches. -/
structure Routes (s : State) (n : String) (store : Store) (caches : String → Cache) : Prop where
  step : StoreStep (s.group.tables s.placementCache n s.group.table) s.store store
  fresh : s.group.running = true → ∀ n',
    CacheStore (s.group.tables s.placementCache n' s.group.table) (caches n') store

/-- How the completion record of a task with request `v` is written: the message, the
partition and the store afterwards. -/
inductive Answers (s : State) (v : Request) : Message → Nat → Store → Prop
  | done (m : TellRequest) (d : Done) (hv : v = .tell m) (hid : d.requestID = m.requestID) :
      Answers s v (.done d) 0 s.store
  | caller (m : CallRequest) (x : Response) (hv : v = .call m) (hid : x.requestID = m.requestID)
      (hcaller : s.group.table m.caller ≠ 0) :
      Answers s v (.response x) (s.group.table m.caller) s.store
  | redirected (m : CallRequest) (x : Response) (node : String) (hv : v = .call m)
      (hid : x.requestID = m.requestID) (hcaller : s.group.table m.caller = 0) (hnode : node ≠ "")
      (halt : s.store.get? (alt m.requestID) = some node) :
      Answers s v (.response x) (s.group.table node) (s.store.delete (alt m.requestID))

/-- The response to `v` has nowhere to go: its caller has no partition, and no parent
waits for it. -/
def State.Unanswerable (s : State) : Request → Prop
  | .call m => s.group.table m.caller = 0 ∧ (s.store.get? (alt m.requestID)).getD "" = ""
  | .tell _ => False

instance (s : State) : (v : Request) → Decidable (s.Unanswerable v)
  | .call _ => inferInstanceAs (Decidable (_ ∧ _))
  | .tell _ => inferInstanceAs (Decidable False)

/-- A tell to a node ends without completion record. -/
def Request.silent : Request → Bool
  | .call _ => false
  | .tell m => m.target.service?.isNone

/-- The task that an event ends with a result or with an error. -/
def Label.concludes : Label → Option Nat
  | .finish tid _ _ _ => some tid
  | .reject tid _ _ => some tid
  | _ => none

/-- The task whose handler returns. -/
def Label.finishes : Label → Option Nat
  | .finish tid _ _ _ => some tid
  | _ => none

/-- The task that makes a tail call. -/
def Label.continues : Label → Option Nat
  | .tail tid _ _ _ _ _ => some tid
  | _ => none

inductive Effect (s : State) : Label → State → Prop
  /-- A send fails. -/
  | route (l : Label) (n : String) (store : Store) (caches : String → Cache)
      (hroute : Routes s n store caches)
      (halt : ∀ id, store.get? (alt id) = s.store.get? (alt id)) :
      Effect s l { s with store := store, caches := caches }
  | request (n : String) (v : Request) (c : Chance) (p : Nat) (store : Store)
      (caches : String → Cache) (hrunning : s.group.running = true)
      (halive : s.group.alive n = true) (hnew : s.NewRequest n v)
      (hroute : Routes s n store caches)
      (halt : ∀ id, store.get? (alt id) = s.store.get? (alt id))
      (hdest : Destination (s.group.tables s.placementCache n s.group.table) store v.target p) :
      Effect s (.send n v c) (State.recordSend
        { s with
          log := s.log.append p (.request (v.wire n))
          store := store
          caches := caches } n v)
  | consume (n : String) (m : Message) (ms : List Message) (hrunning : s.group.running = true)
      (halive : s.group.alive n = true) (hpending : s.pending n = m :: ms) :
      Effect s (.consume n) ((s.advance n).acceptMessage n m)
  | start (t : Task) (ht : t ∈ s.tasks) (hphase : t.phase = .ready) :
      Effect s (.start t.tid) { s with
        tasks := s.tasks.map (fun t' =>
          if t'.tid = t.tid then { t' with phase := .running } else t') }
  /-- A task ends and its completion record is written. -/
  | record (l : Label) (t : Task) (m : Message) (p : Nat) (store : Store)
      (caches : String → Cache) (done : String → Bool) (ht : t ∈ s.tasks)
      (hl : l.concludes = some t.tid) (hrunning : s.group.running = true)
      (hroute : Routes s t.node store caches) (hm : Answers s t.msg m p store)
      (hdone : ∀ k, done k = true → s.history.done k = true ∨ k = t.msg.requestID)
      (hkept : ∀ k, s.history.done k = true → done k = true) :
      Effect s l { s with
        log := s.log.append p (m.wire t.node)
        store := store
        caches := caches
        tasks := s.tasks.filter (fun t' => decide (t'.tid ≠ t.tid))
        history := { s.history with
          recorded := Function.update s.history.recorded t.msg.requestID true
          done := done } }
  /-- A task ends without completion record. -/
  | drop (l : Label) (t : Task) (store : Store) (caches : String → Cache) (done : String → Bool)
      (ht : t ∈ s.tasks) (hl : l.concludes = some t.tid) (hrunning : s.group.running = true)
      (hroute : Routes s t.node store caches)
      (halt : ∀ id, store.get? (alt id) = s.store.get? (alt id))
      (hwhy : t.msg.silent = true ∨ s.Unanswerable t.msg)
      (hdone : ∀ k, done k = true → s.history.done k = true ∨
        (k = t.msg.requestID ∧ l.finishes = some t.tid ∧ s.Unanswerable t.msg))
      (hkept : ∀ k, s.history.done k = true → done k = true) :
      Effect s l { s with
        store := store
        caches := caches
        tasks := s.tasks.filter (fun t' => decide (t'.tid ≠ t.tid))
        history := { s.history with done := done } }
  | tail (t : Task) (target : Target) (method : String) (value : List UInt8) (deferred : Bool)
      (c : Chance) (v : Request) (p : Nat) (store : Store) (caches : String → Cache)
      (ht : t ∈ s.tasks) (hrunning : s.group.running = true) (hphase : t.phase = .running)
      (htarget : State.tailTarget t.msg target = true)
      (hv : v = State.continuation t.msg target method value deferred)
      (hroute : Routes s t.node store caches)
      (halt : ∀ id, store.get? (alt id) = s.store.get? (alt id))
      (hdest : Destination (s.group.tables s.placementCache t.node s.group.table) store target p) :
      Effect s (.tail t.tid target method value deferred c) { s with
        log := s.log.append p (.request (v.wire t.node))
        store := store
        caches := caches
        tasks := s.tasks.filter (fun t' => decide (t'.tid ≠ t.tid)) }
  | kill (l : Label) (n : String) (store : Store) (caches : String → Cache)
      (halive : s.group.alive n = true) (hroute : Routes s n store caches)
      (halt : ∀ id, store.get? (alt id) = s.store.get? (alt id)) :
      Effect s l (State.kill { s with store := store, caches := caches } n)
  | expel (n : String) (hstopped : s.group.running = false) (hdead : s.group.alive n = false)
      (hmember : n ∈ s.group.members) : Effect s (.expel n) { s with group := s.group.expel n }
  | join (n : String) (services : List String) (hstopped : s.group.running = false)
      (hnew : n ∉ s.group.known) (hne : n ≠ "") :
      Effect s (.join n services) { s with group := s.group.join n services }
  | rebalance (hrunning : s.group.running = true) :
      Effect s .rebalance { s with group := { s.group with running := false } }
  | newLeader (hstopped : s.group.running = false) :
      Effect s .newLeader { s with group := { s.group with table := s.group.attached } }
  | grow : Effect s .grow { s with group := { s.group with size := s.group.size + 1 } }
  | recover (leader : String) (assign : String → Nat) (cs : Nat → Chance) (w : World)
      (hstopped : s.group.running = false) (hleader : s.group.alive leader = true)
      (hplan : s.group.PlanOk s.log assign)
      (hrecover : Kar.Rpc.recover
        (s.group.tables s.placementCache leader (s.group.planTable assign))
        (s.group.live s.group.table) (.ofPlan s.group.size s.log) cs (.start s.log s.store) =
          (.ok (), w)) :
      Effect s (.recover leader assign cs) (s.recovered assign w)
  | setup (assign : String → Nat) (hstopped : s.group.running = false)
      (hplan : s.group.PlanOk s.log assign) (hclean : s.group.Clean s.log) :
      Effect s (.setup assign) { s with
        group := { s.group with
          running := true
          table := s.group.planTable assign
          attached := s.group.planTable assign }
        caches := fun _ => .empty }

/-! ## Sending -/

variable {s s' : State} {t : Task}

theorem Routes.refl (h : Inv s) (n : String) : Routes s n s.store s.caches :=
  ⟨.refl _ _, h.places.caches⟩

/-- The tables of two nodes differ in the name of the node only. -/
theorem StoreStep.node {g : Group} {placementCache : Bool} {table : String → Nat}
    {store store' : Store} (h : StoreStep (g.tables placementCache n table) store store')
    (n' : String) : StoreStep (g.tables placementCache n' table) store store' :=
  ⟨h.stable, h.placed⟩

section Send

variable (h : Inv s) (hrunning : s.group.running = true)

include h hrunning

/-- The cache of the sender moves on with the store, and the other caches see only
what `StoreStep` allows. -/
theorem routes_of_send {store : Store} {cache : Cache}
    (hstep : StoreStep (s.group.tables s.placementCache n s.group.table) s.store store)
    (hcache : CacheStore (s.group.tables s.placementCache n s.group.table) cache store) :
    Routes s n store (update s.caches n cache) := by
  refine ⟨hstep, fun _ n' => ?_⟩
  rw [update_apply]
  split
  · exact hcache
  · exact CacheStore.step (h.places.caches hrunning n') (hstep.node n')

/-- A request that is sent. -/
theorem sendFrom_request (hvalid : v.target.validName = true)
    (hsend : s.sendFrom n c (.request v) = (r, s')) :
    ∃ store caches, Routes s n store caches ∧
      (∀ id, store.get? (alt id) = s.store.get? (alt id)) ∧
      ((r ≠ .ok () ∧ s' = { s with store := store, caches := caches } ∧
          (r = .error .unavailable → v.target.service? = none)) ∨
        (r = .ok () ∧ ∃ p,
          Destination (s.group.tables s.placementCache n s.group.table) store v.target p ∧
          s' = { s with
            log := s.log.append p (.request (v.wire n))
            store := store
            caches := caches })) := by
  unfold State.sendFrom at hsend
  generalize hw : send (s.group.tables s.placementCache n s.group.table) c (.request v)
    { log := s.log, store := s.store, cache := s.caches n, sent := [] } = rw at hsend
  obtain ⟨r', w⟩ := rw
  simp only [Prod.mk.injEq] at hsend
  obtain ⟨rfl, rfl⟩ := hsend
  obtain ⟨hstep, hcache, halt, herror, hok⟩ :=
    send_request h.group.table_noname hvalid (h.places.caches hrunning n) hw
  refine ⟨w.store, update s.caches n w.cache, routes_of_send h hrunning hstep hcache, halt, ?_⟩
  by_cases hr : r' = .ok ()
  · obtain ⟨p, hlog, hdest⟩ := hok hr
    exact .inr ⟨hr, p, hdest, by rw [hlog]; rfl⟩
  · refine .inl ⟨hr, by rw [herror hr], fun hun => ?_⟩
    exact send_available (hun ▸ hw)

/-- The completion record of a task is sent. -/
theorem sendFrom_final
    (hm : State.final t.msg value errMsg = some m) (hsend : s.sendFrom t.node c m = (r, s')) :
    ∃ store caches, Routes s t.node store caches ∧
      ((r = .ok () ∧ ∃ p, Answers s t.msg m p store ∧ s' = { s with
          log := s.log.append p (m.wire t.node)
          store := store
          caches := caches }) ∨
        (r ≠ .ok () ∧ store = s.store ∧ s' = { s with store := store, caches := caches } ∧
          (r = .error .unavailable → s.Unanswerable t.msg))) := by
  unfold State.sendFrom at hsend
  generalize hw : send (s.group.tables s.placementCache t.node s.group.table) c m
    { log := s.log, store := s.store, cache := s.caches t.node, sent := [] } = rw at hsend
  obtain ⟨r', w⟩ := rw
  cases hsend
  have hroutes : ∀ store, StoreStep (s.group.tables s.placementCache t.node s.group.table) s.store
      store → Routes s t.node store (update s.caches t.node (s.caches t.node)) := fun store hstep =>
      routes_of_send h hrunning hstep (CacheStore.step (h.places.caches hrunning t.node) hstep)
  cases hv : t.msg with
  | call v =>
    rw [hv] at hm
    simp only [State.final, Option.some.injEq] at hm
    subst hm
    obtain ⟨hcache, ⟨hr, hcaller, hstore, hlog⟩ | ⟨hr, hcaller, node, hnode, halt, hstore, hlog⟩ |
      ⟨hr, hstore, hlog, hun⟩⟩ := send_response hw
    · refine ⟨s.store, _, hroutes s.store (.refl _ _), .inl ⟨hr, _, .caller v _ rfl rfl hcaller, ?_⟩⟩
      rw [hcache, hstore, hlog]
      rfl
    · refine ⟨s.store.delete (alt v.requestID), _, hroutes _ (.of_eq fun name id => ?_),
        .inl ⟨hr, _, .redirected v _ node rfl rfl hcaller hnode halt, ?_⟩⟩
      · rw [GoMap.get?_delete, if_neg (alt_ne_place _ name id).symm]
      · rw [hcache, hstore, hlog]
        rfl
    · refine ⟨s.store, _, hroutes s.store (.refl _ _), .inr ⟨hr, rfl, ?_, hun⟩⟩
      rw [hcache, hstore, hlog]
  | tell v =>
    rw [hv] at hm
    obtain ⟨d, hd, rfl⟩ : ∃ d : Done, d.requestID = v.requestID ∧ m = .done d := by
      simp only [State.final] at hm
      split at hm
      · simp at hm
      exact ⟨_, rfl, (Option.some.inj hm).symm⟩
    obtain ⟨hcache, hstore, hun, hok, herror⟩ := send_done hw
    refine ⟨s.store, _, hroutes s.store (.refl _ _), ?_⟩
    by_cases hr : r' = .ok ()
    · refine .inl ⟨hr, 0, .done v d rfl hd, ?_⟩
      rw [hcache, hstore, hok hr]
      rfl
    · refine .inr ⟨hr, rfl, ?_, fun h' => (hun h').elim⟩
      rw [hcache, hstore, herror hr]

end Send

/-! ## The inversion of a step -/

theorem State.find_mem (h : s.find tid = some t) :
    t ∈ s.tasks ∧ t.tid = tid := by
  exact ⟨List.mem_of_find?_eq_some h, by simpa using List.find?_some h⟩

theorem State.silent_of_final (h : State.final v value errMsg = none) : v.silent = true := by
  cases v with
  | call => simp [State.final] at h
  | tell m =>
    cases htarget : m.target with
    | node => simp [Request.silent, htarget, Target.service?]
    | service => simp [State.final, htarget] at h
    | session => simp [State.final, htarget] at h

theorem State.done_conclude (s : State) (t : Task) (value : List UInt8) (errMsg : String)
    (c : Chance) : (s.conclude t value errMsg c).history.done = s.history.done := by
  unfold State.conclude
  split
  · rfl
  split
  · rfl
  · rename_i hsend
    exact (congrArg (fun r => r.2.history.done) hsend).symm
  · rename_i hsend
    exact (congrArg (fun r => r.2.history.done) hsend).symm

/-- The end of a task.  The history `done` is changed by `finish` only. -/
theorem conclude_effect (h : Inv s) (ht : t ∈ s.tasks) (hl : l.concludes = some t.tid)
    (hrunning : s.group.running = true) (hdone : done = s.history.done ∨ (l.finishes = some t.tid ∧
      (s.conclude t value errMsg c).group.alive t.node = true ∧ State.final t.msg value errMsg ≠
      none ∧ done = update s.history.done t.msg.requestID true)) :
    Effect s l { s.conclude t value errMsg c with
      history := { (s.conclude t value errMsg c).history with done := done } } := by
  have halive := h.tasks.alive t ht
  have hold : ∀ k, done k = true → s.history.done k = true ∨
      (k = t.msg.requestID ∧ l.finishes = some t.tid ∧ State.final t.msg value errMsg ≠ none) := by
    intro k hk
    rcases hdone with rfl | ⟨hfin, -, hne, rfl⟩
    · exact .inl hk
    rw [update_apply] at hk
    split at hk
    · rename_i heq
      exact .inr ⟨heq, hfin, hne⟩
    · exact .inl hk
  have hkept : ∀ k, s.history.done k = true → done k = true := by
    intro k hk
    rcases hdone with rfl | ⟨-, -, -, rfl⟩
    · exact hk
    · rw [update_apply]
      split
      · rfl
      · exact hk
  unfold State.conclude at hdone ⊢
  cases hm : State.final t.msg value errMsg with
  | none =>
    refine .drop l t s.store s.caches done ht hl hrunning (.refl h t.node) (fun _ => rfl)
      (.inl (State.silent_of_final hm)) (fun k hk => ?_) hkept
    rcases hold k hk with hk | ⟨-, -, hne⟩
    · exact .inl hk
    · exact absurd hm hne
  | some m =>
    simp only [hm] at hdone ⊢
    cases hsend : s.sendFrom t.node c m with
    | mk r =>
      rw [hsend] at hdone
      obtain ⟨store, caches, hroute, ⟨hr, p, hans, rfl⟩ | ⟨hr, hstore, rfl, hun⟩⟩ :=
        sendFrom_final h hrunning hm hsend
      · subst hr
        refine .record l t m p store caches done ht hl hrunning hroute hans (fun k hk => ?_) hkept
        rcases hold k hk with hk | ⟨hk, -⟩
        · exact .inl hk
        · exact .inr hk
      have halt : ∀ id, store.get? (alt id) = s.store.get? (alt id) := fun _ => by rw [hstore]
      -- An error other than `unavailable` ends the process, and nothing is done.
      have hkill : (done = s.history.done ∨ (l.finishes = some t.tid ∧
          (State.kill { s with store := store, caches := caches } t.node).group.alive t.node = true ∧
          some m ≠ none ∧ done = update s.history.done t.msg.requestID true)) → Effect s l
          { State.kill { s with store := store, caches := caches } t.node with
            history := { s.history with done := done } } := by
        rintro (rfl | ⟨-, hfalse, -⟩)
        · exact .kill l t.node store caches halive hroute halt
        · simp [State.kill, Group.kill] at hfalse
      cases r with
      | ok => exact absurd rfl hr
      | error e =>
        cases e with
        | unavailable =>
          refine .drop l t store caches done ht hl hrunning hroute halt (.inr (hun rfl))
            (fun k hk => ?_) hkept
          rcases hold k hk with hk | ⟨hk, hfin, -⟩
          · exact .inl hk
          · exact .inr ⟨hk, hfin, hun rfl⟩
        | _ => exact hkill hdone

/-- A tail call. -/
theorem continueWith_effect (h : Inv s) (ht : t ∈ s.tasks) (hrunning : s.group.running = true)
    (hphase : t.phase = .running) (htarget : State.tailTarget t.msg target = true) :
    Effect s (.tail t.tid target method value deferred c)
      (s.continueWith t (State.continuation t.msg target method value deferred) c) := by
  have hcont : (State.continuation t.msg target method value deferred).target = target := by
    cases t.msg <;> rfl
  obtain ⟨hvalid, hservice⟩ : target.validName = true ∧ target.service? ≠ none := by
    unfold State.tailTarget at htarget
    rw [Bool.and_eq_true] at htarget
    refine ⟨htarget.1, ?_⟩
    cases target with
    | node => cases hmsg : t.msg.target <;> simp [hmsg] at htarget
    | service => simp [Target.service?]
    | session => simp [Target.service?]
  unfold State.continueWith
  cases hsend : s.sendFrom t.node c
      (.request (State.continuation t.msg target method value deferred)) with
  | mk r s' =>
    obtain ⟨store, caches, hroute, halt, ⟨hr, rfl, hun⟩ | ⟨hr, p, hdest, rfl⟩⟩ :=
      sendFrom_request h hrunning (by rw [hcont]; exact hvalid) hsend
    · have hkill := Effect.kill (.tail t.tid target method value deferred c) t.node store caches
        (h.tasks.alive t ht) hroute halt
      cases r with
      | ok => exact absurd rfl hr
      | error e =>
        cases e with
        | unavailable =>
          -- The target is a service or an actor, so it is never unavailable.
          exact absurd (hcont ▸ hun rfl) hservice
        | _ => exact hkill
    · subst hr
      exact .tail t target method value deferred c _ p store caches ht hrunning hphase htarget rfl
        hroute halt (hcont ▸ hdest)

/-- The inversion of a recovery. -/
theorem step_recover (hstep : step s (.recover leader assign cs) = some s') :
    s.group.running = false ∧ s.group.alive leader = true ∧ s.group.PlanOk s.log assign ∧ ∃ w,
      Kar.Rpc.recover (s.group.tables s.placementCache leader (s.group.planTable assign))
      (s.group.live s.group.table) (.ofPlan s.group.size s.log) cs (.start s.log s.store) = (.ok (),
      w) ∧ s' = s.recovered assign w := by
  obtain ⟨hguard, hstep⟩ := Option.ite_none_right_eq_some.mp hstep
  split at hstep
  · rename_i w hrecover
    exact ⟨hguard.1, hguard.2.1, hguard.2.2, w, hrecover, (Option.some.inj hstep).symm⟩
  · simp at hstep

theorem step_effect (h : Inv s) (hstep : step s l = some s') :
    Effect s l s' := by
  cases l with
  | send n v c =>
    obtain ⟨hguard, hstep⟩ := Option.ite_none_right_eq_some.mp hstep
    obtain ⟨hrunning, halive, hnew⟩ := hguard
    have hvalid := hnew.2.2.2.2.2.1
    cases hsend : s.sendFrom n c (.request v) with
    | mk r =>
      rw [hsend] at hstep
      obtain ⟨store, caches, hroute, halt, ⟨hr, rfl, -⟩ | ⟨hr, p, hdest, rfl⟩⟩ :=
        sendFrom_request h hrunning hvalid hsend
      · cases r with
        | ok => exact absurd rfl hr
        | error =>
          simp only [Option.some.injEq] at hstep
          exact hstep ▸ .route _ n store caches hroute halt
      · subst hr
        simp only [Option.some.injEq] at hstep
        exact hstep ▸ .request n v c p store caches hrunning halive hnew hroute halt hdest
  | consume n =>
    obtain ⟨hguard, hstep⟩ := Option.ite_none_right_eq_some.mp hstep
    cases hpending : s.pending n with
    | nil => simp [hpending] at hstep
    | cons m ms =>
      simp only [hpending, Option.some.injEq] at hstep
      exact hstep ▸ .consume n m ms hguard.1 hguard.2 hpending
  | start tid =>
    simp only [step] at hstep
    cases hfind : s.find tid with
    | none => simp [hfind] at hstep
    | some t =>
      obtain ⟨ht, rfl⟩ := State.find_mem hfind
      simp only [hfind] at hstep
      obtain ⟨hphase, rfl⟩ := of_guard hstep
      exact .start t ht hphase
  | finish tid =>
    simp only [step] at hstep
    cases hfind : s.find tid with
    | none => simp [hfind] at hstep
    | some =>
      obtain ⟨ht, rfl⟩ := State.find_mem hfind
      simp only [hfind] at hstep
      obtain ⟨hguard, rfl⟩ := of_guard hstep
      refine conclude_effect h ht rfl hguard.1 ?_
      split
      · rename_i hdone
        exact .inr ⟨rfl, hdone.1, Option.isSome_iff_ne_none.mp hdone.2, rfl⟩
      · exact .inl rfl
  | reject tid errMsg c =>
    simp only [step] at hstep
    cases hfind : s.find tid with
    | none => simp [hfind] at hstep
    | some t =>
      obtain ⟨ht, rfl⟩ := State.find_mem hfind
      simp only [hfind] at hstep
      obtain ⟨hguard, rfl⟩ := of_guard hstep
      have heffect : Effect s (.reject t.tid errMsg c) { s.conclude t [] errMsg c with
          history := { (s.conclude t [] errMsg c).history with done := s.history.done } } :=
        conclude_effect h ht rfl hguard.1 (.inl rfl)
      rwa [← s.done_conclude t [] errMsg c] at heffect
  | tail tid =>
    simp only [step] at hstep
    cases hfind : s.find tid with
    | none => simp [hfind] at hstep
    | some =>
      obtain ⟨ht, rfl⟩ := State.find_mem hfind
      simp only [hfind] at hstep
      obtain ⟨hguard, rfl⟩ := of_guard hstep
      exact continueWith_effect h ht hguard.1 hguard.2.1 hguard.2.2
  | die n =>
    obtain ⟨halive, rfl⟩ := of_guard hstep
    exact .kill _ n s.store s.caches halive (.refl h n) (fun _ => rfl)
  | expel n =>
    obtain ⟨hguard, rfl⟩ := of_guard hstep
    exact .expel n hguard.1 hguard.2.1 hguard.2.2
  | join n services =>
    obtain ⟨hguard, rfl⟩ := of_guard hstep
    exact .join n services hguard.1 hguard.2.1 hguard.2.2
  | rebalance =>
    obtain ⟨hguard, rfl⟩ := of_guard hstep
    exact .rebalance hguard
  | newLeader =>
    obtain ⟨hguard, rfl⟩ := of_guard hstep
    exact .newLeader hguard
  | grow =>
    simp only [step, Option.some.injEq] at hstep
    exact hstep ▸ .grow
  | recover leader assign cs =>
    obtain ⟨hstopped, hleader, hplan, w, hrecover, rfl⟩ := step_recover hstep
    exact .recover leader assign cs w hstopped hleader hplan hrecover
  | setup assign =>
    obtain ⟨hguard, rfl⟩ := of_guard hstep
    exact .setup assign hguard.1 hguard.2.1 hguard.2.2

end Kar.Rpc
