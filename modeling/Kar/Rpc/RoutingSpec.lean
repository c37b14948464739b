import Mathlib.Data.List.ReduceOption
import Kar.Lib.Lists
import Kar.Rpc.Recover

/-!
# What a send leaves in the log

One lemma for each function of `Kar.Rpc.Routing` that says which message it
writes and where, for every `Chance`.  Later modules cite these lemmas and do
not unfold the functions.

* `Routed t target node p` is the set of routing results: no node and partition
  `0` when no node offers the service, and otherwise a node with its partition.
* `Outcome t action out` is the set of results of one send of a recovery that
  succeeds: `out` is the message it writes, if any.
* `perform_outcomes` and `recover_outcomes` lift this to the whole resend loop.

The placement cache is emptied when a plan is made, and an entry is only added
for a node that has a partition.  `CacheOk` states this.
-/

namespace Kar.Rpc

open Kar.Lib List

/-- Every cached node has a partition. -/
def CacheOk (t : Tables) (cache : Cache) : Prop :=
  ∀ key entry, cache.get? key = some entry → t.node2partition entry.node ≠ 0

theorem cacheOk_empty (t : Tables) : CacheOk t .empty := by
  intro key entry h
  simp at h

/-- `node` and `p` are a possible result of routing a request to `target`. -/
def Routed (t : Tables) (target : Target) (node : String) (p : Nat) : Prop :=
  ∃ name, target.service? = some name ∧
    ((t.service2nodes name = [] ∧ node = "" ∧ p = 0) ∨
      (t.service2nodes name ≠ [] ∧ p = t.node2partition node ∧
        (node ∈ t.service2nodes name ∨ p ≠ 0)))

theorem routeToService_routed (t : Tables) (rand : Nat) (name : String) :
    Routed t (.service name) (routeToService t rand name).1 (routeToService t rand name).2 := by
  refine ⟨name, rfl, ?_⟩
  unfold routeToService
  cases hnodes : t.service2nodes name with
  | nil => exact .inl ⟨rfl, rfl, rfl⟩
  | cons node nodes =>
    exact .inr ⟨by simp, rfl, .inl (getD_mod_mem node nodes rand "")⟩

variable {name id node : String}

theorem placeLoop_ok {next : String} (h : placeLoop t key next rounds node store = (.ok (node', p), store')) :
    p = t.node2partition node' ∧ p ≠ 0 := by
  induction rounds generalizing node store with
  | nil => cases h
  | cons round _ ih =>
    cases round with
    | false => cases h
    | true =>
      simp only [placeLoop] at h
      split at h
      · rename_i hne
        cases h
        exact ⟨rfl, hne⟩
      · exact ih h

/-- What `routeToSession` does: no node offers the service, the cache has the node, or the placement is
looked up in the store. -/
inductive RoutesSession (t : Tables) (c : Chance) (name id : String) (cache : Cache) (store : Store) :
    Except SendError (String × Nat) → Cache → Store → Prop
  | unoffered (h : t.service2nodes name = []) :
      RoutesSession t c name id cache store (.ok ("", 0)) cache store
  | cached (entry : PlacementCacheEntry) (hne : t.service2nodes name ≠ [])
      (h : cache.get? (place name id) = some entry) :
      RoutesSession t c name id cache store (.ok (entry.node, t.node2partition entry.node))
        (cache.set (place name id) { entry with used := true }) store
  | failed (next : String) (e : SendError) (store' : Store) (hnext : next ∈ t.service2nodes name)
      (h : placeLoop t (place name id) next c.rounds "" store = (.error e, store')) :
      RoutesSession t c name id cache store (.error e) cache store'
  | placed (next node : String) (p : Nat) (cache' : Cache) (store' : Store)
      (hnext : next ∈ t.service2nodes name)
      (h : placeLoop t (place name id) next c.rounds "" store = (.ok (node, p), store'))
      (hcache : cache' = cache ∨ cache' = cache.set (place name id) { node := node, used := true }) :
      RoutesSession t c name id cache store (.ok (node, p)) cache' store'

theorem routeToSession_cases {r : Except SendError (String × Nat)}
    (h : routeToSession t c name id cache store = (r, cache', store')) :
    RoutesSession t c name id cache store r cache' store' := by
  unfold routeToSession at h
  cases hnodes : t.service2nodes name with
  | nil =>
    simp only [hnodes] at h
    cases h
    exact .unoffered hnodes
  | cons first nodes =>
    have hnext : (first :: nodes).getD (c.rand % (nodes.length + 1)) "" ∈ t.service2nodes name := by
      rw [hnodes]
      exact getD_mod_mem first nodes c.rand ""
    simp only [hnodes] at h
    split at h
    · rename_i entry hhit
      cases h
      refine .cached entry (by simp [hnodes]) ?_
      obtain ⟨-, hhit⟩ := Option.ite_none_right_eq_some.mp hhit
      exact hhit
    split at h
    · rename_i hloop
      cases h
      exact .failed _ _ _ hnext hloop
    rename_i hloop
    cases h
    refine .placed _ _ _ _ _ hnext hloop ?_
    split
    · exact .inr rfl
    · exact .inl rfl

theorem CacheOk.set (h : CacheOk t cache)
    (hentry : t.node2partition entry.node ≠ 0) : CacheOk t (cache.set key entry) := by
  intro key' e he
  rw [GoMap.get?_set] at he
  split at he
  · cases he
    exact hentry
  · exact h _ _ he

/-- What `routeToSession` answers, and that the cache stays sound. -/
theorem routeToSession_ok (hcache : CacheOk t cache)
    (h : routeToSession t c name id cache store = (.ok (node, p), cache', store')) :
    ((t.service2nodes name = [] ∧ node = "" ∧ p = 0) ∨
      (t.service2nodes name ≠ [] ∧ p = t.node2partition node ∧ p ≠ 0)) ∧ CacheOk t cache' := by
  cases routeToSession_cases h with
  | unoffered hnone => exact ⟨.inl ⟨hnone, rfl, rfl⟩, hcache⟩
  | cached entry hne hentry =>
    have hp := hcache _ entry hentry
    exact ⟨.inr ⟨hne, rfl, hp⟩, hcache.set hp⟩
  | placed _ _ _ _ _ hnext hloop hcache' =>
    obtain ⟨hp, hp0⟩ := placeLoop_ok hloop
    refine ⟨.inr ⟨ne_nil_of_mem hnext, hp, hp0⟩, ?_⟩
    cases hcache' with
    | inl heq => rwa [heq]
    | inr heq =>
      rw [heq]
      exact hcache.set (hp ▸ hp0)

/-! ## One send of a recovery -/

/-- `out` is a possible result of a send of a recovery that succeeds: the
message it writes and its partition, or nothing. -/
inductive Outcome (t : Tables) : Action → Option (Nat × Message) → Prop
  | nodeCall (v : CallRequest) (drop : Bool) (id : String) (h : v.target = .node id) :
      Outcome t (.resend (.call v) drop)
        (some (t.node2partition v.caller, (Message.response (nodeDied v)).wire t.self))
  | nodeTell (v : TellRequest) (drop : Bool) (id : String) (h : v.target = .node id) :
      Outcome t (.resend (.tell v) drop) none
  | kept (msg : Request) (node : String) (h : Routed t msg.target node 0) :
      Outcome t (.resend msg true) none
  | resent (msg : Request) (drop : Bool) (node : String) (p : Nat)
      (h : Routed t msg.target node p) (hdrop : p = 0 → drop = false) :
      Outcome t (.resend msg drop) (some (p, .request (msg.wire t.self)))
  | responded (msg : Done) :
      Outcome t (.respond msg) (some (0, (Message.done msg).wire t.self))

/-- A message is written, or the log is left as it is. -/
theorem sendMessage_cases (h : sendMessage t c p msg w = (r, w')) :
    (r = .ok () ∧ w' = { w with
      log := w.log.append p (msg.wire t.self)
      sent := w.sent ++ [(p, msg.wire t.self)] }) ∨ (r = .error .kafka ∧ w' = w) := by
  unfold sendMessage at h
  split at h
  · cases h
    exact .inl ⟨rfl, rfl⟩
  · cases h
    exact .inr ⟨rfl, rfl⟩

theorem sendMessage_kafka (h : sendMessage t c p msg w = (.error e, w')) : e = .kafka := by
  cases sendMessage_cases h with
  | inl h => cases h.1
  | inr h => exact Except.error.inj h.1

theorem placeLoop_available {next : String}
    (h : placeLoop t key next rounds node store = (.error e, store')) : e ≠ .unavailable := by
  induction rounds generalizing node store with
  | nil =>
    cases h
    simp
  | cons round _ ih =>
    cases round with
    | false =>
      cases h
      simp
    | true =>
      simp only [placeLoop] at h
      split at h
      · cases h
      exact ih h

/-- A request for a service or an actor is never unavailable: without a node that
offers the service it goes to partition `0`. -/
theorem send_available {v : Request} (h : send t c (.request v) w = (.error .unavailable, w')) :
    v.target.service? = none := by
  unfold send at h
  split at h
  · cases h
  cases htarget : v.target with
  | node => rfl
  | service =>
    simp only [htarget] at h
    cases sendMessage_kafka h
  | session =>
    simp only [htarget] at h
    split at h
    · rename_i hroute
      cases h
      cases routeToSession_cases hroute with
      | failed _ _ _ _ hloop => exact absurd rfl (placeLoop_available hloop)
    · cases sendMessage_kafka h

/-- The node and the partition that a request is routed to, and the cache and the store afterwards. -/
def RoutesTo (t : Tables) (c : Chance) (w : World) (target : Target) (node : String) (p : Nat)
    (cache : Cache) (store : Store) : Prop :=
  match target with
  | .service name => routeToService t c.rand name = (node, p) ∧ cache = w.cache ∧ store = w.store
  | .session name id _ _ =>
    routeToSession t c name id w.cache w.store = (.ok (node, p), cache, store)
  | .node _ => False

theorem RoutesTo.routed (h : RoutesTo t c w target node p cache store)
    (hcache : CacheOk t w.cache) : Routed t target node p ∧ CacheOk t cache := by
  cases target with
  | node => exact h.elim
  | service name =>
    obtain ⟨hroute, rfl, -⟩ := h
    have hrouted := routeToService_routed t c.rand name
    rw [hroute] at hrouted
    exact ⟨hrouted, hcache⟩
  | session name =>
    obtain ⟨hres, hcache'⟩ := routeToSession_ok hcache h
    exact ⟨⟨name, rfl, hres.imp_right fun h => ⟨h.1, h.2.1, .inr h.2.2⟩⟩, hcache'⟩

/-- The redirection of the response to the child of a request that goes to `node`. -/
def redirect (msg : Request) (node : String) (store : Store) : Store :=
  if msg.childID ≠ "" ∧ node ≠ "" then store.set (alt msg.childID) node else store

/-- What a send of a recovery does, for every `Chance`. -/
inductive Sends (t : Tables) (c : Chance) (w : World) : Action → Except SendError Unit → World → Prop
  | respond (msg : Done) (r : Except SendError Unit) (w' : World)
      (h : sendMessage t c 0 (.done msg) w = (r, w')) : Sends t c w (.respond msg) r w'
  | nodeCall (v : CallRequest) (drop : Bool) (id : String) (r : Except SendError Unit) (w' : World)
      (htarget : v.target = .node id)
      (h : sendMessage t c (t.node2partition v.caller) (.response (nodeDied v)) w = (r, w')) :
      Sends t c w (.resend (.call v) drop) r w'
  | nodeTell (v : TellRequest) (drop : Bool) (id : String) (htarget : v.target = .node id) :
      Sends t c w (.resend (.tell v) drop) (.ok ()) w
  | unrouted (msg : Request) (drop : Bool) (name id flow lock : String) (e : SendError) (cache : Cache)
      (store : Store) (htarget : msg.target = .session name id flow lock)
      (h : routeToSession t c name id w.cache w.store = (.error e, cache, store)) :
      Sends t c w (.resend msg drop) (.error e) { w with cache := cache, store := store }
  | kept (msg : Request) (node : String) (cache : Cache) (store : Store)
      (h : RoutesTo t c w msg.target node 0 cache store) :
      Sends t c w (.resend msg true) (.ok ()) { w with cache := cache, store := store }
  | resent (msg : Request) (drop : Bool) (node : String) (p : Nat) (cache : Cache) (store : Store)
      (r : Except SendError Unit) (w' : World) (hroute : RoutesTo t c w msg.target node p cache store)
      (hdrop : p = 0 → drop = false)
      (h : sendMessage t c p (.request msg)
        { w with cache := cache, store := redirect msg node store } = (r, w')) :
      Sends t c w (.resend msg drop) r w'

theorem resendTo_sends {msg : Request} {drop : Bool}
    (hroute : RoutesTo t c w msg.target node p cache store)
    (h : resendTo t c msg drop node p { w with cache := cache, store := store } = (r, w')) :
    Sends t c w (.resend msg drop) r w' := by
  unfold resendTo at h
  split at h
  · rename_i hdrop
    obtain ⟨rfl, rfl⟩ := hdrop
    cases h
    exact .kept msg node cache store hroute
  · rename_i hdrop
    refine .resent msg drop node p cache store r w' hroute (fun hp => ?_) h
    cases drop with
    | false => rfl
    | true => exact absurd ⟨hp, rfl⟩ hdrop

theorem Action.perform_sends {action : Action}
    (h : action.perform t c w = (r, w')) : Sends t c w action r w' := by
  cases action with
  | respond msg => exact .respond msg r w' h
  | resend msg drop =>
    simp only [Action.perform, Kar.Rpc.resend] at h
    cases htarget : msg.target with
    | node id =>
      simp only [htarget] at h
      cases msg with
      | call v => exact .nodeCall v drop id r w' htarget h
      | tell v =>
        cases h
        exact .nodeTell v drop id htarget
    | service =>
      simp only [htarget] at h
      exact resendTo_sends (by rw [htarget]; exact ⟨rfl, rfl, rfl⟩) h
    | session name id flow lock =>
      simp only [htarget] at h
      split at h
      · rename_i hroute
        cases h
        exact .unrouted msg drop name id flow lock _ _ _ htarget hroute
      · rename_i hroute
        exact resendTo_sends (by rw [htarget]; exact hroute) h

/-- The part of the world that the results below speak about: the log grows by
`out`, the trace of acknowledged messages too, and the cache stays sound. -/
structure Wrote (t : Tables) (w w' : World) (out : List (Nat × Message)) : Prop where
  log : w'.log = w.log.appendAll out
  sent : w'.sent = w.sent ++ out
  cache : CacheOk t w'.cache

theorem Wrote.refl (hlog : w'.log = w.log) (hsent : w'.sent = w.sent)
    (hcache : CacheOk t w'.cache) : Wrote t w w' [] :=
  ⟨by simp [hlog], by simp [hsent], hcache⟩

theorem Wrote.trans
    (h : Wrote t w w' out) (h' : Wrote t w' w'' out') : Wrote t w w'' (out ++ out') where
  log := by rw [h'.log, h.log, Log.appendAll_append]
  sent := by rw [h'.sent, h.sent, append_assoc]
  cache := h'.cache

theorem sendMessage_wrote (hcache : CacheOk t cache)
    (h : sendMessage t c p msg { w with cache := cache, store := store } = (r, w')) :
    (r = .ok () ∧ Wrote t w w' [(p, msg.wire t.self)]) ∨ ((∃ e, r = .error e) ∧ Wrote t w w' []) := by
  rcases sendMessage_cases h with ⟨hr, hw'⟩ | ⟨hr, hw'⟩
  · subst hw'
    exact .inl ⟨hr, rfl, rfl, hcache⟩
  · subst hw'
    exact .inr ⟨⟨_, hr⟩, .refl rfl rfl hcache⟩

/-- A send of a recovery that succeeds writes one of its outcomes, and one that fails writes nothing. -/
theorem Action.perform_outcome {action : Action}
    (hcache : CacheOk t w.cache) (h : action.perform t c w = (r, w')) :
    (r = .ok () ∧ ∃ out, Outcome t action out ∧ Wrote t w w' out.toList) ∨
      ((∃ e, r = .error e) ∧ Wrote t w w' []) := by
  cases Action.perform_sends h with
  | respond msg _ _ h =>
    exact (sendMessage_wrote hcache h).imp_left fun h => ⟨h.1, _, .responded msg, h.2⟩
  | nodeCall v drop id _ _ htarget h =>
    exact (sendMessage_wrote hcache h).imp_left fun h => ⟨h.1, _, .nodeCall v drop id htarget, h.2⟩
  | nodeTell v drop id htarget =>
    exact .inl ⟨rfl, none, .nodeTell v drop id htarget, .refl rfl rfl hcache⟩
  | unrouted _ _ _ _ _ _ e _ _ _ hroute =>
    refine .inr ⟨⟨e, rfl⟩, .refl rfl rfl ?_⟩
    cases routeToSession_cases hroute with
    | failed => exact hcache
  | kept msg node _ _ hroute =>
    obtain ⟨hrouted, hcache'⟩ := hroute.routed hcache
    exact .inl ⟨rfl, none, .kept msg node hrouted, .refl rfl rfl hcache'⟩
  | resent msg drop node p _ _ _ _ hroute hdrop h =>
    obtain ⟨hrouted, hcache'⟩ := hroute.routed hcache
    exact (sendMessage_wrote hcache' h).imp_left fun h =>
      ⟨h.1, _, .resent msg drop node p hrouted hdrop, h.2⟩

/-! ## The resend loop -/

/-- The sends of a recovery, for every chance: an initial part of them
succeeds, each with one of its outcomes, and nothing else is written.  All of
them succeed when the loop does not fail. -/
theorem perform_outcomes (hcache : CacheOk t w.cache) (h : perform t cs actions w = (r, w')) :
    ∃ done outs, done <+: actions ∧ (r = .ok () → done = actions) ∧
      List.Forall₂ (Outcome t) done outs ∧ Wrote t w w' outs.reduceOption := by
  induction actions generalizing cs w with
  | nil =>
    cases h
    exact ⟨[], [], prefix_refl _, fun _ => rfl, .nil, .refl rfl rfl hcache⟩
  | cons action _ ih =>
    rw [perform] at h
    cases hact : action.perform t (cs 0) w with
    | mk =>
      rw [hact] at h
      rcases Action.perform_outcome hcache hact with ⟨rfl, out, hout, hwrote⟩ | ⟨⟨e, rfl⟩, hwrote⟩
      · obtain ⟨done, outs, hprefix, hall, houts, hwrote'⟩ := ih hwrote.cache h
        refine ⟨action :: done, out :: outs, ?_, fun hr => by rw [hall hr], .cons hout houts, ?_⟩
        · exact cons_prefix_cons.mpr ⟨rfl, hprefix⟩
        · have htrans := hwrote.trans hwrote'
          cases out <;> simpa [reduceOption] using htrans
      · cases h
        exact ⟨[], [], nil_prefix, nofun, .nil, hwrote⟩

/-- A recovery that does not fail makes all its sends and empties the dead
partitions it read. -/
theorem recover_outcomes {c : Claims} {cs : Nat → Chance} (hcache : CacheOk t w.cache) (h : recover t live c cs w = (.ok (), w')) :
    ∃ outs, List.Forall₂ (Outcome t) (recoverActions live c w.log) outs ∧
      w'.log = (w.log.appendAll outs.reduceOption).deleteRecords (c.offsetsForDeletion live) ∧
      w'.sent = w.sent ++ outs.reduceOption := by
  unfold recover at h
  cases hperf : perform t cs (recoverActions live c w.log) w with
  | mk res =>
    rw [hperf] at h
    cases res with
    | error => simp at h
    | ok =>
      obtain ⟨done, outs, -, hall, houts, hwrote⟩ := perform_outcomes hcache hperf
      cases h
      rw [hall rfl] at houts
      exact ⟨outs, houts, by rw [← hwrote.log], hwrote.sent⟩

end Kar.Rpc
