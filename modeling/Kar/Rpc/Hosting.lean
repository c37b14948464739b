import Kar.Lib.Lists
import Kar.Lib.Run
import Kar.Rpc.Routing

/-!
# The host of an actor

Within one generation all nodes route with the same tables.  What they share beyond the
tables is one key of the store, the placement of the actor, and what each of them keeps
for itself is an entry of its placement cache.  `routeToSession` reads and writes both,
one compare-and-set after the other, and the calls of all nodes interleave.

`Hosting.step` follows every request for one actor from the call of `routeToSession` to
the end of its task:

* `Stage.placing` is the loop of `routeToSession` between two rounds and `Stage.placed` is
  the end of the loop before the cache is written.  A hit of the cache skips both.
* A request whose route is returned is sent to the partition of the node, read there, and
  becomes a task.
* A task of `DeleteActor` deletes the key of the placement, and nothing else.

There are two results.  Without deletions all calls agree on the host, whether a cache
answers them or the store (`placement_agreed`).  With deletions the tasks of the actor stay
on one node as long as a new placement is made where the old one is still in use
(`single_host`).

The `used` bit of a cache entry is read and written without synchronisation.  A pass of
the collector may therefore act on an old value, and the event carries the value it read.
-/

namespace Kar.Rpc

open Kar.Lib List

/-- The part of the routing tables that concerns one actor, in one generation.  The tables
of all nodes agree, except for the configuration of the cache. -/
structure Cluster where
  service : String
  session : String
  /-- `service2nodes[service]` -/
  nodes : List String
  node2partition : String → Nat
  /-- `PlacementCache` of each process. -/
  placementCache : String → Bool
  live : ∀ n ∈ nodes, node2partition n ≠ 0
  unnamed : node2partition "" = 0

namespace Cluster

variable (g : Cluster)

/-- The key of the placement of the actor. -/
def key : String := place g.service g.session

/-- The tables of the node `n`, with or without the placement cache. -/
def tables (n : String) (cached : Bool) : Tables where
  self := n
  service2nodes := fun name => if name = g.service then g.nodes else []
  node2partition := g.node2partition
  placementCache := cached

theorem service2nodes_tables (n : String) (cached : Bool) :
    (g.tables n cached).service2nodes g.service = g.nodes := if_pos rfl

end Cluster

/-- Where a request for the actor is. -/
inductive Stage
  /-- In the loop of `routeToSession`: the answer of the last round, and the random node. -/
  | placing (node next : String)
  /-- A round has answered a node with a partition. -/
  | placed (node : String)
  /-- `routeToSession` has returned. -/
  | returned (node : String) (partition : Nat)
  | failed (e : SendError)
  /-- In the partition of the host. -/
  | unread (host : String)
  /-- A task of the host that waits for its turn. -/
  | pending (host : String)
  | executing (host : String)
  /-- A task of `DeleteActor` after `DelSession`. -/
  | deleted (host : String)
  | done
  deriving DecidableEq, Repr

variable {h : String}

namespace Stage

/-- The node whose partition gets or has the request. -/
def host? : Stage → Option String
  | placed node => some node
  | returned node partition => if partition = 0 then none else some node
  | unread host | pending host | executing host | deleted host => some host
  | placing .. | failed _ | done => none

/-- The node that has a task for the request. -/
def taskHost? : Stage → Option String
  | pending host | executing host | deleted host => some host
  | _ => none

theorem host?_of_taskHost? {st : Stage} (hst : st.taskHost? = some h) :
    st.host? = some h := by
  cases st <;> simp_all [taskHost?, host?]

/-- The stage `st'` names no node which `st` did not name, and is not in the loop. -/
structure After (st st' : Stage) : Prop where
  host : ∀ h, st'.host? = some h → st.host? = some h
  placing : ∀ node next, st' ≠ .placing node next

end Stage

/-- A request for the actor. -/
structure ActorRequest where
  sender : String
  flow : String
  /-- The request was made by `DeleteActor`. -/
  delete : Bool
  stage : Stage
  /-- The number of compare-and-set operations of its `routeToSession`. -/
  rounds : Nat
  /-- What its `routeToSession` returned. -/
  route : Option (String × Nat)
  deriving DecidableEq, Repr

/-- Whether the request waits for its turn in the queue of the actor. -/
def ActorRequest.exclusive (r : ActorRequest) : Bool := r.flow != "nonexclusive"

structure Hosting where
  store : Store
  caches : String → Cache
  requests : List ActorRequest

inductive HostingEvent
  /-- The node `n` sends a request and calls `routeToSession`. -/
  | send (n flow : String) (delete : Bool) (rand : Nat)
  /-- One round of the loop of request `i`. -/
  | round (i : Nat)
  /-- The context of request `i` is cancelled, or Redis fails. -/
  | fail (i : Nat) (e : SendError)
  /-- The end of `routeToSession` of request `i`. -/
  | save (i : Nat)
  | produce (i : Nat) (acked : Bool)
  | read (i : Nat)
  | start (i : Nat)
  /-- `DelSession` in the task of request `i`. -/
  | delete (i : Nat)
  | finish (i : Nat)
  /-- A pass of the collector of `n` reaches the entry of the actor and finds its bit. -/
  | evict (n : String) (used : Bool)
  deriving DecidableEq, Repr

namespace Hosting

variable (g : Cluster)

/-- The start of a generation: the caches are empty, and the store is as it was left. -/
def start (store : Store) : Hosting where
  store := store
  caches := fun _ => .empty
  requests := []

/-- The request `i` moves to the stage `st`. -/
def move (s : Hosting) (i : Nat) (r : ActorRequest) (st : Stage) : Hosting :=
  { s with requests := s.requests.set i { r with stage := st } }

/-- `routeToSession` up to its loop. -/
def beginRoute (s : Hosting) (n flow : String) (delete : Bool) (rand : Nat) : Hosting :=
  let r : ActorRequest :=
    { sender := n, flow := flow, delete := delete, stage := .done, rounds := 0, route := none }
  match g.nodes with
  | [] => { s with
      requests := s.requests ++ [{ r with stage := .returned "" 0, route := some ("", 0) }] }
  | node :: nodes =>
    match (if g.placementCache n then (s.caches n).get? g.key else none) with
    | some entry => { s with
        caches := Function.update s.caches n ((s.caches n).set g.key { entry with used := true })
        requests := s.requests ++ [{ r with
          stage := .returned entry.node (g.node2partition entry.node)
          route := some (entry.node, g.node2partition entry.node) }] }
    | none => { s with
        requests := s.requests ++ [{ r with
          stage := .placing "" ((node :: nodes).getD (rand % (nodes.length + 1)) "") }] }

/-- The test of the partition of the node that a round answered. -/
def answered (node next : String) : Stage :=
  if g.node2partition node ≠ 0 then .placed node else .placing node next

/-- One round of the loop: `store.CAS` and the test of the partition. -/
def round (s : Hosting) (i : Nat) (r : ActorRequest) (node next : String) : Hosting :=
  let answer := cas s.store g.key node next
  { s with
    store := answer.2
    requests := s.requests.set i { r with
      stage := answered g answer.1 next
      rounds := r.rounds + 1 } }

/-- The end of `routeToSession` after its loop. -/
def save (s : Hosting) (i : Nat) (r : ActorRequest) (node : String) : Hosting where
  store := s.store
  caches := if g.placementCache r.sender then
      Function.update s.caches r.sender ((s.caches r.sender).set g.key { node := node, used := true })
    else s.caches
  requests := s.requests.set i { r with
    stage := .returned node (g.node2partition node)
    route := some (node, g.node2partition node) }

/-- The collector's treatment of the entry, whose bit it read as `used`. -/
def evict (s : Hosting) (n : String) (used : Bool) : Hosting :=
  match (s.caches n).get? g.key with
  | none => s
  | some entry =>
    let cache := if used then (s.caches n).set g.key { entry with used := false }
      else (s.caches n).delete g.key
    { s with caches := Function.update s.caches n cache }

def step (s : Hosting) : HostingEvent → Option Hosting
  | .send n flow delete rand => some (s.beginRoute g n flow delete rand)
  | .evict n used => some (s.evict g n used)
  | .round i => s.requests[i]?.bind fun r => match r.stage with
    | .placing node next => some (s.round g i r node next)
    | _ => none
  | .fail i e => s.requests[i]?.bind fun r => match r.stage with
    | .placing _ _ => some (s.move i r (.failed e))
    | _ => none
  | .save i => s.requests[i]?.bind fun r => match r.stage with
    | .placed node => some (s.save g i r node)
    | _ => none
  | .produce i acked => s.requests[i]?.bind fun r => match r.stage with
    | .returned node partition =>
      if acked = false then some (s.move i r (.failed .kafka))
      -- Nobody offers the type: the request waits in partition `0` for a recovery.
      else if partition = 0 then some (s.move i r .done)
      else some (s.move i r (.unread node))
    | _ => none
  | .read i => s.requests[i]?.bind fun r => match r.stage with
    | .unread host => some (s.move i r (.pending host))
    | _ => none
  | .start i => s.requests[i]?.bind fun r => match r.stage with
    | .pending host => some (s.move i r (.executing host))
    | _ => none
  | .delete i => s.requests[i]?.bind fun r => match r.stage with
    | .executing host =>
      if r.delete then some { s.move i r (.deleted host) with store := s.store.delete g.key }
      else none
    | _ => none
  | .finish i => s.requests[i]?.bind fun r => match r.stage with
    | .executing _ | .deleted _ => some (s.move i r .done)
    | _ => none

/-! ## What one step does -/

variable {n next node : String} {r : ActorRequest} {c : Chance}

section Steps

variable {g : Cluster} {s s' : Hosting}

/-- The events that neither route nor delete: the request `i` goes one stage further. -/
def Moves (s s' : Hosting) : Prop :=
  ∃ i r st, s.requests[i]? = some r ∧ Stage.After r.stage st ∧ s' = s.move i r st

theorem step_cases (h : step g s e = some s') :
    (∃ n flow delete rand, e = .send n flow delete rand ∧ s' = s.beginRoute g n flow delete rand) ∨
    (∃ n used, e = .evict n used ∧ s' = s.evict g n used) ∨
    (∃ i r node next, e = .round i ∧ s.requests[i]? = some r ∧ r.stage = .placing node next ∧
      s' = s.round g i r node next) ∨
    (∃ i r node, e = .save i ∧ s.requests[i]? = some r ∧ r.stage = .placed node ∧
      s' = s.save g i r node) ∨
    (∃ i r host, e = .delete i ∧ s.requests[i]? = some r ∧ r.stage = .executing host ∧
      s' = { s.move i r (.deleted host) with store := s.store.delete g.key }) ∨
    Moves s s' := by
  have last {P₁ P₂ P₃ P₄ P₅ Q : Prop} (h : Q) : P₁ ∨ P₂ ∨ P₃ ∨ P₄ ∨ P₅ ∨ Q :=
    .inr (.inr (.inr (.inr (.inr h))))
  cases e with
  | send n flow delete rand => exact .inl ⟨n, flow, delete, rand, rfl, (Option.some.inj h).symm⟩
  | evict n used => exact .inr (.inl ⟨n, used, rfl, (Option.some.inj h).symm⟩)
  | round i =>
    obtain ⟨r, hr, h⟩ := Option.bind_eq_some_iff.mp h
    split at h
    · rename_i node next hst
      exact .inr (.inr (.inl ⟨i, r, node, next, rfl, hr, hst, (Option.some.inj h).symm⟩))
    · simp at h
  | save i =>
    obtain ⟨r, hr, h⟩ := Option.bind_eq_some_iff.mp h
    split at h
    · rename_i node hst
      exact .inr (.inr (.inr (.inl ⟨i, r, node, rfl, hr, hst, (Option.some.inj h).symm⟩)))
    · simp at h
  | delete i =>
    obtain ⟨r, hr, h⟩ := Option.bind_eq_some_iff.mp h
    split at h
    · rename_i host hst
      obtain ⟨-, h⟩ := Option.ite_none_right_eq_some.mp h
      exact .inr (.inr (.inr (.inr (.inl ⟨i, r, host, rfl, hr, hst, (Option.some.inj h).symm⟩))))
    · simp at h
  | fail i =>
    obtain ⟨r, hr, h⟩ := Option.bind_eq_some_iff.mp h
    split at h
    · exact last ⟨i, r, _, hr, ⟨by simp [Stage.host?], by simp⟩, (Option.some.inj h).symm⟩
    · simp at h
  | produce i =>
    obtain ⟨r, hr, h⟩ := Option.bind_eq_some_iff.mp h
    split at h
    · rename_i node partition hst
      split at h
      · exact last ⟨i, r, _, hr, ⟨by simp [Stage.host?], by simp⟩, (Option.some.inj h).symm⟩
      split at h
      · exact last ⟨i, r, _, hr, ⟨by simp [Stage.host?], by simp⟩, (Option.some.inj h).symm⟩
      · rename_i hpartition
        refine last ⟨i, r, _, hr, ⟨?_, by simp⟩, (Option.some.inj h).symm⟩
        simp [Stage.host?, hst, hpartition]
    · simp at h
  | read i =>
    obtain ⟨r, hr, h⟩ := Option.bind_eq_some_iff.mp h
    split at h
    · rename_i host hst
      exact last ⟨i, r, _, hr, ⟨by simp [Stage.host?, hst], by simp⟩, (Option.some.inj h).symm⟩
    · simp at h
  | start i =>
    obtain ⟨r, hr, h⟩ := Option.bind_eq_some_iff.mp h
    split at h
    · rename_i host hst
      exact last ⟨i, r, _, hr, ⟨by simp [Stage.host?, hst], by simp⟩, (Option.some.inj h).symm⟩
    · simp at h
  | finish i =>
    obtain ⟨r, hr, h⟩ := Option.bind_eq_some_iff.mp h
    split at h
    · exact last ⟨i, r, _, hr, ⟨by simp [Stage.host?], by simp⟩, (Option.some.inj h).symm⟩
    · exact last ⟨i, r, _, hr, ⟨by simp [Stage.host?], by simp⟩, (Option.some.inj h).symm⟩
    · simp at h

/-- A node that the caches, the sends, the partitions or the tasks name for the actor. -/
def Names (g : Cluster) (s : Hosting) (h : String) : Prop :=
  (∃ r ∈ s.requests, r.stage.host? = some h) ∨
    ∃ n entry, (s.caches n).get? g.key = some entry ∧ entry.node = h

theorem names_set (hnames : Names g s' h) (hr : s.requests[i]? = some r)
    (hcaches : s'.caches = s.caches) (hrequests : s'.requests = s.requests.set i r')
    (hhost : r'.stage.host? = some h → r.stage.host? = some h) : Names g s h := by
  rcases hnames with ⟨q, hq, hstage⟩ | hcache
  · rw [hrequests] at hq
    rcases mem_or_eq_of_mem_set hq with hq | rfl
    · exact .inl ⟨q, hq, hstage⟩
    · exact .inl ⟨r, mem_of_getElem? hr, hhost hstage⟩
  · rw [hcaches] at hcache
    exact .inr hcache

theorem names_moves (hm : Moves s s') (hnames : Names g s' h) : Names g s h := by
  obtain ⟨i, r, st, hr, hafter, rfl⟩ := hm
  exact names_set hnames hr rfl rfl (hafter.host h)

/-- The entry of the actor in a cache that was changed at one node. -/
theorem get?_update_cache {caches : String → Cache} {n' key : String} {entry : PlacementCacheEntry}
    (h : (Function.update caches n cache n').get? key = some entry) :
    (n' = n ∧ cache.get? key = some entry) ∨ (caches n').get? key = some entry := by
  by_cases hn : n' = n
  · subst hn
    rw [Function.update_self] at h
    exact .inl ⟨rfl, h⟩
  · rw [Function.update_of_ne hn] at h
    exact .inr h

theorem names_evict {used : Bool} (hnames : Names g (s.evict g n used) h) :
    Names g s h := by
  unfold evict at hnames
  split at hnames
  · exact hnames
  rename_i entry hentry
  rcases hnames with hreq | ⟨n', e, he, rfl⟩
  · exact .inl hreq
  rcases get?_update_cache he with ⟨rfl, he⟩ | he
  · cases used with
    | true =>
      rw [if_pos rfl, GoMap.get?_set_self] at he
      exact .inr ⟨n', entry, hentry, by rw [← Option.some.inj he]⟩
    | false =>
      rw [if_neg (by simp)] at he
      rw [GoMap.get?_delete, if_pos rfl] at he
      simp at he
  · exact .inr ⟨n', e, he, rfl⟩

theorem names_beginRoute {flow : String} {delete : Bool} {rand : Nat}
    (hnames : Names g (s.beginRoute g n flow delete rand) h) : Names g s h := by
  unfold beginRoute at hnames
  split at hnames
  · rcases hnames with ⟨r, hr, hst⟩ | hcache
    · rcases mem_append.mp hr with hr | hr
      · exact .inl ⟨r, hr, hst⟩
      · rw [mem_singleton.mp hr] at hst
        simp [Stage.host?] at hst
    · exact .inr hcache
  split at hnames
  · -- A hit: the new request names what the entry names.
    rename_i entry hentry
    have hentry : (s.caches n).get? g.key = some entry := by
      obtain ⟨-, hentry⟩ := Option.ite_none_right_eq_some.mp hentry
      exact hentry
    rcases hnames with ⟨r, hr, hst⟩ | ⟨n', e, he, rfl⟩
    · rcases mem_append.mp hr with hr | hr
      · exact .inl ⟨r, hr, hst⟩
      rw [mem_singleton.mp hr] at hst
      simp only [Stage.host?] at hst
      split at hst
      · simp at hst
      exact .inr ⟨n, entry, hentry, Option.some.inj hst⟩
    · rcases get?_update_cache he with ⟨rfl, he⟩ | he
      · rw [GoMap.get?_set_self] at he
        exact .inr ⟨n', entry, hentry, by rw [← Option.some.inj he]⟩
      · exact .inr ⟨n', e, he, rfl⟩
  · rcases hnames with ⟨r, hr, hst⟩ | hcache
    · rcases mem_append.mp hr with hr | hr
      · exact .inl ⟨r, hr, hst⟩
      · rw [mem_singleton.mp hr] at hst
        simp [Stage.host?] at hst
    · exact .inr hcache

theorem names_save (hr : s.requests[i]? = some r)
    (hst : r.stage = .placed node) (hnames : Names g (s.save g i r node) h) : Names g s h := by
  have hplaced : Names g s node := .inl ⟨r, mem_of_getElem? hr, by rw [hst]; rfl⟩
  rcases hnames with ⟨q, hq, hstage⟩ | ⟨n, e, he, rfl⟩
  · rcases mem_or_eq_of_mem_set hq with hq | rfl
    · exact .inl ⟨q, hq, hstage⟩
    simp only [Stage.host?] at hstage
    split at hstage
    · simp at hstage
    cases hstage
    exact hplaced
  simp only [save] at he
  split at he
  · rcases get?_update_cache he with ⟨rfl, hset⟩ | he
    · rw [GoMap.get?_set_self] at hset
      cases hset
      exact hplaced
    · exact .inr ⟨n, e, he, rfl⟩
  · exact .inr ⟨n, e, he, rfl⟩

/-- A round adds at most the node that it placed the request on. -/
theorem names_round (hr : s.requests[i]? = some r) (hnames : Names g (s.round g i r node next) h) :
    Names g s h ∨ h = (cas s.store g.key node next).1 ∧ g.node2partition h ≠ 0 := by
  by_cases hh : h = (cas s.store g.key node next).1 ∧ g.node2partition h ≠ 0
  · exact .inr hh
  refine .inl (names_set hnames hr rfl rfl fun hst => ?_)
  unfold answered at hst
  split at hst
  · rename_i hpartition
    have hnode := Option.some.inj hst
    exact absurd ⟨hnode.symm, hnode ▸ hpartition⟩ hh
  · simp [Stage.host?] at hst

end Steps

/-! ## Agreement -/

section Agreement

variable {g : Cluster} {store store' : Store}

/-- The store places the actor on `h`, which has a partition. -/
def HostedAt (g : Cluster) (store : Store) (h : String) : Prop :=
  store.get? g.key = some h ∧ g.node2partition h ≠ 0

/-- A compare-and-set that expects a node without partition does not move the actor from a
node that has one. -/
theorem cas_of_hostedAt (hnode : g.node2partition node = 0)
    (hh : HostedAt g store h) (next : String) : cas store g.key node next = (h, store) := by
  have hne : h ≠ node := fun heq => hh.2 (heq ▸ hnode)
  unfold cas
  rw [hh.1]
  exact if_neg hne

/-- What a round expects: nothing in the first one, and in the second one the node without
partition that the first one found, unless the actor was placed meanwhile. -/
def Expects (g : Cluster) (store : Store) (rounds : Nat) (node : String) : Prop :=
  node = "" ∧ rounds = 0 ∨
    rounds = 1 ∧ g.node2partition node = 0 ∧
      (store.get? g.key = some node ∨ ∃ h, HostedAt g store h)

theorem Expects.partition (h : Expects g store rounds node) :
    g.node2partition node = 0 := by
  rcases h with ⟨rfl, -⟩ | ⟨-, h, -⟩
  · exact g.unnamed
  · exact h

/-- The first round places the actor or finds a node without partition, and the second one
places it. -/
theorem cas_of_expects (h : Expects g store rounds node) (hnext : next ∈ g.nodes) :
    HostedAt g (cas store g.key node next).2 (cas store g.key node next).1 ∨ rounds = 0 ∧
      g.node2partition (cas store g.key node next).1 = 0 ∧ store.get? g.key = some (cas store g.key
      node next).1 ∧ (cas store g.key node next).2 = store := by
  have hwrite : HostedAt g (store.set g.key next) next :=
    ⟨GoMap.get?_set_self .., g.live next hnext⟩
  cases hget : store.get? g.key with
  | none =>
    rcases h with ⟨rfl, -⟩ | ⟨-, -, hstored | ⟨v, hv, -⟩⟩
    · simp only [cas, hget, if_true]
      exact .inl hwrite
    · simp [hget] at hstored
    · simp [hget] at hv
  | some v =>
    by_cases hv : v = node
    · simp only [cas, hget, if_pos hv]
      exact .inl hwrite
    simp only [cas, hget, if_neg hv]
    by_cases hpartition : g.node2partition v = 0
    · rcases h with ⟨-, hrounds⟩ | ⟨-, -, hstored | ⟨v', hv', hp'⟩⟩
      · exact .inr ⟨hrounds, hpartition, trivial, trivial⟩
      · exact absurd (Option.some.inj (hget.symm.trans hstored)) hv
      · exact absurd (Option.some.inj (hget.symm.trans hv') ▸ hpartition) hp'
    · exact .inl ⟨hget, hpartition⟩

/-- The placement on a node with a partition stays, and another one is at most replaced by
such a placement. -/
structure Grows (g : Cluster) (store store' : Store) : Prop where
  hosted : ∀ h, HostedAt g store h → HostedAt g store' h
  stored : ∀ v, store.get? g.key = some v →
    store'.get? g.key = some v ∨ ∃ h, HostedAt g store' h

theorem grows_of_expects (h : Expects g store rounds node)
    (hnext : next ∈ g.nodes) : Grows g store (cas store g.key node next).2 where
  hosted := by
    intro host hhost
    rw [cas_of_hostedAt h.partition hhost]
    exact hhost
  stored := by
    intro v hv
    rcases cas_of_expects h hnext with hplaced | ⟨-, -, -, hsame⟩
    · exact .inr ⟨_, hplaced⟩
    · rw [hsame]
      exact .inl hv

/-- What holds of every request as long as no placement is deleted. -/
structure RouteOk (g : Cluster) (store : Store) (r : ActorRequest) : Prop where
  rounds : r.rounds ≤ 2
  placing : ∀ node next, r.stage = .placing node next →
    next ∈ g.nodes ∧ Expects g store r.rounds node
  route : ∀ n p, r.route = some (n, p) → n ≠ "" → HostedAt g store n ∧ p = g.node2partition n

theorem RouteOk.mono (h : RouteOk g store r) (hgrows : Grows g store store') :
    RouteOk g store' r where
  rounds := h.rounds
  placing := by
    intro node next hst
    obtain ⟨hnext, hexpects⟩ := h.placing node next hst
    refine ⟨hnext, ?_⟩
    rcases hexpects with hfirst | ⟨hrounds, hnode, hstored | ⟨v, hv⟩⟩
    · exact .inl hfirst
    · exact .inr ⟨hrounds, hnode, hgrows.stored node hstored⟩
    · exact .inr ⟨hrounds, hnode, .inr ⟨v, hgrows.hosted v hv⟩⟩
  route := by
    intro n p hroute hn
    obtain ⟨hhosted, hp⟩ := h.route n p hroute hn
    exact ⟨hgrows.hosted n hhosted, hp⟩

/-- A request that leaves the loop, or moves on after it. -/
theorem RouteOk.stage (h : RouteOk g store r)
    (hst : ∀ node next, st ≠ .placing node next) : RouteOk g store { r with stage := st } where
  rounds := h.rounds
  placing := fun node next heq => absurd heq (hst node next)
  route := h.route

/-- All that is named for the actor is the node that the store names, and the store keeps
the node it started with if that one has a partition. -/
structure Agreed (g : Cluster) (store₀ : Store) (s : Hosting) : Prop where
  kept : ∀ h, HostedAt g store₀ h → HostedAt g s.store h
  named : ∀ h, Names g s h → HostedAt g s.store h
  routes : ∀ r ∈ s.requests, RouteOk g s.store r

theorem agreed_start : Agreed g store₀ (start store₀) where
  kept := fun _ h => h
  named := by simp [Names, start, GoMap.get?, GoMap.empty]
  routes := by simp [start]

/-- The event deletes no placement. -/
def Keeps (_ : Hosting) (e : HostingEvent) : Prop := ∀ i, e ≠ .delete i

instance (s : Hosting) : (e : HostingEvent) → Decidable (Keeps s e)
  | .delete i => isFalse fun h => h i rfl
  | .send .. | .round _ | .fail .. | .save _ | .produce .. | .read _ | .start _ | .finish _
  | .evict .. => isTrue (by simp [Keeps])

variable {s s' : Hosting}

theorem Agreed.beginRoute (h : Agreed g store₀ s) (n flow : String) (delete : Bool) (rand : Nat) :
    Agreed g store₀ (s.beginRoute g n flow delete rand) := by
  -- Only the new request has to be looked at.
  have hstore : (s.beginRoute g n flow delete rand).store = s.store := by
    unfold Hosting.beginRoute
    repeat' split
    all_goals rfl
  refine ⟨by rw [hstore]; exact h.kept, fun host hnames => ?_, fun r hr => ?_⟩
  · rw [hstore]
    exact h.named host (names_beginRoute hnames)
  rw [hstore]
  unfold Hosting.beginRoute at hr
  split at hr
  · rcases mem_append.mp hr with hr | hr
    · exact h.routes r hr
    · rw [mem_singleton.mp hr]
      exact ⟨by simp, by simp, by simp⟩
  rename_i node nodes hnodes
  split at hr
  · rename_i entry hentry
    have hentry : (s.caches n).get? g.key = some entry := by
      obtain ⟨-, hentry⟩ := Option.ite_none_right_eq_some.mp hentry
      exact hentry
    have hhosted := h.named entry.node (.inr ⟨n, entry, hentry, rfl⟩)
    rcases mem_append.mp hr with hr | hr
    · exact h.routes r hr
    · rw [mem_singleton.mp hr]
      refine ⟨by simp, by simp, fun n' p hroute _ => ?_⟩
      cases hroute
      exact ⟨hhosted, rfl⟩
  · rcases mem_append.mp hr with hr | hr
    · exact h.routes r hr
    · rw [mem_singleton.mp hr]
      refine ⟨by simp, fun node' next hst => ?_, by simp⟩
      obtain ⟨rfl, rfl⟩ := hst
      exact ⟨hnodes ▸ getD_mod_mem node nodes rand "", .inl ⟨rfl, rfl⟩⟩

theorem Agreed.round (h : Agreed g store₀ s)
    (hr : s.requests[i]? = some r) (hst : r.stage = .placing node next) :
    Agreed g store₀ (s.round g i r node next) := by
  have hroute := h.routes r (mem_of_getElem? hr)
  obtain ⟨hnext, hexpects⟩ := hroute.placing node next hst
  have hgrows := grows_of_expects hexpects hnext
  have hcas := cas_of_expects hexpects hnext
  refine ⟨fun host hhost => hgrows.hosted host (h.kept host hhost), fun host hnames => ?_,
    fun q hq => ?_⟩
  · rcases names_round hr hnames with hold | ⟨rfl, hpartition⟩
    · exact hgrows.hosted host (h.named host hold)
    · rcases hcas with hplaced | ⟨-, hnone, -⟩
      · exact hplaced
      · exact absurd hnone hpartition
  rcases mem_or_eq_of_mem_set hq with hq | rfl
  · exact (h.routes q hq).mono hgrows
  have hrounds : r.rounds ≤ 1 := by
    rcases hexpects with ⟨-, h0⟩ | ⟨h1, -⟩ <;> omega
  refine ⟨by show r.rounds + 1 ≤ 2; omega, fun node' next' hst' => ?_, (hroute.mono hgrows).route⟩
  -- The loop goes on only after a first round that found a node without partition.
  unfold answered at hst'
  split at hst'
  · simp at hst'
  rename_i hpartition
  obtain ⟨rfl, rfl⟩ := hst'
  rcases hcas with hplaced | ⟨hzero, hnone, hstored, hsame⟩
  · exact absurd hplaced.2 hpartition
  · refine ⟨hnext, .inr ⟨by show r.rounds + 1 = 1; omega, hnone, .inl ?_⟩⟩
    show (cas s.store g.key node next).2.get? g.key = _
    rw [hsame]
    exact hstored

theorem Agreed.save (h : Agreed g store₀ s)
    (hr : s.requests[i]? = some r) (hst : r.stage = .placed node) :
    Agreed g store₀ (s.save g i r node) := by
  refine ⟨h.kept, fun host hnames => h.named host (names_save hr hst hnames), fun q hq => ?_⟩
  rcases mem_or_eq_of_mem_set hq with hq | rfl
  · exact h.routes q hq
  have hroute := h.routes r (mem_of_getElem? hr)
  have hnamed : Names g s node := .inl ⟨r, mem_of_getElem? hr, by rw [hst]; rfl⟩
  refine ⟨hroute.rounds, by simp, fun n p heq _ => ?_⟩
  cases heq
  exact ⟨h.named node hnamed, rfl⟩

theorem Agreed.evict (h : Agreed g store₀ s) (n : String) (used : Bool) :
    Agreed g store₀ (s.evict g n used) := by
  have hsame : (s.evict g n used).store = s.store ∧ (s.evict g n used).requests = s.requests := by
    unfold Hosting.evict
    split <;> exact ⟨rfl, rfl⟩
  refine ⟨by rw [hsame.1]; exact h.kept, fun host hnames => ?_, ?_⟩
  · rw [hsame.1]
    exact h.named host (names_evict hnames)
  · rw [hsame.1, hsame.2]
    exact h.routes

theorem Agreed.moves (h : Agreed g store₀ s) (hm : Moves s s') : Agreed g store₀ s' := by
  have hnamed := fun host hnames => h.named host (names_moves hm hnames)
  obtain ⟨i, r, st, hr, hafter, rfl⟩ := hm
  refine ⟨h.kept, hnamed, fun q hq => ?_⟩
  rcases mem_or_eq_of_mem_set hq with hq | rfl
  · exact h.routes q hq
  · exact (h.routes r (mem_of_getElem? hr)).stage hafter.placing

theorem Agreed.step (h : Agreed g store₀ s) (hok : Keeps s e)
    (hstep : step g s e = some s') : Agreed g store₀ s' := by
  rcases step_cases hstep with ⟨n, flow, delete, rand, -, rfl⟩ | ⟨n, used, -, rfl⟩ | ⟨i, r, node,
    next, -, hr, hst, rfl⟩ | ⟨i, r, node, -, hr, hst, rfl⟩ | ⟨i, r, host, he, -⟩ | hm
  · exact h.beginRoute n flow delete rand
  · exact h.evict n used
  · exact h.round hr hst
  · exact h.save hr hst
  · exact absurd he (hok i)
  · exact h.moves hm

theorem agreed_reachable (hs : Reachable (step g) Keeps (start store₀) s) :
    Agreed g store₀ s :=
  hs.invariant (agreed_start) fun _ _ _ _ h hok hstep => h.step hok hstep

/-- The loop reads nothing but the partitions. -/
theorem placeLoop_congr (ht : t.node2partition = t'.node2partition)
    (key next : String) (rounds : List Bool) (node : String) (store : Store) :
    placeLoop t key next rounds node store = placeLoop t' key next rounds node store := by
  induction rounds generalizing node store with
  | nil => rfl
  | cons round _ ih =>
    cases round with
    | false => rfl
    | true => simp [placeLoop, ht, ih]

/-- Without a hit of the cache the loop decides what a call returns. -/
theorem routeToSession_miss (hnodes : t.service2nodes service = node :: nodes)
    (hmiss : (if t.placementCache then cache.get? (place service session) else none) = none) :
    (routeToSession t c service session cache store).1 =
      (placeLoop t (place service session)
        ((node :: nodes).getD (c.rand % (nodes.length + 1)) "") c.rounds "" store).1 := by
  unfold routeToSession
  simp only [hnodes, hmiss]
  split
  all_goals
    rename_i hloop
    rw [hloop]

/-- A hit of the cache answers what the first round of the loop would answer. -/
theorem routeToSession_cached (h : Agreed g store₀ s) (n : String) (hc : c.rounds.head? = some true) :
    (routeToSession (g.tables n true) c g.service g.session (s.caches n) s.store).1 =
        (routeToSession (g.tables n false) c g.service g.session (s.caches n) s.store).1 := by
  cases hnodes : g.nodes with
  | nil => simp [routeToSession, g.service2nodes_tables, hnodes]
  | cons node nodes =>
    have hservice := fun cached => (g.service2nodes_tables n cached).trans hnodes
    rw [routeToSession_miss (hservice false) (by simp [Cluster.tables])]
    cases hentry : (s.caches n).get? g.key with
    | none =>
      rw [routeToSession_miss (hservice true) ((if_pos rfl).trans hentry),
        ← placeLoop_congr (t := g.tables n false) (rfl : _ = (g.tables n true).node2partition)]
    | some entry =>
      have hhosted := h.named entry.node (.inr ⟨n, entry, hentry, rfl⟩)
      obtain ⟨rounds, hrounds⟩ : ∃ rounds, c.rounds = true :: rounds := by
        cases hr : c.rounds with
        | nil => simp [hr] at hc
        | cons b rounds =>
          simp only [hr, head?_cons, Option.some.injEq] at hc
          exact ⟨rounds, by rw [hc]⟩
      have hcas := cas_of_hostedAt g.unnamed hhosted
        ((node :: nodes).getD (c.rand % (nodes.length + 1)) "")
      unfold Cluster.key at hentry hcas
      simp only [routeToSession, hservice, hrounds, placeLoop, hcas]
      simp [Cluster.tables, hentry, hhosted.2]

/-- Without deletions, all calls of `routeToSession` that return a node return the same one,
with its own partition, and the one of the store at the start if that has a partition.  A
call makes at most two compare-and-set operations, and the cache does not change what a call
returns. -/
theorem placement_agreed (g : Cluster) (store₀ : Store) {s : Hosting}
    (hs : Reachable (step g) Keeps (start store₀) s) :
    (∃ host, ∀ r ∈ s.requests, ∀ n p, r.route = some (n, p) → n ≠ "" →
      n = host ∧ p = g.node2partition n ∧ p ≠ 0 ∧ ∀ v, HostedAt g store₀ v → n = v) ∧
    (∀ r ∈ s.requests, r.rounds ≤ 2) ∧
    ∀ n c, c.rounds.head? = some true →
      (routeToSession (g.tables n true) c g.service g.session
          (s.caches n) s.store).1 =
        (routeToSession (g.tables n false) c g.service g.session
          (s.caches n) s.store).1 := by
  have h := agreed_reachable hs
  refine ⟨⟨(s.store.get? g.key).getD "", fun r hr n p hroute hn => ?_⟩,
    fun r hr => (h.routes r hr).rounds, fun n c hc => routeToSession_cached h n hc⟩
  obtain ⟨⟨hget, hpartition⟩, hp⟩ := (h.routes r hr).route n p hroute hn
  refine ⟨by rw [hget]; rfl, hp, by rw [hp]; exact hpartition, fun v hv => ?_⟩
  exact Option.some.inj (hget.symm.trans (h.kept v hv).1)

/-- Two nodes that offer the type `a`. -/
def twoNodes : Cluster where
  service := "a"
  session := "x"
  nodes := ["n1", "n2"]
  node2partition := fun n => if n = "n1" then 1 else if n = "n2" then 2 else 0
  placementCache := fun _ => true
  live := by decide
  unnamed := by decide

/-- Both nodes find the dead node `n0` and replace it. -/
theorem placement_agreed_race :
    ∃ s, run (step twoNodes) (start (GoMap.empty.set "rpc_a_x" "n0"))
        [.send "n1" "f1" false 0, .send "n2" "f2" false 1, .round 0, .round 1, .round 1, .round 0,
          .save 0, .save 1, .send "n1" "f3" false 0] = some s ∧
      s.requests.map (fun r => (r.route, r.rounds)) =
        [(some ("n2", 2), 2), (some ("n2", 2), 2), (some ("n2", 2), 0)] ∧
      ∃ host, ∀ r ∈ s.requests, ∀ n p, r.route = some (n, p) → n ≠ "" → n = host := by
  have hok : runOk (step twoNodes) Keeps (start (GoMap.empty.set "rpc_a_x" "n0"))
      [.send "n1" "f1" false 0, .send "n2" "f2" false 1, .round 0, .round 1, .round 1, .round 0,
        .save 0, .save 1, .send "n1" "f3" false 0] = true := by decide +kernel
  obtain ⟨s, hrun, hs⟩ := reachable_of_run .init hok
  obtain ⟨⟨host, hhost⟩, -⟩ := placement_agreed twoNodes _ hs
  have hroutes := eq_of_run (fun s : Hosting => s.requests.map (fun r => (r.route, r.rounds)))
    (a := [(some ("n2", 2), 2), (some ("n2", 2), 2), (some ("n2", 2), 0)]) hrun (by decide +kernel)
  exact ⟨s, hrun, hroutes, host, fun r hr n p hroute hn => (hhost r hr n p hroute hn).1⟩

end Agreement

/-! ## Calls without interference

A call whose rounds are not interrupted by other events is `routeToSession`. -/

section Alone

variable {g : Cluster} {s : Hosting}

theorem run_rounds {store : Store} (hr : s.requests[i]? = some r) (hst : r.stage = .placing node next)
    (hloop : placeLoop (g.tables n cached) g.key next rounds node s.store = (.ok (n', p), store)) :
    p = g.node2partition n' ∧ ∃ k, run (step g) s (replicate k (.round i)) = some { s with
      store := store
      requests := s.requests.set i { r with stage := .placed n', rounds := r.rounds + k } } := by
  induction rounds generalizing s r node with
  | nil => simp [placeLoop] at hloop
  | cons round rounds ih =>
    cases round with
    | false => simp [placeLoop] at hloop
    | true =>
      have hstep : step g s (.round i) = some (s.round g i r node next) := by
        simp [step, hr, hst]
      by_cases hpartition : g.node2partition (cas s.store g.key node next).1 = 0
      · -- The loop goes on from the node it found.
        have hanswer : answered g (cas s.store g.key node next).1 next =
            .placing (cas s.store g.key node next).1 next := if_neg (by simpa using hpartition)
        have hlt := (List.getElem?_eq_some_iff.mp hr).1
        have hr' : (s.round g i r node next).requests[i]? = some { r with
            stage := .placing (cas s.store g.key node next).1 next
            rounds := r.rounds + 1 } := by
          rw [← hanswer]
          exact getElem?_set_self hlt
        have hloop' : placeLoop (g.tables n cached) g.key next rounds
            (cas s.store g.key node next).1 (s.round g i r node next).store =
              (.ok (n', p), store) := by
          rw [← hloop]
          exact (if_neg (not_not_intro hpartition)).symm
        obtain ⟨hp, k, hk⟩ := ih hr' rfl hloop'
        refine ⟨hp, k + 1, ?_⟩
        rw [replicate_succ, run, hstep, Option.bind_some, hk]
        simp only [Hosting.round, set_set, Option.some.injEq, Hosting.mk.injEq, true_and]
        rw [Nat.add_assoc, Nat.add_comm 1 k]
      · have hanswer : answered g (cas s.store g.key node next).1 next =
            .placed (cas s.store g.key node next).1 := if_pos hpartition
        have hloop' : (Except.ok ((cas s.store g.key node next).1,
            g.node2partition (cas s.store g.key node next).1), (cas s.store g.key node next).2) =
              ((.ok (n', p), store) : Except SendError (String × Nat) × Store) := by
          rw [← hloop]
          exact (if_pos hpartition).symm
        obtain ⟨⟨rfl, rfl⟩, rfl⟩ := hloop'
        refine ⟨rfl, 1, ?_⟩
        simp only [replicate_one, run, hstep, Option.bind_some, Hosting.round, hanswer]

/-- What `routeToSession` returns and leaves behind is what the events of one call return
and leave behind when no other event comes between them. -/
theorem run_alone {store : Store}
    (h : routeToSession (g.tables n (g.placementCache n)) c g.service g.session (s.caches n) s.store =
      (.ok route, cache, store)) :
    ∃ es k, run (step g) s es = some {
      store := store
      caches := Function.update s.caches n cache
      requests := s.requests ++ [{
        sender := n, flow := flow, delete := delete, stage := .returned route.1 route.2,
        rounds := k, route := some route }] } := by
  have hkey : place g.service g.session = g.key := rfl
  simp only [routeToSession, g.service2nodes_tables, hkey] at h
  cases hnodes : g.nodes with
  | nil =>
    simp only [hnodes, Prod.mk.injEq, Except.ok.injEq] at h
    obtain ⟨rfl, rfl, rfl⟩ := h
    refine ⟨[.send n flow delete c.rand], 0, ?_⟩
    simp only [run, step, Option.bind_some, beginRoute, hnodes, Function.update_eq_self]
  | cons node nodes =>
    simp only [hnodes] at h
    cases hhit : (if g.placementCache n then (s.caches n).get? g.key else none) with
    | some entry =>
      have hhit' : (if (g.tables n (g.placementCache n)).placementCache = true
        then (s.caches n).get? g.key else none) = some entry := hhit
      simp only [hhit', Prod.mk.injEq, Except.ok.injEq] at h
      obtain ⟨rfl, rfl, rfl⟩ := h
      refine ⟨[.send n flow delete c.rand], 0, ?_⟩
      simp only [run, step, Option.bind_some, beginRoute, hnodes, hhit]
      rfl
    | none =>
      have hhit' : (if (g.tables n (g.placementCache n)).placementCache = true
        then (s.caches n).get? g.key else none) = none := hhit
      simp only [hhit'] at h
      split at h
      · simp at h
      rename_i node' p' store' hloop
      cases h
      -- The rounds start in the state that the call leaves before its loop.
      have hbegin : step g s (.send n flow delete c.rand) = some { s with
          requests := s.requests ++ [
            { sender := n, flow := flow, delete := delete,
              stage := .placing "" ((node :: nodes).getD (c.rand % (nodes.length + 1)) ""),
              rounds := 0, route := none }] } := by
        simp [step, beginRoute, hnodes, hhit]
      obtain ⟨rfl, k, hk⟩ := run_rounds (s := { s with requests := s.requests ++ [
            { sender := n, flow := flow, delete := delete,
              stage := .placing "" ((node :: nodes).getD (c.rand % (nodes.length + 1)) ""),
              rounds := 0, route := none }] }) getElem?_concat_length rfl hloop
      refine ⟨.send n flow delete c.rand :: (replicate k (.round s.requests.length) ++
        [.save s.requests.length]), k, ?_⟩
      rw [run, hbegin, Option.bind_some, run_append, hk, Option.bind_some]
      simp only [run, step, set_append_right _ _ (Nat.le_refl _), Nat.sub_self,
        set_cons_zero, getElem?_concat_length, Option.bind_some, save, Nat.zero_add]
      by_cases hcached : g.placementCache n = true
      · simp [hcached, Cluster.tables]
      · simp [hcached, Cluster.tables]

end Alone

/-! ## Deletions

`DelSession` deletes the key of the store.  The entries of the caches, the requests on their
way and the tasks of the old host stay, and the next round that finds no key may place the
actor on another node. -/

section Deletion

variable (g : Cluster)

/-- The nodes that the requests, the tasks and the caches of the senders name. -/
def inUse (s : Hosting) : List String :=
  s.requests.filterMap (fun r => r.stage.host?) ++
    s.requests.filterMap (fun r => ((s.caches r.sender).get? g.key).map (fun entry => entry.node))

/-- A round that places the actor because it finds no key places it on the node that is
still in use for it, if there is one. -/
def Joins (s : Hosting) : HostingEvent → Prop
  | .round i => ∀ r ∈ s.requests[i]?, ∀ next ∈ g.nodes, r.stage = .placing "" next →
    s.store.get? g.key = none → ∀ h ∈ inUse g s, h = next
  | _ => True

instance (s : Hosting) : (e : HostingEvent) → Decidable (Joins g s e)
  | .round i => inferInstanceAs (Decidable (∀ r ∈ s.requests[i]?, ∀ next ∈ g.nodes,
      r.stage = .placing "" next → s.store.get? g.key = none → ∀ h ∈ inUse g s, h = next))
  | .delete _ | .send .. | .fail .. | .save _ | .produce .. | .read _ | .start _ | .finish _
  | .evict .. => inferInstanceAs (Decidable True)

/-- The nodes that have a pending or executing task that waits for its turn or has it. -/
def exclusiveHosts (s : Hosting) : List String :=
  (s.requests.filter (fun r => r.exclusive)).filterMap (fun r => r.stage.taskHost?)

variable {g}

/-- The invariant: all that is named for the actor is one node, and the store names no other
node with a partition. -/
structure OneHost (g : Cluster) (s : Hosting) : Prop where
  placing : ∀ r ∈ s.requests, ∀ node next, r.stage = .placing node next →
    next ∈ g.nodes ∧ g.node2partition node = 0
  senders : ∀ n, (s.caches n).get? g.key ≠ none → ∃ r ∈ s.requests, r.sender = n
  one : ∀ h h', Names g s h → Names g s h' → h = h'
  stored : ∀ v, s.store.get? g.key = some v → ∀ h, Names g s h →
    g.node2partition v ≠ 0 ∧ h = v

theorem oneHost_start : OneHost g (start store₀) where
  placing := by simp [start]
  senders := by simp [start, GoMap.get?, GoMap.empty]
  one := by simp [Names, start, GoMap.get?, GoMap.empty]
  stored := by simp [Names, start, GoMap.get?, GoMap.empty]

variable {s s' : Hosting}

/-- What is named is in use. -/
theorem OneHost.mem_inUse (hinv : OneHost g s) (hnames : Names g s h) :
    h ∈ inUse g s := by
  rcases hnames with ⟨r, hr, hst⟩ | ⟨n, entry, hentry, rfl⟩
  · exact mem_append_left _ (mem_filterMap.mpr ⟨r, hr, hst⟩)
  · obtain ⟨r, hr, rfl⟩ := hinv.senders n (by simp [hentry])
    exact mem_append_right _ (mem_filterMap.mpr ⟨r, hr, by simp [hentry]⟩)

/-- A step that names nothing new and writes no placement. -/
theorem OneHost.frame (hinv : OneHost g s)
    (hplacing : ∀ r ∈ s'.requests, ∀ node next, r.stage = .placing node next →
      next ∈ g.nodes ∧ g.node2partition node = 0)
    (hsenders : ∀ n, (s'.caches n).get? g.key ≠ none → ∃ r ∈ s'.requests, r.sender = n)
    (hnames : ∀ h, Names g s' h → Names g s h)
    (hstore : ∀ v, s'.store.get? g.key = some v → s.store.get? g.key = some v) :
    OneHost g s' where
  placing := hplacing
  senders := hsenders
  one := fun h h' hh hh' => hinv.one h h' (hnames h hh) (hnames h' hh')
  stored := fun v hv h hh => hinv.stored v (hstore v hv) h (hnames h hh)

/-- The senders of the requests stay when one request changes. -/
theorem exists_sender_set {rs : List ActorRequest} {r' : ActorRequest}
    (hi : rs[i]? = some r) (hsender : r'.sender = r.sender) (h : ∃ q ∈ rs, q.sender = n) :
    ∃ q ∈ rs.set i r', q.sender = n := by
  obtain ⟨q, hq, rfl⟩ := h
  obtain ⟨j, hj⟩ := mem_iff_getElem?.mp hq
  by_cases hij : i = j
  · subst hij
    have hlt := (List.getElem?_eq_some_iff.mp hi).1
    rw [hi] at hj
    rw [← Option.some.inj hj, ← hsender]
    exact ⟨r', mem_iff_getElem?.mpr ⟨i, getElem?_set_self hlt⟩, rfl⟩
  · exact ⟨q, mem_iff_getElem?.mpr ⟨j, by rw [getElem?_set_ne hij]; exact hj⟩, rfl⟩

theorem OneHost.moves (hinv : OneHost g s) (hm : Moves s s') : OneHost g s' := by
  have hnames : ∀ h, Names g s' h → Names g s h := fun h => names_moves hm
  obtain ⟨i, r, st, hr, hafter, rfl⟩ := hm
  refine hinv.frame (fun q hq node next hst => ?_) (fun n hn => ?_) hnames (fun _ hv => hv)
  · rcases mem_or_eq_of_mem_set hq with hq | rfl
    · exact hinv.placing q hq node next hst
    · exact absurd hst (hafter.placing node next)
  · exact exists_sender_set hr rfl (hinv.senders n hn)

theorem OneHost.evict (hinv : OneHost g s) (n : String) (used : Bool) :
    OneHost g (s.evict g n used) := by
  have hnames : ∀ h, Names g (s.evict g n used) h → Names g s h := fun h => names_evict
  unfold Hosting.evict at hnames ⊢
  split at hnames
  · exact hinv
  rename_i entry hentry
  refine hinv.frame hinv.placing (fun n' hn' => ?_) hnames (fun _ hv => hv)
  obtain ⟨e, he⟩ := Option.ne_none_iff_exists'.mp hn'
  rcases get?_update_cache he with ⟨rfl, -⟩ | hold
  · exact hinv.senders n' (by simp [hentry])
  · exact hinv.senders n' (by simp [hold])

theorem OneHost.beginRoute (hinv : OneHost g s) (n flow : String) (delete : Bool) (rand : Nat) :
    OneHost g (s.beginRoute g n flow delete rand) := by
  have hnames : ∀ h, Names g (s.beginRoute g n flow delete rand) h → Names g s h :=
    fun h => names_beginRoute
  unfold Hosting.beginRoute at hnames ⊢
  have happend (q : ActorRequest) (n' : String) (h : (s.caches n').get? g.key ≠ none) :
      ∃ r ∈ s.requests ++ [q], r.sender = n' := by
    obtain ⟨r, hr, hn⟩ := hinv.senders n' h
    exact ⟨r, mem_append_left _ hr, hn⟩
  split at hnames
  · refine hinv.frame (fun r hr node next hst => ?_) (fun n' => happend _ n') hnames (fun _ hv => hv)
    rcases mem_append.mp hr with hr | hr
    · exact hinv.placing r hr node next hst
    · rw [mem_singleton.mp hr] at hst
      simp at hst
  rename_i first nodes hnodes
  split at hnames
  · refine hinv.frame (fun r hr node next hst => ?_) (fun n' hn' => ?_) hnames (fun _ hv => hv)
    · rcases mem_append.mp hr with hr | hr
      · exact hinv.placing r hr node next hst
      · rw [mem_singleton.mp hr] at hst
        simp at hst
    · obtain ⟨e, he⟩ := Option.ne_none_iff_exists'.mp hn'
      rcases get?_update_cache he with ⟨rfl, -⟩ | hold
      · exact ⟨_, mem_append_right _ (mem_singleton_self _), rfl⟩
      · exact happend _ n' (by simp [hold])
  · refine hinv.frame (fun r hr node next hst => ?_) (fun n' => happend _ n') hnames
      (fun _ hv => hv)
    rcases mem_append.mp hr with hr | hr
    · exact hinv.placing r hr node next hst
    · rw [mem_singleton.mp hr] at hst
      obtain ⟨rfl, rfl⟩ := hst
      exact ⟨hnodes ▸ getD_mod_mem first nodes rand "", g.unnamed⟩

theorem OneHost.save (hinv : OneHost g s) (hr : s.requests[i]? = some r) (hst : r.stage = .placed node) :
    OneHost g (s.save g i r node) := by
  refine hinv.frame (fun q hq node' next hst' => ?_) (fun n hn => ?_)
    (fun h => names_save hr hst) (fun _ hv => hv)
  · rcases mem_or_eq_of_mem_set hq with hq | rfl
    · exact hinv.placing q hq node' next hst'
    · simp at hst'
  refine exists_sender_set hr rfl ?_
  simp only [Hosting.save] at hn
  split at hn
  · obtain ⟨e, he⟩ := Option.ne_none_iff_exists'.mp hn
    rcases get?_update_cache he with ⟨rfl, -⟩ | hold
    · exact ⟨r, mem_of_getElem? hr, rfl⟩
    · exact hinv.senders n (by simp [hold])
  · exact hinv.senders n hn

theorem OneHost.delete (hinv : OneHost g s)
    (hr : s.requests[i]? = some r) (hst : r.stage = .executing host) :
    OneHost g { s.move i r (.deleted host) with store := s.store.delete g.key } := by
  have hafter : Stage.After r.stage (.deleted host) := ⟨by simp [hst, Stage.host?], by simp⟩
  have hmoved := hinv.moves ⟨i, r, _, hr, hafter, rfl⟩
  refine ⟨hmoved.placing, hmoved.senders, hmoved.one, fun v hv => ?_⟩
  rw [GoMap.get?_delete, if_pos rfl] at hv
  simp at hv

/-- What a round answers, and what it writes.  It writes a placement when it finds the
value that it expects, which is the empty one for an absent key. -/
theorem cas_cases (store : Store) (key node next : String) :
    (cas store key node next = (next, store.set key next) ∧
      (store.get? key = some node ∨ store.get? key = none ∧ node = "")) ∨
    (∃ v, store.get? key = some v ∧ cas store key node next = (v, store)) ∨
    (store.get? key = none ∧ cas store key node next = ("", store)) := by
  unfold cas
  cases hget : store.get? key with
  | none =>
    by_cases hnode : node = ""
    · exact .inl ⟨if_pos hnode, .inr ⟨rfl, hnode⟩⟩
    · exact .inr (.inr ⟨rfl, if_neg hnode⟩)
  | some v =>
    by_cases hv : v = node
    · exact .inl ⟨if_pos hv, .inl (by rw [hv])⟩
    · exact .inr (.inl ⟨v, rfl, if_neg hv⟩)

theorem OneHost.round (hinv : OneHost g s) (hok : Joins g s (.round i)) (hr : s.requests[i]? = some r)
    (hst : r.stage = .placing node next) : OneHost g (s.round g i r node next) := by
  obtain ⟨hnext, hnode⟩ := hinv.placing r (mem_of_getElem? hr) node next hst
  have hplacing : ∀ q ∈ (s.round g i r node next).requests, ∀ node' next',
      q.stage = .placing node' next' → next' ∈ g.nodes ∧ g.node2partition node' = 0 := by
    intro q hq node' next' hst'
    rcases mem_or_eq_of_mem_set hq with hq | rfl
    · exact hinv.placing q hq node' next' hst'
    unfold answered at hst'
    split at hst'
    · simp at hst'
    rename_i hpartition
    obtain ⟨rfl, rfl⟩ := hst'
    exact ⟨hnext, by simpa using hpartition⟩
  have hsenders : ∀ n, (s.caches n).get? g.key ≠ none →
      ∃ q ∈ (s.round g i r node next).requests, q.sender = n := fun n hn =>
    exists_sender_set hr rfl (hinv.senders n hn)
  rcases cas_cases s.store g.key node next with ⟨hcas, hfound⟩ | ⟨v, hv, hcas⟩ | ⟨hnone, hcas⟩
  · -- The round places the actor on `next`, and whatever is named is `next`.
    have hall : ∀ h, Names g (s.round g i r node next) h → h = next := by
      intro h hnames
      rcases names_round hr hnames with hold | ⟨hh, -⟩
      · rcases hfound with hfound | ⟨hnone, rfl⟩
        · exact absurd hnode (hinv.stored node hfound h hold).1
        · exact hok r hr next hnext hst hnone h (hinv.mem_inUse hold)
      · rw [hh, hcas]
    refine ⟨hplacing, hsenders, fun h h' hh hh' => (hall h hh).trans (hall h' hh').symm,
      fun v hv h hh => ?_⟩
    have hv : (cas s.store g.key node next).2.get? g.key = some v := hv
    rw [hcas, GoMap.get?_set_self] at hv
    cases hv
    exact ⟨g.live next hnext, hall h hh⟩
  · have hall : ∀ h, Names g (s.round g i r node next) h → g.node2partition v ≠ 0 ∧ h = v := by
      intro h hnames
      rcases names_round hr hnames with hold | ⟨hh, hpartition⟩
      · exact hinv.stored v hv h hold
      · have hh : h = v := by rw [hh, hcas]
        exact ⟨hh ▸ hpartition, hh⟩
    refine ⟨hplacing, hsenders, fun h h' hh hh' => (hall h hh).2.trans (hall h' hh').2.symm,
      fun v' hv' h hh => ?_⟩
    have hv' : (cas s.store g.key node next).2.get? g.key = some v' := hv'
    rw [hcas] at hv'
    rw [← Option.some.inj (hv.symm.trans hv')]
    exact hall h hh
  · refine hinv.frame hplacing hsenders (fun h hnames => ?_) (fun v hv => ?_)
    · rcases names_round hr hnames with hold | ⟨hh, hpartition⟩
      · exact hold
      · have hh : h = "" := by rw [hh, hcas]
        exact absurd g.unnamed (hh ▸ hpartition)
    · have hv : (cas s.store g.key node next).2.get? g.key = some v := hv
      rw [hcas] at hv
      exact hv

theorem OneHost.step (hinv : OneHost g s) (hok : Joins g s e)
    (hstep : step g s e = some s') : OneHost g s' := by
  rcases step_cases hstep with ⟨n, flow, delete, rand, -, rfl⟩ | ⟨n, used, -, rfl⟩ | ⟨i, r, node,
    next, rfl, hr, hst, rfl⟩ | ⟨i, r, node, -, hr, hst, rfl⟩ | ⟨i, r, host, -, hr, hst, rfl⟩ | hm
  · exact hinv.beginRoute n flow delete rand
  · exact hinv.evict n used
  · exact hinv.round hok hr hst
  · exact hinv.save hr hst
  · exact hinv.delete hr hst
  · exact hinv.moves hm

/-- In every run in which a deleted actor is placed again where it is still in use, the
tasks that wait for the turn of the actor or have it are on one node. -/
theorem single_host (g : Cluster) (store₀ : Store) {s : Hosting}
    (hs : Reachable (step g) (Joins g) (start store₀) s) :
    ∀ h ∈ exclusiveHosts s, ∀ h' ∈ exclusiveHosts s, h = h' := by
  have hinv : OneHost g s := hs.invariant (oneHost_start)
    fun _ _ _ _ hinv hok hstep => hinv.step hok hstep
  have hnames : ∀ h ∈ exclusiveHosts s, Names g s h := by
    intro h hh
    obtain ⟨r, hr, hhost⟩ := List.mem_filterMap.mp hh
    exact .inl ⟨r, (List.mem_filter.mp hr).1, Stage.host?_of_taskHost? hhost⟩
  exact fun h hh h' hh' => hinv.one h h' (hnames h hh) (hnames h' hh')

/-- The actor is placed on `n1`, deleted there, and a request of `n1` is queued behind the
deletion.  `n2` then sends another request, for which it picks the node `rand`. -/
def afterDeletion (rand : Nat) : List HostingEvent :=
  [.send "n1" "deactivate" true 0, .round 0, .save 0, .produce 0 true, .read 0,
    .send "n1" "f1" false 0, .produce 1 true, .read 1, .start 0, .delete 0,
    .send "n2" "f2" false rand, .round 2, .save 2, .produce 2 true, .read 2]

theorem single_host_after_deletion :
    ∃ s, run (step twoNodes) (start .empty) (afterDeletion 0) = some s ∧
      exclusiveHosts s = ["n1", "n1", "n1"] ∧
      ∀ h ∈ exclusiveHosts s, ∀ h' ∈ exclusiveHosts s, h = h' := by
  have hok : runOk (step twoNodes) (Joins twoNodes) (start .empty) (afterDeletion 0) = true := by
    decide +kernel
  obtain ⟨s, hrun, hs⟩ := reachable_of_run .init hok
  have hhosts := eq_of_run exclusiveHosts (a := ["n1", "n1", "n1"]) hrun (by decide +kernel)
  exact ⟨s, hrun, hhosts, single_host twoNodes .empty hs⟩

/-- The deletion and the request behind it are tasks of `n1`, and the request of `n2` is a
task of `n2`. -/
theorem actor_split_by_deletion :
    (run (step twoNodes) (start .empty) (afterDeletion 1)).map exclusiveHosts =
      some ["n1", "n1", "n2"] := by
  decide +kernel

end Deletion

end Hosting

end Kar.Rpc
