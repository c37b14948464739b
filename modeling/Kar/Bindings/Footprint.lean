import Kar.Bindings.Deleted
import Kar.Runtime.ActorKeys

/-!
# The footprint of an actor

An actor has a state and a placement in the store, and bindings in the store and in the memory of the
nodes.  The command `delete` of `handlerActor` in `core/internal/runtime/commands.go` deletes the state
and the placement.  It does not touch the bindings.

`Removed` says that nothing of the actor is left and that no message was sent to it since.  The steps
after a deletion are those that happen without a request for the actor (`Later`): rounds of
`processReminders`, events, loads, restarts, and whatever concerns other actors only.  The actor stays
removed exactly if it had no binding when it was deleted (`deleted_completely_iff`).
-/

namespace Kar.Bindings

open Kar.Lib Kar.Store Kar.Runtime

/-! ## The system -/

/-- The nodes and the store, and the actors to which rounds and events have sent messages since the
last deletion. -/
structure Footprint (ν : Type) where
  bindings : BindingState ν
  told : List Actor

inductive FootprintEvent (ν : Type) where
  /-- A message of `handlerBinding` for the actor. -/
  | binding (e : BindingEvent ν)
  /-- A request for the state of the actor, or the routing of a message to it. -/
  | request (op : ActorOp)
  /-- The command `delete`, with the errors of the two `Del`. -/
  | delete (stateErr placeErr : Option String)
  | processReminders (node : ν) (fireTime : Int) (tell : Nat → Bool) (turns : Nat)
  /-- An event for a subscription. -/
  | event (node : ν) (s : Source)
  /-- Anything else. -/
  | other (bindings : BindingState ν)

/-- What a command of a round does.  Its errors are ignored. -/
def StoreCommand.run (c : Codec) (appName : String) (db : Db) : StoreCommand → Db
  | .persistTargetTime key targetTime =>
    (db.onHash (mangleKey appName key)
      fun h => ((hSet h "targetTime" (c.marshalTime targetTime)).1, .ok ())).1
  | .del key => (db.delKey (mangleKey appName key)).1

/-- The command `delete` of `handlerActor`.  An error of the first `Del` is logged, and an error of the
second one is returned. -/
def deleteActor (appName : String) (actor : Actor) (stateErr placeErr : Option String) (db : Db) :
    Db × Except String Unit :=
  let db := match stateErr with
    | none => (db.delKey (stateOf appName actor.type actor.id)).1
    | some _ => db
  match placeErr with
  | none => ((db.delKey (placementOf appName actor.type actor.id)).1, .ok ())
  | some err => (db, .error err)

variable {ν : Type}

namespace Footprint

def db (s : Footprint ν) : Db := s.bindings.db

def withDb (s : Footprint ν) (db : Db) : Footprint ν := { s with bindings := { s.bindings with db := db } }

/-- The deletion of the actor, and whether it is reported as successful. -/
def delete (appName : String) (actor : Actor) (stateErr placeErr : Option String) (s : Footprint ν) :
    Footprint ν × Except String Unit :=
  let r := deleteActor appName actor stateErr placeErr s.db
  ({ s.withDb r.1 with told := [] }, r.2)

def step [DecidableEq ν] (c : Codec) (j : Json) (appName : String) (actor : Actor) (s : Footprint ν) :
    FootprintEvent ν → Option (Footprint ν)
  | .binding e => (s.bindings.step c appName actor e).map fun b => { s with bindings := b }
  | .request op => some (s.withDb (op.run j appName actor.type actor.id s.db).1)
  | .delete stateErr placeErr => some (s.delete appName actor stateErr placeErr).1
  | .processReminders node fireTime tell turns =>
    (Kar.Bindings.processReminders fireTime tell turns (s.bindings.mems node .reminders)).map fun round =>
      { bindings := s.bindings.update node .reminders round.queue
          (round.commands.foldl (StoreCommand.run c appName) s.db)
        told := s.told ++ round.told.map Reminder.actor }
  | .event node source =>
    if source ∈ (s.bindings.mems node .subscriptions : Sources).active then
      some { s with told := s.told ++ [source.actor] }
    else none
  | .other b => some { s with bindings := b }

end Footprint

/-- The keys of the actor in the store. -/
inductive OfActor (appName : String) (actor : Actor) : String → Prop
  | state : OfActor appName actor (stateOf appName actor.type actor.id)
  | placement : OfActor appName actor (placementOf appName actor.type actor.id)
  | binding (kind : Kind) (p : Int32) (id : String) :
      OfActor appName actor (mangleKey appName (keyOf actor kind p id))

/-- No binding of the actor is in the store or in memory. -/
structure Unbound (c : Codec) (appName : String) (actor : Actor) (s : BindingState ν) : Prop where
  stored : ∀ kind id, Gone appName actor kind id s.db
  inactive : ∀ node (kind : Kind), ∀ b ∈ kind.active (s.mems node kind), (kind.collection c).actor b ≠ actor

/-- Nothing of the actor is left, and no message was sent to it. -/
structure Removed (c : Codec) (appName : String) (actor : Actor) (s : Footprint ν) : Prop where
  state : stateOf appName actor.type actor.id ∉ s.db
  placement : placementOf appName actor.type actor.id ∉ s.db
  unbound : Unbound c appName actor s.bindings
  untold : actor ∉ s.told

/-- The keys and the active bindings of the actor are the same. -/
structure Leaves (c : Codec) (appName : String) (actor : Actor) (s s' : BindingState ν) : Prop where
  stored : ∀ key, OfActor appName actor key → s'.db.lookup key = s.db.lookup key
  active : ∀ node (kind : Kind) b, (kind.collection c).actor b = actor →
    (b ∈ kind.active (s'.mems node kind) ↔ b ∈ kind.active (s.mems node kind))

/-- What happens after a deletion, without a request for the actor.  A message is routed to the actor
only if a round or an event has told it, or if a binding of it is loaded.  Reminders of other actors
have other keys. -/
def Later (c : Codec) (appName : String) (actor : Actor) (s : Footprint ν) : FootprintEvent ν → Prop
  | .binding (.load ..) => True
  | .binding (.restart _) => True
  | .binding _ => False
  | .request (.place _ _) =>
    actor ∈ s.told ∨ ∃ kind p id, mangleKey appName (keyOf actor kind p id) ∈ s.db
  | .request _ => False
  | .delete .. => False
  | .processReminders node _ _ _ => ∀ r ∈ ReminderQueue.active (s.bindings.mems node .reminders),
    r.actor ≠ actor → ¬ OfActor appName actor (mangleKey appName r.key)
  | .event .. => True
  | .other b => Leaves c appName actor s.bindings b

/-! ## What a round can do -/

section Rounds

variable {P : Reminder → Prop}

/-- What the queue keeps and what it returns was active before. -/
theorem ReminderQueue.nextLoop_all (hrq : ∀ r ∈ rq.active, P r) (h : nextLoop t n rq = (next, rq')) :
    (∀ r ∈ rq'.active, P r) ∧ ∀ r, next = some r → P r := by
  induction n generalizing rq with
  | zero =>
    cases h
    exact ⟨hrq, fun r hr => by simp at hr⟩
  | succ n ih =>
    rw [nextLoop] at h
    cases rq with
    | nil =>
      cases h
      exact ⟨hrq, fun r hr => by simp at hr⟩
    | cons e rq =>
      obtain ⟨rest, hpop⟩ : ∃ rest, Heap.pop ReminderEntry.targetTime (e :: rq) = some (e, rest) :=
        ⟨_, rfl⟩
      have hrest := active_perm (Heap.pop_perm hpop).2
      rw [hpop] at h
      simp only at h
      split at h
      · split at h
        · rename_i hcancelled
          rw [active_cons_cancelled rq hcancelled] at hrq
          exact ih (fun r hr => hrq r (hrest.mem_iff.mp hr)) h
        rename_i hcancelled
        rw [active_cons rq hcancelled] at hrq
        cases h
        refine ⟨fun r hr => hrq r (List.mem_cons_of_mem _ (hrest.mem_iff.mp hr)), fun r hr => ?_⟩
        cases hr
        exact hrq _ List.mem_cons_self
      · cases h
        exact ⟨hrq, fun r hr => by simp at hr⟩

/-- A property of the reminders that a round has, tells and sends commands for. -/
structure Round.All (fireTime : Int) (P : Reminder → Prop) (s : Round) : Prop where
  active : ∀ r ∈ s.queue.active, P r
  told : ∀ r ∈ s.told, P r
  commands : ∀ command ∈ s.commands, ∃ r, P r ∧ command = r.command fireTime

theorem ReminderQueue.active_add_all {rq : ReminderQueue} {r : Reminder} (hrq : ∀ r ∈ rq.active, P r)
    (hr : P r) : ∀ r' ∈ (rq.add r).active, P r' := by
  intro r' hr'
  rcases List.mem_cons.mp ((rq.active_add r).mem_iff.mp hr') with rfl | hr'
  · exact hr
  · exact hrq r' hr'

/-- A round tells reminders that were active, and puts back what it told. -/
theorem Round.All.processLoop {tell : Nat → Bool} {n : Nat} {s s' : Round} (hs : s.All fireTime P)
    (hP : ∀ r, P r → P (r.reschedule fireTime))
    (h : Kar.Bindings.processLoop fireTime tell n s = some s') : s'.All fireTime P := by
  induction n generalizing s with
  | zero => cases h
  | succ n ih =>
    rw [Kar.Bindings.processLoop] at h
    obtain ⟨next, rq, hnext⟩ : ∃ next rq, s.queue.nextReminderBefore fireTime = (next, rq) :=
      ⟨_, _, rfl⟩
    obtain ⟨hrq, hr⟩ := ReminderQueue.nextLoop_all hs.active hnext
    rw [hnext] at h
    cases next with
    | none =>
      cases h
      exact { hs with active := hrq }
    | some r =>
      have hr := hr r rfl
      simp only at h
      split at h
      · refine ih ⟨?_, ?_, ?_⟩ h
        · split
          · exact ReminderQueue.active_add_all hrq (hP r hr)
          · exact hrq
        · intro r' hr'
          rcases List.mem_append.mp hr' with hr' | hr'
          · exact hs.told r' hr'
          · rw [List.mem_singleton.mp hr']
            exact hr
        · intro command hcommand
          rcases List.mem_append.mp hcommand with hcommand | hcommand
          · exact hs.commands command hcommand
          · exact ⟨r, hr, List.mem_singleton.mp hcommand⟩
      · cases h
        exact { hs with active := ReminderQueue.active_add_all hrq hr }

theorem StoreCommand.lookup_run (c : Codec) (db : Db) {r : Reminder}
    (hne : key ≠ mangleKey appName r.key) :
    ((r.command fireTime).run c appName db).lookup key = db.lookup key := by
  unfold Reminder.command
  split
  · exact Db.lookup_onHash_of_ne hne _
  · exact Db.lookup_delKey_of_ne hne

/-- A round writes the keys of the reminders that it tells. -/
theorem StoreCommand.lookup_foldl (c : Codec)
    {commands : List StoreCommand} (h : ∀ command ∈ commands, ∃ r : Reminder,
      key ≠ mangleKey appName r.key ∧ command = r.command t) (db : Db) :
    (commands.foldl (StoreCommand.run c appName) db).lookup key = db.lookup key := by
  induction commands generalizing db with
  | nil => rfl
  | cons command _ ih =>
    obtain ⟨r, hr, rfl⟩ := h command List.mem_cons_self
    rw [List.foldl_cons, ih fun d hd => h d (List.mem_cons_of_mem _ hd), lookup_run c db hr]

end Rounds

/-! ## What a deletion does -/

theorem keyOf_ne_stateKey (actor : Actor) (kind : Kind) (p : Int32) (id t i : String) :
    keyOf actor kind p id ≠ stateKey t i := by
  intro h
  have hlist := congrArg String.toList h
  simp [keyOf, Persisted.key, bindingKey, stateKey] at hlist

theorem keyOf_ne_place (actor : Actor) (kind : Kind) (p : Int32) (id t i : String) :
    keyOf actor kind p id ≠ Rpc.place t i := by
  intro h
  have hlist := congrArg String.toList h
  simp [keyOf, Persisted.key, bindingKey, Rpc.place] at hlist

theorem mem_delKey {db : Db} {key' : String} : key' ∈ (db.delKey key).1 ↔ key' ∈ db ∧ key' ≠ key := by
  rw [← AList.lookup_isSome, ← AList.lookup_isSome, Db.delKey, Hash.lookup_remove]
  by_cases hkey : key' = key
  · simp [hkey]
  · simp [hkey]

/-- A successful deletion removes the placement, and the state if the first `Del` succeeds. -/
theorem mem_deleteActor {stateErr placeErr : Option String}
    {db db' : Db} (h : deleteActor appName actor stateErr placeErr db = (db', .ok ())) :
    key ∈ db' ↔ (key ∈ db ∧ (stateErr = none → key ≠ stateOf appName actor.type actor.id)) ∧
      key ≠ placementOf appName actor.type actor.id := by
  cases placeErr with
  | some => cases h
  | none =>
    cases stateErr with
    | none =>
      cases h
      simp only [mem_delKey, true_implies]
    | some =>
      cases h
      simp only [mem_delKey, reduceCtorEq, false_implies, and_true]

section Steps

variable {c : Codec} {s s' : Footprint ν}

/-- Where a step leaves the actor alone, it stays removed. -/
theorem Leaves.removed
    (h : Leaves c appName actor s.bindings b) (hs : Removed c appName actor s) (htold : actor ∉ told) :
    Removed c appName actor ⟨b, told⟩ := by
  have hmem : ∀ key, OfActor appName actor key → key ∉ s.db → key ∉ b.db := by
    intro key hkey hnot hmem
    rw [← AList.lookup_isSome, h.stored key hkey, AList.lookup_isSome] at hmem
    exact hnot hmem
  refine ⟨hmem _ .state hs.state, hmem _ .placement hs.placement, ⟨?_, ?_⟩, htold⟩
  · intro kind id p
    exact hmem _ (.binding kind p id) (hs.unbound.stored kind id p)
  · intro node kind b' hb' hactor
    exact hs.unbound.inactive node kind b' ((h.active node kind b' hactor).mp hb') hactor

/-- What is left right after a successful deletion. -/
theorem removed_delete_iff (hdel : s.delete appName actor stateErr placeErr = (s', .ok ())) :
    Removed c appName actor s' ↔ (stateErr = none ∨ stateOf appName actor.type actor.id ∉ s.db) ∧
      Unbound c appName actor s.bindings := by
  obtain ⟨db', hdb'⟩ : ∃ db', deleteActor appName actor stateErr placeErr s.db = (db', .ok ()) :=
    ⟨_, Prod.ext rfl (show (s.delete appName actor stateErr placeErr).2 = _ by rw [hdel])⟩
  have hs' : s' = { s.withDb db' with told := [] } := by
    rw [Footprint.delete, hdb'] at hdel
    exact (congrArg Prod.fst hdel).symm
  subst hs'
  have hstate : stateOf appName actor.type actor.id ≠ placementOf appName actor.type actor.id :=
    fun h => stateKey_ne_place _ _ _ _ (mangleKey_injective appName h)
  have hbinding : ∀ kind p id, mangleKey appName (keyOf actor kind p id) ∈ db' ↔
      mangleKey appName (keyOf actor kind p id) ∈ s.db := by
    intro kind p id
    rw [mem_deleteActor hdb']
    refine ⟨fun h => h.1.1, fun h => ⟨⟨h, fun _ heq => ?_⟩, fun heq => ?_⟩⟩
    · exact keyOf_ne_stateKey _ _ _ _ _ _ (mangleKey_injective appName heq)
    · exact keyOf_ne_place _ _ _ _ _ _ (mangleKey_injective appName heq)
  constructor
  · intro h
    refine ⟨?_, ⟨fun kind id p hmem => ?_, h.unbound.inactive⟩⟩
    · cases stateErr with
      | none => exact Or.inl rfl
      | some =>
        refine Or.inr fun hmem => h.state ((mem_deleteActor hdb').mpr ⟨⟨hmem, ?_⟩, hstate⟩)
        intro hnone
        cases hnone
    · exact h.unbound.stored kind id p ((hbinding kind p id).mpr hmem)
  · intro h
    refine ⟨fun hmem => ?_, fun hmem => ?_, ⟨fun kind id p hmem => ?_, h.2.inactive⟩,
      List.not_mem_nil⟩
    · obtain ⟨⟨hmem, hne⟩, -⟩ := (mem_deleteActor hdb').mp hmem
      rcases h.1 with hnone | hnot
      · exact hne hnone rfl
      · exact hnot hmem
    · exact ((mem_deleteActor hdb').mp hmem).2 rfl
    · exact h.2.stored kind id p ((hbinding kind p id).mp hmem)

variable [DecidableEq ν]

/-- One collection of one node is replaced, without a change for the actor. -/
theorem Leaves.update {node : ν} {kind : Kind} {mem : kind.Memory} {db : Db}
    (hdb : ∀ key, OfActor appName actor key → db.lookup key = b.db.lookup key)
    (hmem : ∀ b₀, (kind.collection c).actor b₀ = actor →
      (b₀ ∈ kind.active mem ↔ b₀ ∈ kind.active (b.mems node kind))) :
    Leaves c appName actor b (b.update node kind mem db) := by
  refine ⟨hdb, fun node' kind' b₀ hactor => ?_⟩
  by_cases hsame : node' = node ∧ kind' = kind
  · obtain ⟨rfl, rfl⟩ := hsame
    rw [BindingState.mems_update_self]
    exact hmem b₀ hactor
  · rw [BindingState.mems_update_of_ne hsame]

/-- Nothing is loaded for an actor without bindings. -/
theorem Unbound.load (hb : Unbound c appName actor b) {node : ν} {kind : Kind}
    {partition : Int32} {id : String} {subscribed : Subscribed}
    (hstep : b.step c appName actor (.load node kind partition id subscribed) = some b') :
    Leaves c appName actor b b' := by
  obtain ⟨⟨mem, r⟩, hload, rfl⟩ := exists_ok_of_map hstep
  refine Leaves.update (fun key _ => rfl) fun b₀ _ => ?_
  rcases loadBinding_cases hload with hmem | ⟨data, b₁, -, hget, hpairs, -, -⟩
  · rw [hmem]
  have hlookup : b.db.lookup (mangleKey appName (keyOf actor kind partition id)) =
      some (.hash data) := lookup_of_hGetAll hget hpairs
  refine absurd (AList.lookup_isSome.mp ?_) (hb.stored kind id partition)
  rw [hlookup]
  rfl

theorem Kind.active_empty (kind : Kind) : kind.active kind.empty = [] := by
  cases kind <;> rfl

theorem Unbound.restart (hb : Unbound c appName actor b) (node : ν) :
    Leaves c appName actor b { b with mems := Function.update b.mems node Kind.empty } := by
  refine ⟨fun key _ => rfl, fun node' kind b₀ hactor => ?_⟩
  show b₀ ∈ kind.active (Function.update b.mems node Kind.empty node' kind) ↔ _
  by_cases hnode : node' = node
  · subst hnode
    rw [Function.update_self, kind.active_empty]
    refine iff_of_false List.not_mem_nil fun hmem => ?_
    exact hb.inactive node' kind b₀ hmem hactor
  · rw [Function.update_of_ne hnode]

/-- A round does not tell an actor without active reminders. -/
theorem Removed.processReminders (hs : Removed c appName actor s) {node : ν} {fireTime : Int}
    {tell : Nat → Bool} {turns : Nat}
    (hlater : Later c appName actor s (.processReminders node fireTime tell turns))
    (hstep : s.step c j appName actor (.processReminders node fireTime tell turns) = some s') :
    Removed c appName actor s' := by
  obtain ⟨round, hround, rfl⟩ := Option.map_eq_some_iff.mp hstep
  -- The reminders of the round are those of other actors, with keys of their own.
  have hall : round.All fireTime fun r =>
      r.actor ≠ actor ∧ ¬ OfActor appName actor (mangleKey appName r.key) := by
    refine Round.All.processLoop ⟨fun r hr => ?_, by simp, by simp⟩ (fun r hr => hr) hround
    have hother : r.actor ≠ actor := hs.unbound.inactive node .reminders r hr
    exact ⟨hother, hlater r hr hother⟩
  have hleaves : Leaves c appName actor s.bindings (s.bindings.update node .reminders round.queue
      (round.commands.foldl (StoreCommand.run c appName) s.db)) := by
    refine Leaves.update (fun key hkey => ?_) fun b hactor => iff_of_false (fun hmem => ?_) fun hmem => ?_
    · refine StoreCommand.lookup_foldl c (t := fireTime) (fun command hcommand => ?_) _
      obtain ⟨r, hr, rfl⟩ := hall.commands command hcommand
      refine ⟨r, fun heq => hr.2 ?_, rfl⟩
      rwa [← heq]
    · exact (hall.active b hmem).1 hactor
    · exact hs.unbound.inactive node .reminders b hmem hactor
  refine hleaves.removed hs fun htold => ?_
  rcases List.mem_append.mp htold with htold | htold
  · exact hs.untold htold
  · obtain ⟨r, hr, hactor⟩ := List.mem_map.mp htold
    exact (hall.told r hr).1 hactor

/-- **Step.**  An actor that is removed stays removed. -/
theorem Removed.step (hs : Removed c appName actor s) {e : FootprintEvent ν}
    (hlater : Later c appName actor s e) (hstep : s.step c j appName actor e = some s') :
    Removed c appName actor s' := by
  cases e with
  | binding e =>
    obtain ⟨b, hb, rfl⟩ := Option.map_eq_some_iff.mp hstep
    cases e with
    | set => exact hlater.elim
    | del => exact hlater.elim
    | load => exact (hs.unbound.load hb).removed hs hs.untold
    | restart node =>
      cases hb
      exact (hs.unbound.restart node).removed hs hs.untold
  | request op =>
    cases op with
    | place =>
      rcases hlater with htold | ⟨kind, p, id, hmem⟩
      · exact absurd htold hs.untold
      · exact absurd hmem (hs.unbound.stored kind id p)
    | _ => exact hlater.elim
  | delete => exact hlater.elim
  | processReminders => exact hs.processReminders hlater hstep
  | event node source =>
    rw [Footprint.step] at hstep
    obtain ⟨hmem, rfl⟩ := of_guard hstep
    refine ⟨hs.state, hs.placement, hs.unbound, fun htold => ?_⟩
    rcases List.mem_append.mp htold with htold | htold
    · exact hs.untold htold
    · exact hs.unbound.inactive node .subscriptions source hmem (List.mem_singleton.mp htold).symm
  | other =>
    cases hstep
    exact Leaves.removed hlater hs hs.untold

end Steps

/-! ## Runs -/

/-- **Deleting an actor removes all of it exactly if it has no bindings.**  After a successful deletion
and without later requests, the actor stays removed exactly if its state was deleted or absent, and no
reminder or subscription of it was in the store or in the memory of a node when it was deleted. -/
theorem deleted_completely_iff [DecidableEq ν] (c : Codec) (j : Json) (appName : String) (actor : Actor)
    (s s₁ : Footprint ν) (stateErr placeErr : Option String)
    (hdel : s.delete appName actor stateErr placeErr = (s₁, .ok ())) :
    (∀ s₂, Reachable (Footprint.step c j appName actor) (Later c appName actor) s₁ s₂ →
      Removed c appName actor s₂) ↔
      (stateErr = none ∨ stateOf appName actor.type actor.id ∉ s.db) ∧
        Unbound c appName actor s.bindings := by
  rw [← removed_delete_iff hdel]
  constructor
  · intro h
    exact h s₁ .init
  · intro h s₂ hreach
    exact hreach.invariant h fun _ _ _ _ hinv hlater hstep => hinv.step hlater hstep

/-- An actor with a state and a placement, and without bindings. -/
private def idleClock : Footprint Nat where
  bindings := ⟨fun _ => Kind.empty,
    ((∅ : Db).insert (stateOf "shop" "Clock" "c") (.hash (Hash.ofList [("hands", "2")]))).insert
      (placementOf "shop" "Clock" "c") (.text "node")⟩
  told := []

private def noJson : Json := ⟨fun _ => none, rfl⟩

private theorem unbound_idleClock : Unbound plainCodec "shop" ⟨"Clock", "c"⟩ idleClock.bindings := by
  refine ⟨fun kind id p hmem => ?_, fun node kind b hb => ?_⟩
  · rw [idleClock, AList.mem_insert, AList.mem_insert] at hmem
    rcases hmem with hmem | hmem | hmem
    · exact keyOf_ne_place _ _ _ _ _ _ (mangleKey_injective "shop" hmem)
    · exact keyOf_ne_stateKey _ _ _ _ _ _ (mangleKey_injective "shop" hmem)
    · exact AList.notMem_empty _ hmem
  · rw [idleClock, kind.active_empty] at hb
    exact absurd hb List.not_mem_nil

/-- An actor without bindings is deleted for good. -/
theorem idle_clock_removed :
    ∃ s₁, idleClock.delete "shop" ⟨"Clock", "c"⟩ none none = (s₁, .ok ()) ∧
      ∀ s₂, Reachable (Footprint.step plainCodec noJson "shop" ⟨"Clock", "c"⟩)
        (Later plainCodec "shop" ⟨"Clock", "c"⟩) s₁ s₂ →
          Removed plainCodec "shop" ⟨"Clock", "c"⟩ s₂ :=
  ⟨_, rfl, (deleted_completely_iff plainCodec noJson "shop" ⟨"Clock", "c"⟩ idleClock _ none none rfl).mpr
    ⟨Or.inl rfl, unbound_idleClock⟩⟩

/-- A reminder is put, and then the actor is deleted.  The reminder is still in the store and in
memory.  The next round tells the actor, and the message places it again. -/
theorem reminder_outlives_clock :
    (run (Footprint.step plainCodec noJson "shop" ⟨"Clock", "c"⟩) idleClock
        [.binding (.set 0 .reminders "r" "s" [] .ok), .delete none none]).map
        (fun s => (s.db.keys, (ReminderQueue.active (s.bindings.mems 0 .reminders)).map Reminder.id)) =
      some (["kar_shop_binding_0_reminders_Clock_c_r"], ["r"]) ∧
    (run (Footprint.step plainCodec noJson "shop" ⟨"Clock", "c"⟩) idleClock
        [.binding (.set 0 .reminders "r" "s" [] .ok), .delete none none,
          .processReminders 0 1 (fun _ => true) 2, .request (.place "" "node")]).map
        (fun s => (s.db.keys, s.told)) =
      some (["kar_shop_rpc_Clock_c", "kar_shop_binding_0_reminders_Clock_c_r"], [⟨"Clock", "c"⟩]) := by
  constructor <;> decide +kernel

end Kar.Bindings
