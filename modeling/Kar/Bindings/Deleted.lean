import Kar.Lib.Run
import Kar.Bindings.Frame

/-!
# Deleted bindings

The messages of `handlerBinding` in `core/internal/runtime/commands.go` for the bindings of one actor,
on all the nodes that host the actor over time.  A node has its collections in memory, and the nodes
share the store.

A delete removes what is in memory on the node that handles it, and the keys of these bindings from the
store.  After a rebalance the new host has nothing in memory until the `load` messages arrive.  A
delete that arrives before them removes nothing, and the `load` messages bring the binding back.
-/

namespace Kar.Bindings

open Kar.Lib Kar.Store Kar.Runtime List

/-! ## The messages -/

/-- The collections of the nodes, and the store. -/
structure BindingState (ν : Type) where
  mems : ν → (kind : Kind) → kind.Memory
  db : Db

/-- What can happen to the bindings of an actor, with the replies of `KEYS` and the outcomes of
subscriptions. -/
inductive BindingEvent (ν : Type) where
  | set (node : ν) (kind : Kind) (id payload : String) (reply : List String) (subscribed : Subscribed)
  | del (node : ν) (kind : Kind) (id : String)
  | load (node : ν) (kind : Kind) (partition : Int32) (id : String) (subscribed : Subscribed)
  | restart (node : ν)

variable {ν : Type} [DecidableEq ν]

namespace BindingState

def update (s : BindingState ν) (node : ν) (kind : Kind) (mem : kind.Memory) (db : Db) :
    BindingState ν where
  mems := Function.update s.mems node (Function.update (s.mems node) kind mem)
  db := db

/-- A message that is handled.  There is no state after a panic. -/
def step (c : Codec) (appName : String) (actor : Actor) (s : BindingState ν) :
    BindingEvent ν → Option (BindingState ν)
  | .set node kind id payload reply subscribed =>
    (putBinding (kind.collection c) (redisConfig appName) kind.name actor id payload reply subscribed
      (s.mems node kind) s.db).toOption.map fun o => s.update node kind o.mem o.db
  | .del node kind id =>
    let o := deleteBindings (kind.collection c) (redisConfig appName) actor id (s.mems node kind) s.db
    some (s.update node kind o.mem o.db)
  | .load node kind partition id subscribed =>
    (loadBinding (kind.collection c) (redisConfig appName) kind.name actor (itoa partition.toInt) id
      subscribed (s.mems node kind) s.db).toOption.map fun r => s.update node kind r.1 s.db
  | .restart node => some { s with mems := Function.update s.mems node Kind.empty }

end BindingState

/-- The key of a binding of the actor. -/
def keyOf (actor : Actor) (kind : Kind) (partition : Int32) (id : String) : String :=
  Persisted.key ⟨kind, actor, partition, id⟩

/-- The steps after which a deleted binding stays deleted: a put uses a key of its own binding, and the
node that handles a delete has every binding in memory that is deleted. -/
def Allowed (c : Codec) (appName : String) (actor : Actor) (s : BindingState ν) : BindingEvent ν → Prop
  | .set _ kind id _ reply _ => ∀ ks, keys (redisConfig appName) reply = .ok ks →
    ∃ p, (putKey kind.name actor id ks).1 = keyOf actor kind p id
  | .del node kind id => ∀ p id', id = "" ∨ id' = id →
    mangleKey appName (keyOf actor kind p id') ∈ s.db →
      ∃ b ∈ (kind.collection c).find (s.mems node kind) actor id,
        (kind.collection c).key b = keyOf actor kind p id'
  | .load .. => True
  | .restart _ => True

/-- A put for the binding. -/
def BindingEvent.IsPut (kind : Kind) (id : String) : BindingEvent ν → Prop
  | .set _ kind' id' .. => kind' = kind ∧ id' = id
  | _ => False

/-- No hash of the binding is left. -/
def Gone (appName : String) (actor : Actor) (kind : Kind) (id : String) (db : Db) : Prop :=
  ∀ p, mangleKey appName (keyOf actor kind p id) ∉ db

/-- The hashes of the actor's bindings are read as these bindings. -/
def Named (c : Codec) (appName : String) (actor : Actor) (db : Db) : Prop :=
  ∀ (kind : Kind) p id h b, db.lookup (mangleKey appName (keyOf actor kind p id)) = some (.hash h) →
    (kind.collection c).load actor id (keyOf actor kind p id) h = .ok b →
      (kind.collection c).actor b = actor ∧ (kind.collection c).id b = id

/-! ## Keys -/

theorem itoa_injective : Function.Injective itoa := by
  intro n m h
  have hn := parseSigned_itoa n
  rw [h, parseSigned_itoa m, Option.some.injEq] at hn
  exact hn.symm

variable {id id' : String} {kind kind' : Kind}

/-- The keys of one actor differ, whatever its names are. -/
theorem keyOf_inj :
    keyOf actor kind p id = keyOf actor kind' p' id' ↔ kind = kind' ∧ p = p' ∧ id = id' := by
  constructor
  · intro h
    have hparts := congrArg (splitString '_') h
    rw [keyOf, keyOf, Persisted.splitString_key, Persisted.splitString_key] at hparts
    simp only [cons.injEq, true_and] at hparts
    have hp : p = p' := Int32.toInt_inj.mp (itoa_injective hparts.1)
    have hkind : kind = kind' := Kind.name_injective hparts.2.1
    subst hp hkind
    exact ⟨rfl, rfl, (String.append_right_inj _).mp h⟩
  · intro h
    obtain ⟨rfl, rfl, rfl⟩ := h
    rfl

/-! ## What the messages do -/

section Steps

variable {db : Db} {subscribed : Subscribed} {h : StateHash}

/-- The ways in which `loadBinding` returns. -/
theorem loadBinding_cases {kind : String} {partition : String} {mem mem' : σ} {r : Except String Unit}
    (h : loadBinding B sc kind actor partition id subscribed mem db = .ok (mem', r)) :
    mem' = mem ∨ ∃ data b, B.find mem actor id = [] ∧ hGetAll db (sc.mangleKey (bindingKey kind
      actor.type actor.id partition id)) = .ok data ∧ data.pairs ≠ [] ∧ B.load actor id (bindingKey
      kind actor.type actor.id partition id) data = .ok b ∧ mem' = (B.add subscribed mem b).1 := by
  unfold loadBinding at h
  split at h
  · cases h
    exact .inl rfl
  rename_i hfind
  obtain ⟨data, hdata, h⟩ := bind_eq_ok.mp h
  split at h
  · cases h
    exact .inl rfl
  rename_i hpairs
  split at h
  · cases h
    exact .inl rfl
  · rename_i b hload
    cases h
    exact .inr ⟨data, b, not_not.mp hfind, hdata, hpairs, hload, rfl⟩

/-- A binding that is loaded is added to the bindings in memory. -/
theorem Lawful.active_load (hB : Lawful B active) (hfind : B.find mem actor id = [])
    (hactor : B.actor b = actor) (hid : B.id b = id) (hb' : b' ∈ active (B.add subscribed mem b).1) :
    b' = b ∨ b' ∈ active mem := by
  cases hadd : (B.add subscribed mem b).2 with
  | error => exact .inr ((hB.not_added _ _ _ _ hadd).mem_iff.mp hb')
  | ok =>
    refine mem_cons.mp ((hB.added _ _ _ hadd fun b₀ hb₀ hsame => ?_).mem_iff.mp hb')
    have hmem : b₀ ∈ B.find mem actor id := by
      rw [(hB.find mem actor id).mem_iff, mem_filter]
      exact ⟨hb₀, decide_eq_true ⟨hsame.1.trans hactor, .inr (hsame.2.trans hid)⟩⟩
    rw [hfind] at hmem
    exact not_mem_nil hmem

/-- The names of a reminder are always written. -/
theorem ReminderQueue.named_of_merged (hparse : parse c actor id key payload = .ok (r, m))
    (hmerged : ∀ f, h'.lookup f = (m.lookup f).or (h.lookup f)) (hload : load c key h' = .ok r') :
    r'.actor = actor ∧ r'.id = id := by
  obtain ⟨data, period, -, -, rfl, rfl⟩ := (parse_eq_ok c).mp hparse
  obtain ⟨-, -, hactor, hid, -⟩ := (load_eq_ok c).mp hload
  simp only [hmerged, lookup_persistReminder] at hactor hid
  exact ⟨hactor, hid⟩

/-- What a put writes is read as the binding of the put. -/
theorem Kind.named_of_merged (hparse : (kind.collection c).parse actor id key payload = .ok (b, m))
    (hmerged : ∀ f, h'.lookup f = (m.lookup f).or (h.lookup f))
    (hload : (kind.collection c).load actor id key h' = .ok b') :
    (kind.collection c).actor b' = actor ∧ (kind.collection c).id b' = id := by
  cases kind with
  | reminders => exact ReminderQueue.named_of_merged hparse hmerged hload
  | subscriptions =>
    cases hload
    exact ⟨rfl, rfl⟩

/-- What a put does to the keys of the actor, if it uses a key of its own. -/
theorem lookup_of_putReturns
    (h : PutReturns (kind.collection c) (redisConfig appName) kind.name actor id payload ks subscribed mem
      db o) (hkey : (putKey kind.name actor id ks).1 = keyOf actor kind p id)
    (hne : ¬ (kind' = kind ∧ p' = p ∧ id' = id)) :
    o.db.lookup (mangleKey appName (keyOf actor kind' p' id')) =
      db.lookup (mangleKey appName (keyOf actor kind' p' id')) := by
  cases h with
  | rejected => rfl
  | failed => rfl
  | done _ _ hset =>
    rw [hkey] at hset
    refine lookup_hSetAll_of_ne hset fun heq => hne ?_
    exact keyOf_inj.mp (mangleKey_injective appName heq)

/-- A put leaves the hashes named. -/
theorem Named.put (hnamed : Named c appName actor db)
    (h : PutReturns (kind.collection c) (redisConfig appName) kind.name actor id payload ks subscribed mem
      db o) (hkey : (putKey kind.name actor id ks).1 = keyOf actor kind p id) :
    Named c appName actor o.db := by
  intro kind' p' id' hash b' hlookup hload
  by_cases hsame : kind' = kind ∧ p' = p ∧ id' = id
  · obtain ⟨rfl, rfl, rfl⟩ := hsame
    cases h with
    | rejected => exact hnamed _ _ _ _ _ hlookup hload
    | failed => exact hnamed _ _ _ _ _ hlookup hload
    | @done _ _ db' hparse _ hset =>
      rw [hkey] at hparse hset
      have hget : hGetAll db' ((redisConfig appName).mangleKey (keyOf actor kind' p' id')) =
          .ok hash := by
        show hGetAll db' (mangleKey appName _) = _
        rw [hGetAll, hlookup]
      rcases hGetAll_of_hSetAll hset with ⟨hash', hget', hmerged⟩ | ⟨-, -, hnone⟩
      · rw [hget, Except.ok.injEq] at hget'
        subst hget'
        exact Kind.named_of_merged hparse hmerged hload
      · exact absurd hget (hnone hash)
  · rw [lookup_of_putReturns h hkey hsame] at hlookup
    exact hnamed _ _ _ _ _ hlookup hload

/-- A smaller store has no new hashes. -/
theorem Named.mono (hnamed : Named c appName actor db)
    (hsub : ∀ key v, db'.lookup key = some v → db.lookup key = some v) : Named c appName actor db' := by
  intro kind p id h b hlookup hload
  exact hnamed kind p id h b (hsub _ _ hlookup) hload

theorem lookup_deleteBindings
    (h : (deleteBindings (kind.collection c) (redisConfig appName) actor id mem db).db.lookup key =
      some v) : db.lookup key = some v := by
  rw [deleteBindings, Hash.lookup_remove] at h
  split at h
  · simp at h
  exact h

/-- A delete whose bindings are all in memory leaves no hash of them. -/
theorem gone_deleteBindings (hcached : ∀ p, mangleKey appName (keyOf actor kind p id') ∈ db →
      ∃ b ∈ (kind.collection c).find mem actor id, (kind.collection c).key b = keyOf actor kind p id') :
    Gone appName actor kind id'
      (deleteBindings (kind.collection c) (redisConfig appName) actor id mem db).db := by
  intro p hmem
  obtain ⟨v, hv⟩ := Option.isSome_iff_exists.mp (AList.lookup_isSome.mpr hmem)
  have hold := lookup_deleteBindings hv
  obtain ⟨b, hb, hkey⟩ := hcached p (AList.lookup_isSome.mp (hold ▸ rfl))
  rw [deleteBindings, Hash.lookup_remove, if_pos] at hv
  · simp at hv
  · exact mem_map.mpr ⟨b, (kind.lawful c).mem_cancel.mpr hb, by rw [hkey]; rfl⟩

variable {s s' : BindingState ν}

/-- The hashes of the actor's bindings stay named. -/
theorem Named.step (hnamed : Named c appName actor s.db)
    (hallowed : Allowed c appName actor s e) (hstep : s.step c appName actor e = some s') :
    Named c appName actor s'.db := by
  cases e with
  | set =>
    obtain ⟨o, hput', rfl⟩ := exists_ok_of_map hstep
    obtain ⟨ks, hks, hreturns⟩ := putBinding_returns hput'
    obtain ⟨p, hp⟩ := hallowed ks hks
    exact hnamed.put hreturns hp
  | del =>
    cases hstep
    exact hnamed.mono fun key v hv => lookup_deleteBindings hv
  | load =>
    obtain ⟨r, -, rfl⟩ := exists_ok_of_map hstep
    exact hnamed
  | restart =>
    cases hstep
    exact hnamed

/-- A binding that is gone stays gone until it is put again. -/
theorem Gone.step (hgone : Gone appName actor kind id s.db)
    (hallowed : Allowed c appName actor s e) (hput : ¬ e.IsPut kind id)
    (hstep : s.step c appName actor e = some s') : Gone appName actor kind id s'.db := by
  cases e with
  | set _ kind' id' =>
    obtain ⟨o, hput', rfl⟩ := exists_ok_of_map hstep
    obtain ⟨ks, hks, hreturns⟩ := putBinding_returns hput'
    obtain ⟨p, hp⟩ := hallowed ks hks
    intro q hmem
    have hne : ¬ (kind = kind' ∧ q = p ∧ id = id') := fun h => hput ⟨h.1.symm, h.2.2.symm⟩
    rw [← AList.lookup_isSome] at hmem
    refine hgone q (AList.lookup_isSome.mp ?_)
    rwa [← lookup_of_putReturns hreturns hp hne]
  | del =>
    cases hstep
    intro q hmem
    obtain ⟨v, hv⟩ := Option.isSome_iff_exists.mp (AList.lookup_isSome.mpr hmem)
    refine hgone q (AList.lookup_isSome.mp ?_)
    rw [lookup_deleteBindings hv]
    rfl
  | load =>
    obtain ⟨r, -, rfl⟩ := exists_ok_of_map hstep
    exact hgone
  | restart =>
    cases hstep
    exact hgone

theorem BindingState.mems_update_self : (s.update node kind mem db).mems node kind = mem := by
  simp [update]

theorem BindingState.mems_update_of_ne (hne : ¬ (node' = node ∧ kind' = kind)) :
    (s.update node kind mem db).mems node' kind' = s.mems node' kind' := by
  by_cases hnode : node' = node
  · subst hnode
    have hkind : kind' ≠ kind := fun h => hne ⟨rfl, h⟩
    simp [update, hkind]
  · simp [update, hnode]

/-- A hash with fields is in the store. -/
theorem lookup_of_hGetAll (hget : hGetAll db key = .ok h)
    (hpairs : h.pairs ≠ []) : db.lookup key = some (.hash h) := by
  cases hGetAll_eq_ok hget with
  | inl hnone =>
    rw [hnone.2] at hpairs
    exact absurd rfl hpairs
  | inr hhash => exact hhash

/-- A load does not bring back a binding that is gone. -/
theorem Gone.load (hgone : Gone appName actor kind id s.db) (hnamed : Named c appName actor s.db)
    {node node' : ν} {partition : Int32}
    (hstep : s.step c appName actor (.load node' kind' partition id' subscribed) = some s')
    {b : kind.Binding} (hb : b ∈ kind.active (s'.mems node kind)) (hid : (kind.collection c).id b = id) :
    b ∈ kind.active (s.mems node kind) := by
  obtain ⟨⟨mem, r⟩, hload, rfl⟩ := exists_ok_of_map hstep
  by_cases hsame : node = node' ∧ kind = kind'
  · obtain ⟨rfl, rfl⟩ := hsame
    rw [BindingState.mems_update_self] at hb
    rcases loadBinding_cases hload with hmem | ⟨data, b', hfind, hget, hpairs, hread, hmem⟩
    · rwa [hmem] at hb
    have hlookup : s.db.lookup (mangleKey appName (keyOf actor kind partition id')) =
        some (.hash data) := lookup_of_hGetAll hget hpairs
    obtain ⟨hactor', hid'⟩ := hnamed kind partition id' data b' hlookup hread
    rw [hmem] at hb
    cases (kind.lawful c).active_load hfind hactor' hid' hb with
    | inl heq =>
      -- The binding that is loaded has a hash, so it is another one.
      refine absurd (AList.lookup_isSome.mp ?_) (hgone partition)
      rw [← hid, heq, hid', hlookup]
      rfl
    | inr hold => exact hold
  · rwa [BindingState.mems_update_of_ne hsame] at hb

end Steps

/-! ## Runs -/

theorem Named.of_reachable {ok : BindingState ν → BindingEvent ν → Prop}
    (hok : ∀ s e, ok s e → Allowed c appName actor s e) (hnamed : Named c appName actor s.db)
    (h : Reachable (BindingState.step c appName actor) ok s s') : Named c appName actor s'.db := by
  induction h with
  | init => exact hnamed
  | step _ hallowed hstep ih => exact ih.step (hok _ _ hallowed) hstep

theorem Gone.of_reachable {s s' : BindingState ν}
    (hgone : Gone appName actor kind id s.db) (h : Reachable (BindingState.step c appName actor)
      (fun s e => Allowed c appName actor s e ∧ ¬ e.IsPut kind id) s s') :
    Gone appName actor kind id s'.db := by
  induction h with
  | init => exact hgone
  | step _ hok hstep ih => exact ih.step hok.1 hok.2 hstep

/-- **Deleted bindings stay deleted.**  If every put uses a key of its own binding and every delete is
handled on a node that has the deleted bindings in memory, then after a delete, and until the binding is
put again, no hash of the binding is left and no load makes it active. -/
theorem deleted_stays_deleted (c : Codec) (appName : String) (actor : Actor)
    (s₀ s₁ s₂ s₃ : BindingState ν) (node : ν) (kind : Kind) (id id' : String)
    (hinit : Named c appName actor s₀.db)
    (hbefore : Reachable (BindingState.step c appName actor) (Allowed c appName actor) s₀ s₁)
    (hallowed : Allowed c appName actor s₁ (.del node kind id'))
    (hdel : s₁.step c appName actor (.del node kind id') = some s₂) (hsel : id' = "" ∨ id = id')
    (hafter : Reachable (BindingState.step c appName actor)
      (fun s e => Allowed c appName actor s e ∧ ¬ e.IsPut kind id) s₂ s₃) :
    Gone appName actor kind id s₃.db ∧
      ∀ node₁ kind₁ partition id₁ subscribed s₄,
        s₃.step c appName actor (.load node₁ kind₁ partition id₁ subscribed) = some s₄ →
          ∀ node₂, ∀ b ∈ kind.active (s₄.mems node₂ kind), (kind.collection c).actor b = actor →
            (kind.collection c).id b = id → b ∈ kind.active (s₃.mems node₂ kind) := by
  have hnamed := hinit.of_reachable (fun _ _ hok => hok) hbefore
  have hgone : Gone appName actor kind id s₂.db := by
    cases hdel
    exact gone_deleteBindings fun p hmem => hallowed p id hsel hmem
  have hnamed₃ := (hnamed.step hallowed hdel).of_reachable (fun _ _ hok => hok.1) hafter
  have hgone₃ := hgone.of_reachable hafter
  refine ⟨hgone₃, ?_⟩
  intro node₁ kind₁ partition id₁ subscribed s₄ hstep node₂ b hb _ hid
  exact hgone₃.load hnamed₃ hstep hb hid

/-- The actor of the examples. -/
private def ticker : Actor := ⟨"Clock", "c"⟩

/-- Its reminder. -/
private def tick : Reminder := ⟨ticker, "r", keyOf ticker .reminders 0 "r", "/ring", 0, 0, ""⟩

/-- A node that has the reminder in memory, and in the store. -/
private def ticking : BindingState Nat where
  mems _
    | .reminders => [⟨tick, false⟩]
    | .subscriptions => .empty
  db := (∅ : Db).insert (mangleKey "shop" tick.key) (.hash (ReminderQueue.persistReminder plainCodec tick))

private theorem eq_of_mem_ticking
    (hmem : mangleKey "shop" (keyOf ticker kind p id) ∈ ticking.db) : keyOf ticker kind p id = tick.key := by
  rw [ticking, AList.mem_insert] at hmem
  exact mangleKey_injective "shop" (hmem.resolve_right (AList.notMem_empty _))

private theorem named_ticking : Named plainCodec "shop" ticker ticking.db := by
  intro kind p id h b hlookup hload
  have hkey : keyOf ticker kind p id = keyOf ticker .reminders 0 "r" := by
    apply eq_of_mem_ticking
    rw [← AList.lookup_isSome, hlookup]
    rfl
  obtain ⟨rfl, rfl, rfl⟩ := keyOf_inj.mp hkey
  have hh : h = ReminderQueue.persistReminder plainCodec tick := by
    have hstored : ticking.db.lookup (mangleKey "shop" (keyOf ticker .reminders 0 "r")) =
        some (.hash (ReminderQueue.persistReminder plainCodec tick)) := AList.lookup_insert _
    rw [hlookup] at hstored
    simpa using hstored
  subst hh
  cases hload
  exact ⟨rfl, rfl⟩

/-- The reminder is deleted on its node, and a load does not bring it back. -/
theorem tick_deleted :
    ∃ s, ticking.step plainCodec "shop" ticker (.del 0 .reminders "r") = some s ∧
      Gone "shop" ticker .reminders "r" s.db ∧
      ∀ s', s.step plainCodec "shop" ticker (.load 1 .reminders 0 "r" .ok) = some s' →
        ∀ b ∈ ReminderQueue.active (s'.mems 0 .reminders), b.actor = ticker → b.id = "r" →
          b ∈ ReminderQueue.active (s.mems 0 .reminders) := by
  have hallowed : Allowed plainCodec "shop" ticker ticking (.del 0 .reminders "r") := by
    intro p id _ hmem
    refine ⟨tick, ?_, (eq_of_mem_ticking hmem).symm⟩
    show tick ∈ ReminderQueue.find [⟨tick, false⟩] ticker "r"
    decide +kernel
  have h := deleted_stays_deleted plainCodec "shop" ticker ticking ticking _ _ 0 .reminders "r" "r"
    named_ticking .init hallowed rfl (Or.inr rfl) .init
  exact ⟨_, rfl, h.1, fun s' hs' => h.2 1 .reminders 0 "r" .ok s' hs' 0⟩

/-- Nothing is in memory or in the store. -/
private def noBindings : BindingState Nat := ⟨fun _ => Kind.empty, ∅⟩

/-- The reminder is put on one node and deleted on another one.  The load brings it back. -/
theorem delete_before_load :
    (run (BindingState.step plainCodec "shop" ticker) noBindings
        [.set 0 .reminders "r" "" [] .ok, .del 1 .reminders "r", .load 1 .reminders 0 "r" .ok]).map
        (fun s => (ReminderQueue.find (s.mems 1 .reminders) ticker "r", s.db.keys)) =
      some ([tick], ["kar_shop_binding_0_reminders_Clock_c_r"]) := by
  decide +kernel

end Kar.Bindings
