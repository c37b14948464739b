import Kar.Rpc.Effects

/-!
# Placements in the store

The placement of an actor is a key of the store.  A node is replaced there only
when it has no partition in the tables of the sender, so an actor stays on its
node as long as the node stays in the group.

* `StoreStep t store store'` is what a send with the tables `t` may do to the
  placements: keep those on nodes with a partition, and place an actor on a node
  that offers its type.
* `CacheStore` says that the cache of a node repeats the store.
* `send_store` and `recover_store` are the results for a send and for a recovery:
  a message for an actor goes to the node where the store places the actor.

The keys of two actors may coincide, but only when an actor type has an
underscore.  The results are about types without one.
-/

namespace Kar.Rpc

open Kar.Lib List

/-! ## The keys -/

theorem place_toList (name id : String) :
    (place name id).toList = ['r', 'p', 'c', '_'] ++ (name.toList ++ ('_' :: id.toList)) := by
  simp [place]

variable {id name next node : String} {cache : Cache}

/-- The key of a placement determines the actor type. -/
theorem place_inj (hname : '_' ∉ name.toList)
    (hname' : '_' ∉ name'.toList) (h : place name id = place name' id') : name = name' := by
  have hlist := congrArg String.toList h
  rw [place_toList, place_toList, append_cancel_left_eq] at hlist
  have htake : ∀ l r : List Char, '_' ∉ l → (l ++ '_' :: r).takeWhile (· ≠ '_') = l := by
    intro l r hl
    rw [takeWhile_append_of_pos]
    · simp
    · intro c hc
      simpa using fun h : c = '_' => hl (h ▸ hc)
  have := congrArg (takeWhile (· ≠ '_')) hlist
  rw [htake _ _ hname, htake _ _ hname'] at this
  exact String.toList_injective this

theorem alt_ne_place (c name id : String) : alt c ≠ place name id := by
  intro h
  have := congrArg String.toList h
  rw [place_toList] at this
  simp [alt] at this

theorem alt_inj (h : alt c = alt c') : c = c' := by
  simpa [alt] using h

/-! ## What a send does to the placements -/

/-- Placements on nodes with a partition stay, and a new placement is on a node
that offers the actor type. -/
structure StoreStep (t : Tables) (store store' : Store) : Prop where
  stable : ∀ name id node, store.get? (place name id) = some node → t.node2partition node ≠ 0 →
    store'.get? (place name id) = some node
  placed : ∀ name id node, '_' ∉ name.toList → store'.get? (place name id) = some node →
    store.get? (place name id) = some node ∨ node ∈ t.service2nodes name

theorem StoreStep.refl (t : Tables) (store : Store) : StoreStep t store store :=
  ⟨fun _ _ _ h _ => h, fun _ _ _ _ h => .inl h⟩

theorem StoreStep.trans (h₁ : StoreStep t store₁ store₂) (h₂ : StoreStep t store₂ store₃) :
    StoreStep t store₁ store₃ where
  stable := fun name id node h hp => h₂.stable name id node (h₁.stable name id node h hp) hp
  placed := by
    intro name id node hname h
    rcases h₂.placed name id node hname h with h | h
    · exact h₁.placed name id node hname h
    · exact .inr h

/-- A change of the store that no placement sees. -/
theorem StoreStep.of_eq (h : ∀ name id, store'.get? (place name id) = store.get? (place name id)) :
    StoreStep t store store' :=
  ⟨fun name id _ hs _ => (h name id).trans hs, fun name id _ _ hs => .inl ((h name id).symm.trans hs)⟩

/-- An actor whose node has no partition is placed on another node. -/
theorem StoreStep.set (hname : '_' ∉ name.toList) (hnext : next ∈ t.service2nodes name)
    (hold : ∀ node, store.get? (place name id) = some node → t.node2partition node = 0) :
    StoreStep t store (store.set (place name id) next) where
  stable := by
    intro name' id' node h hp
    rw [GoMap.get?_set]
    split
    · rename_i heq
      rw [heq] at h
      exact absurd (hold node h) hp
    · exact h
  placed := by
    intro name' id' node hname' h
    rw [GoMap.get?_set] at h
    split at h
    · rename_i heq
      simp only [Option.some.injEq] at h
      rw [place_inj hname' hname heq, ← h]
      exact .inr hnext
    · exact .inl h

/-- The cache of a node repeats placements of the store, on nodes with a
partition. -/
def CacheStore (t : Tables) (cache : Cache) (store : Store) : Prop :=
  ∀ key entry, cache.get? key = some entry → (∃ name id, key = place name id) ∧
    store.get? key = some entry.node ∧ t.node2partition entry.node ≠ 0

theorem CacheStore.cacheOk (h : CacheStore t cache store) : CacheOk t cache :=
  fun key entry hentry => (h key entry hentry).2.2

theorem cacheStore_empty (t : Tables) (store : Store) : CacheStore t .empty store := by
  intro key entry h
  simp at h

theorem CacheStore.step
    (h : CacheStore t cache store) (hs : StoreStep t store store') : CacheStore t cache store' := by
  intro key entry hentry
  obtain ⟨⟨name, id, rfl⟩, hget, hp⟩ := h key entry hentry
  exact ⟨⟨name, id, rfl⟩, hs.stable name id _ hget hp, hp⟩

theorem CacheStore.set (h : CacheStore t cache store)
    (hget : store.get? (place name id) = some entry.node) (hp : t.node2partition entry.node ≠ 0) :
    CacheStore t (cache.set (place name id) entry) store := by
  intro key e he
  rw [GoMap.get?_set] at he
  split at he
  · rename_i heq
    simp only [Option.some.injEq] at he
    subst he heq
    exact ⟨⟨name, id, rfl⟩, hget, hp⟩
  · exact h key e he

/-! ## Routing -/

section Routing

variable {t : Tables} (hnil : t.node2partition "" = 0)

/-- The script of `cas` answers the value the key holds afterwards. -/
theorem cas_store (hname : '_' ∉ name.toList) (hnext : next ∈ t.service2nodes name)
    (hnode : t.node2partition node = 0) (h : cas store (place name id) node next = (node', store')) :
    StoreStep t store store' ∧ (node' ≠ "" → store'.get? (place name id) = some node') ∧
      ∀ key, key ≠ place name id → store'.get? key = store.get? key := by
  unfold cas at h
  split at h
  · rename_i hget
    split at h <;> cases h
    · exact ⟨.set hname hnext (by simp [hget]), fun _ => GoMap.get?_set_self ..,
        fun key hkey => GoMap.get?_set_of_ne _ hkey _⟩
    · exact ⟨.refl t _, fun hne => absurd rfl hne, fun _ _ => rfl⟩
  rename_i v hget
  split at h <;> cases h
  · rename_i hv
    refine ⟨.set hname hnext (fun node' h' => ?_), fun _ => GoMap.get?_set_self ..,
      fun key hkey => GoMap.get?_set_of_ne _ hkey _⟩
    rw [hget, Option.some.injEq] at h'
    rw [← h', hv]
    exact hnode
  · exact ⟨.refl t _, fun _ => hget, fun _ _ => rfl⟩

include hnil

/-- A round of the loop that does not find a node with a partition tries again
with the node it found, which has none. -/
theorem placeLoop_store (hname : '_' ∉ name.toList) (hnext : next ∈ t.service2nodes name)
    (hnode : t.node2partition node = 0)
    (h : placeLoop t (place name id) next rounds node store = (r, store')) :
    StoreStep t store store' ∧ (∀ node' p, r = .ok (node', p) → store'.get? (place name id) = some
      node') ∧ ∀ key, key ≠ place name id → store'.get? key = store.get? key := by
  induction rounds generalizing node store with
  | nil =>
    cases h
    exact ⟨.refl t _, nofun, fun _ _ => rfl⟩
  | cons round _ ih =>
    cases round with
    | false =>
      cases h
      exact ⟨.refl t _, nofun, fun _ _ => rfl⟩
    | true =>
      simp only [placeLoop] at h
      cases hcas : cas store (place name id) node next with
      | mk =>
        obtain ⟨hstep, hget, hkeys⟩ := cas_store hname hnext hnode hcas
        rw [hcas] at h
        split at h
        · rename_i hp
          cases h
          refine ⟨hstep, fun node' p hr => ?_, hkeys⟩
          cases hr
          exact hget (fun hempty => hp (hempty ▸ hnil))
        · rename_i hp
          obtain ⟨hstep', hget', hkeys'⟩ := ih (by simpa using hp) h
          exact ⟨hstep.trans hstep', hget', fun key hkey => (hkeys' key hkey).trans (hkeys key hkey)⟩

/-- An actor is routed to the node where the store places it. -/
theorem routeToSession_store (hname : '_' ∉ name.toList) (hcache : CacheStore t cache store)
    (h : routeToSession t c name id cache store = (r, cache', store')) :
    StoreStep t store store' ∧ CacheStore t cache' store' ∧ (∀ node p, r = .ok (node, p) → p ≠ 0 →
      store'.get? (place name id) = some node ∧ t.node2partition node = p) ∧ ∀ key, key ≠ place name
      id → store'.get? key = store.get? key := by
  cases routeToSession_cases h with
  | unoffered =>
    refine ⟨.refl t _, hcache, fun node p hr hp => ?_, fun _ _ => rfl⟩
    cases hr
    exact absurd rfl hp
  | cached _ _ hentry =>
    obtain ⟨-, hget, hp⟩ := hcache _ _ hentry
    refine ⟨.refl t _, hcache.set hget hp, fun node p hr _ => ?_, fun _ _ => rfl⟩
    cases hr
    exact ⟨hget, rfl⟩
  | failed _ _ _ hnext hloop =>
    obtain ⟨hstep, -, hkeys⟩ := placeLoop_store hnil hname hnext hnil hloop
    exact ⟨hstep, hcache.step hstep, nofun, hkeys⟩
  | placed _ node p _ _ hnext hloop hcache' =>
    obtain ⟨hstep, hget, hkeys⟩ := placeLoop_store hnil hname hnext hnil hloop
    obtain ⟨hp, hp0⟩ := placeLoop_ok hloop
    have hplaced := hget node p rfl
    refine ⟨hstep, ?_, fun node' p' hr _ => ?_, hkeys⟩
    · cases hcache' with
      | inl heq => exact heq ▸ hcache.step hstep
      | inr heq => exact heq ▸ (hcache.step hstep).set hplaced (hp ▸ hp0)
    · cases hr
      exact ⟨hplaced, hp.symm⟩

end Routing

/-! ## Sending -/

/-- Where a request for `target` may be written: for an actor, the partition of
the node where the store places it. -/
def Destination (t : Tables) (store : Store) (target : Target) (p : Nat) : Prop :=
  match target with
  | .service name =>
    (t.service2nodes name = [] ∧ p = 0) ∨ ∃ node ∈ t.service2nodes name, p = t.node2partition node
  | .session name id _ _ =>
    (t.service2nodes name = [] ∧ p = 0) ∨
      (p ≠ 0 ∧ ∃ node, store.get? (place name id) = some node ∧ t.node2partition node = p)
  | .node id => p ≠ 0 ∧ p = t.node2partition id

theorem Destination.step (h : Destination t store target p) (hs : StoreStep t store store') :
    Destination t store' target p := by
  cases target with
  | service => exact h
  | node => exact h
  | session name id =>
    rcases h with h | ⟨hp, node, hget, hnode⟩
    · exact .inl h
    · exact .inr ⟨hp, node, hs.stable name id node hget (hnode ▸ hp), hnode⟩

theorem routeToService_destination (t : Tables) (rand : Nat) (name : String) (store : Store) :
    Destination t store (.service name) (routeToService t rand name).2 := by
  obtain ⟨name', hname, ⟨hnone, -, hp⟩ | ⟨hsome, hp, hnode | hp0⟩⟩ :=
    routeToService_routed t rand name
  · simp only [Target.service?, Option.some.injEq] at hname
    exact .inl ⟨hname ▸ hnone, hp⟩
  · simp only [Target.service?, Option.some.injEq] at hname
    exact .inr ⟨_, hname ▸ hnode, hp⟩
  unfold routeToService at hp0 ⊢
  cases hnodes : t.service2nodes name with
  | nil => simp [hnodes] at hp0
  | cons node nodes =>
    refine .inr ⟨_, ?_, rfl⟩
    rw [hnodes]
    exact getD_mod_mem node nodes rand ""

theorem Target.not_mem_of_validName {target : Target}
    (h : target.validName = true) (hname : target.service? = some name) :
    '_' ∉ name.toList := by
  simpa [Target.validName, hname] using h

/-- What the routing of a request does to the store, and where the request is to be written. -/
structure RoutedStore (t : Tables) (w : World) (target : Target) (node : String) (p : Nat)
    (cache : Cache) (store : Store) : Prop where
  step : StoreStep t w.store store
  cache : CacheStore t cache store
  dest : Destination t store target p
  node : p ≠ 0 → t.node2partition node = p
  alt : ∀ id, store.get? (alt id) = w.store.get? (Kar.Rpc.alt id)

section Send

theorem RoutesTo.store {store : Store}
    (hnil : t.node2partition "" = 0) (hvalid : target.validName = true)
    (hcache : CacheStore t w.cache w.store) (h : RoutesTo t c w target node p cache store) :
    RoutedStore t w target node p cache store := by
  cases target with
  | node => exact h.elim
  | service name =>
    obtain ⟨hroute, rfl, rfl⟩ := h
    have hdest := routeToService_destination t c.rand name w.store
    rw [hroute] at hdest
    refine ⟨.refl t _, hcache, hdest, fun hp => ?_, fun _ => rfl⟩
    unfold routeToService at hroute
    split at hroute <;> cases hroute
    · exact absurd rfl hp
    · rfl
  | session name id =>
    obtain ⟨hstep, hcache', hplaced, hkeys⟩ := routeToSession_store hnil
      (Target.not_mem_of_validName hvalid rfl) hcache h
    refine ⟨hstep, hcache', ?_, fun hp => (hplaced node p rfl hp).2,
      fun id' => hkeys _ (alt_ne_place id' name id)⟩
    rcases (routeToSession_ok hcache.cacheOk h).1 with ⟨hnone, -, hp⟩ | ⟨-, -, hp⟩
    · exact .inl ⟨hnone, hp⟩
    · exact .inr ⟨hp, node, hplaced node p rfl hp⟩

/-- `Send` of a request. -/
theorem send_request {v : Request} (hnil : t.node2partition "" = 0) (hvalid : v.target.validName = true)
    (hcache : CacheStore t w.cache w.store) (h : send t c (.request v) w = (r, w')) :
    StoreStep t w.store w'.store ∧ CacheStore t w'.cache w'.store ∧ (∀ id, w'.store.get? (alt id) =
      w.store.get? (alt id)) ∧ (r ≠ .ok () → w'.log = w.log) ∧ (r = .ok () → ∃ p, w'.log =
      w.log.append p (.request (v.wire t.self)) ∧ Destination t w'.store v.target p) := by
  unfold send at h
  split at h
  · cases h
    exact ⟨.refl _ _, hcache, fun _ => rfl, fun _ => rfl, by simp⟩
  -- The three kinds of targets end with the same write.
  have hsend : ∀ p cache store, StoreStep t w.store store → CacheStore t cache store →
      (∀ id, store.get? (alt id) = w.store.get? (alt id)) → Destination t store v.target p →
      sendMessage t c p (.request v) { w with cache := cache, store := store } = (r, w') →
      StoreStep t w.store w'.store ∧ CacheStore t w'.cache w'.store ∧ (∀ id, w'.store.get? (alt id)
        = w.store.get? (alt id)) ∧ (r ≠ .ok () → w'.log = w.log) ∧ (r = .ok () → ∃ p, w'.log =
        w.log.append p (.request (v.wire t.self)) ∧ Destination t w'.store v.target p) := by
    intro p cache store hstep hcache' halt hdest hsend
    rcases sendMessage_cases hsend with ⟨rfl, rfl⟩ | ⟨rfl, rfl⟩
    · exact ⟨hstep, hcache', halt, fun hne => absurd rfl hne, fun _ => ⟨p, rfl, hdest⟩⟩
    · exact ⟨hstep, hcache', halt, fun _ => rfl, by simp⟩
  have hrouted : ∀ node p cache store, RoutesTo t c w v.target node p cache store →
      RoutedStore t w v.target node p cache store := fun _ _ _ _ hroute =>
    hroute.store hnil hvalid hcache
  cases htarget : v.target with
  | service =>
    simp only [htarget] at h hsend hrouted
    have hs := hrouted _ _ w.cache w.store ⟨rfl, rfl, rfl⟩
    exact hsend _ _ _ hs.step hs.cache hs.alt hs.dest h
  | node =>
    simp only [htarget] at h hsend
    split at h
    · cases h
      exact ⟨.refl _ _, hcache, fun _ => rfl, fun _ => rfl, by simp⟩
    · rename_i hp
      exact hsend _ w.cache w.store (.refl _ _) hcache (fun _ => rfl) ⟨hp, rfl⟩ h
  | session name id =>
    simp only [htarget] at h hsend hrouted
    split at h
    · rename_i hroute
      cases h
      obtain ⟨hstep, hcache', -, hkeys⟩ := routeToSession_store hnil
        (Target.not_mem_of_validName hvalid (htarget ▸ rfl)) hcache hroute
      exact ⟨hstep, hcache', fun id' => hkeys _ (alt_ne_place id' name id), fun _ => rfl, by simp⟩
    · rename_i hroute
      have hs := hrouted _ _ _ _ hroute
      exact hsend _ _ _ hs.step hs.cache hs.alt hs.dest h

/-- `Send` of a response: to its caller, or to the node it is redirected to. -/
theorem send_response (h : send t c (.response x) w = (r, w')) :
    w'.cache = w.cache ∧ ((r = .ok () ∧ t.node2partition x.node ≠ 0 ∧ w'.store = w.store ∧ w'.log =
      w.log.append (t.node2partition x.node) ((Message.response x).wire t.self)) ∨ (r = .ok () ∧
      t.node2partition x.node = 0 ∧ ∃ node, node ≠ "" ∧ w.store.get? (alt x.requestID) = some node ∧
      w'.store = w.store.delete (alt x.requestID) ∧ w'.log = w.log.append (t.node2partition node)
      ((Message.response x).wire t.self)) ∨ (r ≠ .ok () ∧ w'.store = w.store ∧ w'.log = w.log ∧ (r =
      .error .unavailable → t.node2partition x.node = 0 ∧ (w.store.get? (alt x.requestID)).getD "" =
      ""))) := by
  unfold send at h
  split at h
  · cases h
    exact ⟨rfl, .inr (.inr ⟨by simp, rfl, rfl, by simp⟩)⟩
  simp only at h
  split at h
  · rename_i hp
    rcases sendMessage_cases h with ⟨rfl, rfl⟩ | ⟨rfl, rfl⟩
    · exact ⟨rfl, .inl ⟨rfl, hp, rfl, rfl⟩⟩
    · exact ⟨rfl, .inr (.inr ⟨by simp, rfl, rfl, by simp⟩)⟩
  rename_i hp
  have hp0 : t.node2partition x.node = 0 := by simpa using hp
  split at h
  · rename_i hempty
    cases h
    exact ⟨rfl, .inr (.inr ⟨by simp, rfl, rfl, fun _ => ⟨hp0, hempty⟩⟩)⟩
  rename_i hnode
  split at h
  · rename_i w₁ hsend
    cases h
    rcases sendMessage_cases hsend with ⟨-, rfl⟩ | ⟨hr, -⟩
    · refine ⟨rfl, .inr (.inl ⟨rfl, hp0, _, hnode, ?_, rfl, rfl⟩)⟩
      cases hget : w.store.get? (alt x.requestID) with
      | none => simp [hget] at hnode
      | some => rfl
    · cases hr
  · rename_i e w₁ hsend
    cases h
    rcases sendMessage_cases hsend with ⟨hr, -⟩ | ⟨hr, rfl⟩
    · cases hr
    · cases hr
      exact ⟨rfl, .inr (.inr ⟨by simp, rfl, rfl, by simp⟩)⟩

/-- `Send` of a `Done`. -/
theorem send_done (h : send t c (.done d) w = (r, w')) :
    w'.cache = w.cache ∧ w'.store = w.store ∧ (r = .error .unavailable → False) ∧ (r = .ok () →
      w'.log = w.log.append 0 ((Message.done d).wire t.self)) ∧ (r ≠ .ok () → w'.log = w.log) := by
  unfold send at h
  split at h
  · cases h
    exact ⟨rfl, rfl, by simp, by simp, fun _ => rfl⟩
  · rcases sendMessage_cases h with ⟨rfl, rfl⟩ | ⟨rfl, rfl⟩
    · exact ⟨rfl, rfl, by simp, fun _ => rfl, fun hne => absurd rfl hne⟩
    · exact ⟨rfl, rfl, by simp, by simp, fun _ => rfl⟩

end Send

/-! ## A recovery -/

/-- The cache repeats the store, and the requests written so far are where the
store places them. -/
structure WorldOk (t : Tables) (w : World) : Prop where
  cache : CacheStore t w.cache w.store
  dest : ∀ p v, (p, Message.request v) ∈ w.sent → Destination t w.store v.target p

theorem worldOk_start (t : Tables) (log : Log) (store : Store) :
    WorldOk t (.start log store) :=
  ⟨cacheStore_empty t store, fun p v h => by simp [World.start] at h⟩

section Perform

variable {t : Tables} {c : Chance} {w w' : World} {action : Action} {r : Except SendError Unit}

/-- The store moves on. -/
theorem WorldOk.step (hw : WorldOk t w)
    (hstep : StoreStep t w.store store) (hcache : CacheStore t cache store) :
    StoreStep t w.store store ∧ WorldOk t { w with cache := cache, store := store } :=
  ⟨hstep, hcache, fun q v hv => (hw.dest q v hv).step hstep⟩

/-- A message is written, or not. -/
theorem WorldOk.write (hw : WorldOk t w)
    (hdest : ∀ v, m = .request v → Destination t w.store v.target p)
    (h : sendMessage t c p m w = (r, w')) : w'.store = w.store ∧ WorldOk t w' := by
  rcases sendMessage_cases h with ⟨rfl, rfl⟩ | ⟨rfl, rfl⟩
  · refine ⟨rfl, hw.cache, fun q v hv => ?_⟩
    rcases mem_append.mp hv with hv | hv
    · exact hw.dest q v hv
    simp only [mem_singleton, Prod.mk.injEq] at hv
    obtain ⟨rfl, hm⟩ := hv
    cases m with
    | request u =>
      cases hm
      simpa using hdest u rfl
    | response => cases hm
    | done => cases hm
  · exact ⟨rfl, hw⟩

theorem redirect_step (msg : Request) (node : String) (store : Store) :
    StoreStep t store (redirect msg node store) := by
  unfold redirect
  split
  · exact .of_eq (fun name id => GoMap.get?_set_of_ne _ (alt_ne_place msg.childID name id).symm _)
  · exact .refl t store

/-- One send of a recovery. -/
theorem Action.perform_store (hnil : t.node2partition "" = 0)
    (hvalid : ∀ msg drop, action = .resend msg drop → msg.target.validName = true)
    (hw : WorldOk t w) (h : action.perform t c w = (r, w')) :
    StoreStep t w.store w'.store ∧ WorldOk t w' := by
  have hrefl := StoreStep.refl t w.store
  cases Action.perform_sends h with
  | respond _ _ _ h =>
    obtain ⟨hstore, hw'⟩ := hw.write (by simp) h
    exact ⟨hstore ▸ hrefl, hw'⟩
  | nodeCall _ _ _ _ _ _ h =>
    obtain ⟨hstore, hw'⟩ := hw.write (by simp) h
    exact ⟨hstore ▸ hrefl, hw'⟩
  | nodeTell => exact ⟨hrefl, hw⟩
  | unrouted msg drop _ _ _ _ _ _ _ htarget hroute =>
    obtain ⟨hstep, hcache, -, -⟩ := routeToSession_store hnil
      (Target.not_mem_of_validName (hvalid msg drop rfl) (htarget ▸ rfl)) hw.cache hroute
    exact hw.step hstep hcache
  | kept msg _ _ _ hroute =>
    have hs := hroute.store hnil (hvalid msg true rfl) hw.cache
    exact hw.step hs.step hs.cache
  | resent msg drop node _ _ store _ _ hroute _ h =>
    have hs := hroute.store hnil (hvalid msg drop rfl) hw.cache
    have halt := redirect_step (t := t) msg node store
    obtain ⟨hstep, hw₁⟩ := hw.step (hs.step.trans halt) (hs.cache.step halt)
    obtain ⟨hstore, hw'⟩ := hw₁.write (fun v hv => Message.request.inj hv ▸ hs.dest.step halt) h
    exact ⟨hstore ▸ hstep, hw'⟩

/-- What every send of a recovery does, its sends do one after the other. -/
theorem perform_rel (inv : World → Prop) (rel : World → World → Prop) (hrefl : ∀ w, rel w w)
    (htrans : ∀ w₁ w₂ w₃, rel w₁ w₂ → rel w₂ w₃ → rel w₁ w₃)
    (hact : ∀ action ∈ actions, ∀ c w r w', inv w → action.perform t c w = (r, w') →
      rel w w' ∧ inv w') (hw : inv w) (h : perform t cs actions w = (r, w')) : rel w w' ∧ inv w' := by
  induction actions generalizing cs w with
  | nil =>
    cases h
    exact ⟨hrefl _, hw⟩
  | cons action _ ih =>
    rw [perform] at h
    cases hperf : action.perform t (cs 0) w with
    | mk res =>
      obtain ⟨hrel, hw₁⟩ := hact action mem_cons_self _ _ _ _ hw hperf
      rw [hperf] at h
      cases res with
      | error =>
        cases h
        exact ⟨hrel, hw₁⟩
      | ok _ =>
        obtain ⟨hrel', hw'⟩ := ih (fun a ha => hact a (mem_cons_of_mem _ ha)) hw₁ h
        exact ⟨htrans _ _ _ hrel hrel', hw'⟩

theorem perform_store (hnil : t.node2partition "" = 0)
    (hvalid : ∀ msg drop, Action.resend msg drop ∈ actions → msg.target.validName = true)
    (hw : WorldOk t w) (h : perform t cs actions w = (r, w')) :
    StoreStep t w.store w'.store ∧ WorldOk t w' :=
  perform_rel (WorldOk t) (fun w w' => StoreStep t w.store w'.store) (fun w => .refl t w.store) (fun
    _ _ _ h₁ h₂ => h₁.trans h₂) (fun _ hmem _ _ _ _ hw h => Action.perform_store hnil (fun msg drop
    heq => hvalid msg drop (heq ▸ hmem)) hw h) hw h

end Perform

section Recover

/-- Emptying the dead partitions is all that `recover` does after its sends. -/
theorem perform_of_recover (h : recover t live c cs (.start log store) = (.ok (), w)) :
    ∃ w₁, perform t cs (recoverActions live c log) (.start log store) = (.ok (), w₁) ∧
      w.store = w₁.store ∧ w.sent = w₁.sent := by
  unfold recover at h
  rw [World.start_log] at h
  cases hperf : perform t cs (recoverActions live c log) (.start log store) with
  | mk res w₁ =>
    rw [hperf] at h
    cases res with
    | error => simp at h
    | ok =>
      simp only [Prod.mk.injEq, true_and] at h
      exact ⟨w₁, rfl, by rw [← h], by rw [← h]⟩

theorem validName_of_resend (hc : c.Covers log)
    (hvalid : ∀ p v, .request v ∈ log.messages p → v.target.validName = true)
    (msg : Request) (drop : Bool) (hmem : Action.resend msg drop ∈ recoverActions live c log) :
    msg.target.validName = true := by
  obtain ⟨-, qw, hlatest, heq⟩ := mem_resends live _ (r := (msg, drop)) (mem_resends_iff.mpr hmem)
  have hread := (mem_requestsOf.mp (latestRead_mem hlatest)).1
  have hq := hvalid qw.1 qw.2 ((mem_reads hc).mp hread)
  have hmsg := congrArg (fun r => r.1.target) heq
  rw [hmsg]
  simpa [Target.validName] using hq

/-- A recovery keeps the placements on nodes with a partition, and writes a request
for an actor where the store places the actor. -/
theorem recover_store (hc : c.Covers log) (hnil : t.node2partition "" = 0)
    (hvalid : ∀ p v, .request v ∈ log.messages p → v.target.validName = true)
    (h : recover t live c cs (.start log store) = (.ok (), w)) :
    StoreStep t store w.store ∧
      ∀ p v, (p, .request v) ∈ w.sent → Destination t w.store v.target p := by
  obtain ⟨w₁, hperf, hstore, hsent⟩ := perform_of_recover h
  obtain ⟨hstep, hw₁⟩ := perform_store hnil (validName_of_resend hc hvalid)
    (worldOk_start t log store) hperf
  rw [hstore, hsent]
  exact ⟨hstep, hw₁.dest⟩

end Recover

/-! ## Redirections

`resend` sets the key `alt` of the child of a request to the node that the request
goes to. -/

section Alt

variable {t : Tables} (hnil : t.node2partition "" = 0)

include hnil

/-- One send of a recovery leaves the key of `id` alone unless it sends a request with child `id`, and
then the key leads to the node that the request is sent to. -/
theorem Action.perform_alt {action : Action} (hid : id ≠ "")
    (hvalid : ∀ msg drop, action = .resend msg drop → msg.target.validName = true) (hw : WorldOk t w)
    (h : action.perform t c w = (r, w')) :
    ((∀ msg drop, action = .resend msg drop → msg.childID ≠ id) → w'.store.get? (alt id) =
        w.store.get? (alt id)) ∧ ∀ q v, (q, Message.request v) ∈ w'.sent → (q, Message.request v) ∈
        w.sent ∨ ∃ msg drop, action = .resend msg drop ∧ v.childID = msg.childID ∧ (msg.childID = id
        → q ≠ 0 → ∃ node, w'.store.get? (alt id) = some node ∧ t.node2partition node = q) := by
  -- A message other than a request leaves the store alone.
  have hrecord : ∀ p m, (∀ v, m ≠ .request v) → sendMessage t c p m w = (r, w') →
      w'.store = w.store ∧ ∀ q v, (q, Message.request v) ∈ w'.sent → (q, Message.request v) ∈ w.sent := by
    intro p m hm hsend
    rcases sendMessage_cases hsend with ⟨rfl, rfl⟩ | ⟨rfl, rfl⟩
    · refine ⟨rfl, fun q v hv => (mem_append.mp hv).resolve_right ?_⟩
      cases m with
      | request u => exact absurd rfl (hm u)
      | response => simp [Message.wire]
      | done => simp [Message.wire]
    · exact ⟨rfl, fun _ _ hv => hv⟩
  cases Action.perform_sends h with
  | respond _ _ _ h =>
    obtain ⟨hstore, hsent⟩ := hrecord _ _ (by simp) h
    exact ⟨fun _ => by rw [hstore], fun q v hv => Or.inl (hsent q v hv)⟩
  | nodeCall v _ _ _ _ _ h =>
    obtain ⟨hstore, hsent⟩ := hrecord _ _ (by simp) h
    exact ⟨fun _ => by rw [hstore], fun q v hv => Or.inl (hsent q v hv)⟩
  | nodeTell v => exact ⟨fun _ => rfl, fun q v hv => Or.inl hv⟩
  | unrouted msg drop name sid _ _ _ _ _ htarget hroute =>
    have hkeys := (routeToSession_store hnil
      (Target.not_mem_of_validName (hvalid msg drop rfl) (htarget ▸ rfl)) hw.cache hroute).2.2.2
    exact ⟨fun _ => hkeys _ (alt_ne_place id name sid), fun q v hv => Or.inl hv⟩
  | kept msg _ _ _ hroute =>
    have hs := hroute.store hnil (hvalid msg true rfl) hw.cache
    exact ⟨fun _ => hs.alt id, fun q v hv => Or.inl hv⟩
  | resent msg drop node _ _ store _ _ hroute _ h =>
    have hs := hroute.store hnil (hvalid msg drop rfl) hw.cache
    have hset : msg.childID ≠ id →
        (redirect msg node store).get? (alt id) = w.store.get? (alt id) := by
      intro hne
      unfold redirect
      split
      · rw [GoMap.get?_set_of_ne _ (fun heq => hne (alt_inj heq).symm), hs.alt]
      · exact hs.alt id
    rcases sendMessage_cases h with ⟨rfl, rfl⟩ | ⟨rfl, rfl⟩
    · refine ⟨fun hne => hset (hne msg drop rfl), fun q v hv => ?_⟩
      refine (mem_append.mp hv).imp_right fun hv => ?_
      simp only [mem_singleton, Prod.mk.injEq, Message.wire, Message.request.injEq] at hv
      obtain ⟨rfl, rfl⟩ := hv
      refine ⟨msg, drop, rfl, by simp, fun hchild hq => ⟨node, ?_, hs.node hq⟩⟩
      have hne : node ≠ "" := by
        intro heq
        rw [← hs.node hq, heq] at hq
        exact hq hnil
      simp only [redirect, hchild]
      rw [if_pos ⟨hid, hne⟩, GoMap.get?_set_self]
    · exact ⟨fun hne => hset (hne msg drop rfl), fun q v hv => Or.inl hv⟩

/-- A recovery that sends no request with child `id` leaves the key of `id` alone. -/
theorem perform_alt_of_ne (hid : id ≠ "")
    (hvalid : ∀ msg drop, Action.resend msg drop ∈ actions → msg.target.validName = true)
    (hw : WorldOk t w) (h : perform t cs actions w = (r, w'))
    (hne : ∀ msg drop, Action.resend msg drop ∈ actions → msg.childID ≠ id) :
    w'.store.get? (alt id) = w.store.get? (alt id) ∧
      ∀ q v, (q, .request v) ∈ w'.sent → v.childID = id → (q, .request v) ∈ w.sent := by
  refine (perform_rel (WorldOk t) (fun w w' =>
    w'.store.get? (alt id) = w.store.get? (alt id) ∧
      ∀ q v, (q, Message.request v) ∈ w'.sent → v.childID = id → (q, Message.request v) ∈ w.sent)
    (fun w => ⟨rfl, fun q v hv _ => hv⟩) (fun w₁ w₂ w₃ h₁ h₂ => ⟨h₂.1.trans h₁.1,
      fun q v hv hchild => h₁.2 q v (h₂.2 q v hv hchild) hchild⟩) ?_ hw h).1
  intro action hmem c w r w' hw h
  have hvalid₁ : ∀ msg drop, action = .resend msg drop → msg.target.validName = true :=
    fun msg drop heq => hvalid msg drop (heq ▸ hmem)
  have hne₁ : ∀ msg drop, action = .resend msg drop → msg.childID ≠ id :=
    fun msg drop heq => hne msg drop (heq ▸ hmem)
  obtain ⟨hkeep, hsent⟩ := action.perform_alt hnil hid hvalid₁ hw h
  refine ⟨⟨hkeep hne₁, fun q v hv hchild => (hsent q v hv).resolve_right ?_⟩,
    (action.perform_store hnil hvalid₁ hw h).2⟩
  intro hnew
  obtain ⟨msg, drop, heq, hmsg, -⟩ := hnew
  exact hne₁ msg drop heq (hmsg.symm.trans hchild)

/-- When one request at most has child `id`, its key leads to the node it is sent to. -/
theorem perform_alt (hid : id ≠ "")
    (hvalid : ∀ msg drop, Action.resend msg drop ∈ actions → msg.target.validName = true)
    (hnodup : ((resends actions).map (fun r => r.1.requestID)).Nodup)
    (hone : ∀ msg drop msg' drop', Action.resend msg drop ∈ actions →
      Action.resend msg' drop' ∈ actions → msg.childID = id → msg'.childID = id →
      msg.requestID = msg'.requestID) (hold : ∀ q v, (q, .request v) ∈ w.sent → v.childID ≠ id)
    (hw : WorldOk t w) (h : perform t cs actions w = (r, w')) {v : Request}
    (hv : (q, .request v) ∈ w'.sent) (hchild : v.childID = id) (hq : q ≠ 0) :
    ∃ node, w'.store.get? (alt id) = some node ∧ t.node2partition node = q := by
  induction actions generalizing cs w with
  | nil =>
    cases h
    exact absurd hchild (hold q v hv)
  | cons action actions ih =>
    rw [perform] at h
    cases hact : action.perform t (cs 0) w with
    | mk res w₁ =>
      have hvalid₁ : ∀ msg drop, action = .resend msg drop → msg.target.validName = true :=
        fun msg drop heq => hvalid msg drop (heq ▸ mem_cons_self)
      obtain ⟨-, hsent⟩ := action.perform_alt hnil hid hvalid₁ hw hact
      have hw₁ := (action.perform_store hnil hvalid₁ hw hact).2
      -- What the first action has sent with this child is where the key leads.
      have hfirst : ∀ q v, (q, .request v) ∈ w₁.sent → v.childID = id → q ≠ 0 →
          ∃ node, w₁.store.get? (alt id) = some node ∧ t.node2partition node = q := by
        intro q v hv hchild hq
        rcases hsent q v hv with hv | ⟨msg, drop, -, hmsg, hset⟩
        · exact absurd hchild (hold q v hv)
        · exact hset (hmsg.symm.trans hchild) hq
      rw [hact] at h
      cases res with
      | error =>
        cases h
        exact hfirst q v hv hchild hq
      | ok _ =>
        have hvalid' : ∀ msg drop, Action.resend msg drop ∈ actions → msg.target.validName = true :=
            fun msg drop hmem => hvalid msg drop (mem_cons_of_mem _ hmem)
        by_cases hthis : ∃ msg drop, action = .resend msg drop ∧ msg.childID = id
        · obtain ⟨msg, drop, rfl, hmsg⟩ := hthis
          have hne : ∀ msg' drop', Action.resend msg' drop' ∈ actions → msg'.childID ≠ id := by
            intro msg' drop' hmem hmsg'
            have hsame := hone msg drop msg' drop' mem_cons_self (mem_cons_of_mem _ hmem) hmsg hmsg'
            rw [resends, filterMap_cons_some (by rfl), map_cons, nodup_cons] at hnodup
            have hmem' : (msg', drop') ∈ resends actions := mem_resends_iff.mpr hmem
            exact hnodup.1 (hsame ▸ mem_map_of_mem (f := fun r => r.1.requestID) hmem')
          obtain ⟨hkeep, hnone⟩ := perform_alt_of_ne hnil hid hvalid' hw₁ h hne
          rw [hkeep]
          exact hfirst q v (hnone q v hv hchild) hchild hq
        · refine ih hvalid' ?_ ?_ ?_ hw₁ h
          · exact hnodup.sublist (((sublist_cons_self action actions).filterMap _).map _)
          · exact fun msg drop msg' drop' hmem hmem' =>
              hone msg drop msg' drop' (mem_cons_of_mem _ hmem) (mem_cons_of_mem _ hmem')
          · intro q v hv hchild
            rcases hsent q v hv with hv | ⟨msg, drop, heq, hmsg, -⟩
            · exact hold q v hv hchild
            · exact hthis ⟨msg, drop, heq, hmsg.symm.trans hchild⟩

/-- A recovery sets the key of `id` when it sends the request that waits for `id` to a
node, and does not touch it when it sends no such request. -/
theorem recover_alt (hid : id ≠ "")
    (hc : c.Covers log) (hvalid : ∀ p v, .request v ∈ log.messages p → v.target.validName = true)
    (h : recover t live c cs (.start log store) = (.ok (), w)) :
    ((∀ k ∈ resentIds live (c.reads log), childOf (c.reads log) k ≠ id) → w.store.get? (alt id) =
        store.get? (alt id)) ∧ ((∀ k ∈ resentIds live (c.reads log), ∀ k' ∈ resentIds live (c.reads
        log), childOf (c.reads log) k = id → childOf (c.reads log) k' = id → k = k') → ∀ q v, (q,
        .request v) ∈ w.sent → v.childID = id → q ≠ 0 → ∃ node, w.store.get? (alt id) = some node ∧
        t.node2partition node = q) := by
  obtain ⟨w₁, hperf, hstore, hsent⟩ := perform_of_recover h
  have hvalid' : ∀ msg drop, Action.resend msg drop ∈ recoverActions live c log →
      msg.target.validName = true := validName_of_resend hc hvalid
  have hw := worldOk_start t log store
  have hresend : ∀ msg drop, Action.resend msg drop ∈ recoverActions live c log →
      msg.requestID ∈ resentIds live (c.reads log) ∧
        msg.childID = childOf (c.reads log) msg.requestID := by
    intro msg drop hmem
    obtain ⟨hk, qw, -, heq⟩ := mem_resends live _ (r := (msg, drop)) (mem_resends_iff.mpr hmem)
    have hchild := congrArg (fun r => r.1.childID) heq
    simp only [Request.childID_restartAt] at hchild
    exact ⟨hk, hchild⟩
  rw [hstore, hsent]
  refine ⟨fun hne => (perform_alt_of_ne hnil hid hvalid' hw hperf ?_).1, fun hone q v hv hchild hq =>
    perform_alt hnil hid hvalid' ?_ ?_ ?_ hw hperf hv hchild hq⟩
  · intro msg drop hmem
    obtain ⟨hk, hchild⟩ := hresend msg drop hmem
    exact hchild ▸ hne _ hk
  · unfold recoverActions
    rw [resends_ids]
    exact nodup_resentIds live _
  · intro msg drop msg' drop' hmem hmem' hmsg hmsg'
    obtain ⟨hk, hchild⟩ := hresend msg drop hmem
    obtain ⟨hk', hchild'⟩ := hresend msg' drop' hmem'
    exact hone _ hk _ hk' (hchild.symm.trans hmsg) (hchild'.symm.trans hmsg')
  · simp [World.start]

end Alt

end Kar.Rpc
