import Kar.Bindings.Collections
import Kar.Runtime.Application

/-!
# Operations on bindings

`putBinding`, `loadBinding` and `deleteBindings` of `core/internal/runtime/bindings.go`, over the
interface of the collections.  A binding is in a collection in memory and in a hash of the store.

`putBinding` looks for the key of the binding with a pattern and takes the first reply.  It cancels the
old binding, adds the new one and writes the hash, in this order and without a way back.
-/

namespace Kar.Bindings

open Kar.Lib Kar.Store Kar.Runtime List

/-! ## The functions -/

variable (B : Collection σ β) (sc : StoreConfig) (kind : String)

/-- The key that `putBinding` uses and the code that it returns: the first key that matches the
pattern, or a new key for the partition that handles bindings. -/
def putKey (kind : String) (actor : Actor) (id : String) : List String → String × Nat
  | key :: _ => (key, 200)
  | [] => (bindingKey kind actor.type actor.id "0" id, 204)

/-- `HSetMultiple`, which sends no command for an empty map. -/
def hSetAll (db : Db) (key : String) (m : StateHash) : Except String Db :=
  if m.pairs = [] then .ok db
  else
    let r := db.onHash key fun h => ((hSetMultiple h m).1, .ok ())
    r.2.map fun _ => r.1

/-- `HGetAll`: an absent key is an empty hash. -/
def hGetAll (db : Db) (key : String) : Except String StateHash :=
  match db.lookup key with
  | some (.hash h) => .ok h
  | none => .ok ∅
  | some (.text _) => doRaw "HGETALL" (.error wrongType)

/-- A collection and the store, and what a call returns. -/
structure Outcome (σ ρ : Type) where
  mem : σ
  db : Db
  result : ρ

/-- `putBinding`, with the reply of `KEYS` to the pattern.  A panic is an error. -/
def putBinding (actor : Actor) (id payload : String) (reply : List String) (subscribed : Subscribed)
    (mem : σ) (db : Db) : Except String (Outcome σ (Except (Nat × String) Nat)) := do
  let keys ← keys sc reply
  let (key, successCode) := putKey kind actor id keys
  match B.parse actor id key payload with
  | .error err => return ⟨mem, db, .error (400, err)⟩
  | .ok (b, m) =>
    let (mem, _) := B.cancel mem actor id
    match B.add subscribed mem b with
    | (mem, .error f) => return ⟨mem, db, .error f⟩
    | (mem, .ok ()) =>
      let db ← hSetAll db (sc.mangleKey key) m
      return ⟨mem, db, .ok successCode⟩

/-- `loadBinding`: a binding that is loaded or no longer exists is left alone. -/
def loadBinding (actor : Actor) (partition id : String) (subscribed : Subscribed) (mem : σ) (db : Db) :
    Except String (σ × Except String Unit) := do
  let key := bindingKey kind actor.type actor.id partition id
  if B.find mem actor id ≠ [] then
    return (mem, .ok ())
  else
    let data ← hGetAll db (sc.mangleKey key)
    if data.pairs = [] then
      return (mem, .ok ())
    else
      match B.load actor id key data with
      | .error err => return (mem, .error err)
      | .ok b =>
        let (mem, r) := B.add subscribed mem b
        return (mem, r.mapError Prod.snd)

/-- `deleteBindings`: the keys of the bindings that are found in memory are deleted. -/
def deleteBindings (actor : Actor) (id : String) (mem : σ) (db : Db) : Outcome σ Nat :=
  let (mem, found) := B.cancel mem actor id
  ⟨mem, (db.remove (found.map fun b => sc.mangleKey (B.key b))).1, found.length⟩

/-! ## What they do -/

variable {B sc kind} {id payload : String}

/-- The ways in which `putBinding` returns. -/
inductive PutReturns (B : Collection σ β) (sc : StoreConfig) (kind : String) (actor : Actor)
    (id payload : String) (ks : List String) (subscribed : Subscribed) (mem : σ) (db : Db) :
    Outcome σ (Except (Nat × String) Nat) → Prop
  | rejected {err : String}
      (hparse : B.parse actor id (putKey kind actor id ks).1 payload = .error err) :
      PutReturns B sc kind actor id payload ks subscribed mem db ⟨mem, db, .error (400, err)⟩
  | failed {b : β} {m : StateHash} {f : Nat × String}
      (hparse : B.parse actor id (putKey kind actor id ks).1 payload = .ok (b, m))
      (hadd : (B.add subscribed (B.cancel mem actor id).1 b).2 = .error f) :
      PutReturns B sc kind actor id payload ks subscribed mem db
        ⟨(B.add subscribed (B.cancel mem actor id).1 b).1, db, .error f⟩
  | done {b : β} {m : StateHash} {db' : Db}
      (hparse : B.parse actor id (putKey kind actor id ks).1 payload = .ok (b, m))
      (hadd : (B.add subscribed (B.cancel mem actor id).1 b).2 = .ok ())
      (hset : hSetAll db (sc.mangleKey (putKey kind actor id ks).1) m = .ok db') :
      PutReturns B sc kind actor id payload ks subscribed mem db
        ⟨(B.add subscribed (B.cancel mem actor id).1 b).1, db', .ok (putKey kind actor id ks).2⟩

theorem putBinding_returns (h : putBinding B sc kind actor id payload reply subscribed mem db = .ok o) :
    ∃ ks, keys sc reply = .ok ks ∧
      PutReturns B sc kind actor id payload ks subscribed mem db o := by
  obtain ⟨ks, hks, h⟩ := bind_eq_ok.mp h
  refine ⟨ks, hks, ?_⟩
  simp only at h
  split at h
  · rename_i err hparse
    cases h
    exact .rejected hparse
  rename_i b m hparse
  split at h
  · rename_i mem' f hadd
    cases h
    have hmem : mem' = (B.add subscribed (B.cancel mem actor id).1 b).1 := by rw [hadd]
    rw [hmem]
    exact .failed hparse (by rw [hadd])
  · rename_i mem' hadd
    obtain ⟨db', hset, h⟩ := bind_eq_ok.mp h
    cases h
    have hmem : mem' = (B.add subscribed (B.cancel mem actor id).1 b).1 := by rw [hadd]
    rw [hmem]
    exact .done hparse (by rw [hadd]) hset

/-- The converse. -/
theorem PutReturns.putBinding_eq
    (hks : keys sc reply = .ok ks) (h : PutReturns B sc kind actor id payload ks subscribed mem db o) :
    putBinding B sc kind actor id payload reply subscribed mem db = .ok o := by
  refine bind_eq_ok.mpr ⟨ks, hks, ?_⟩
  cases h with
  | rejected hparse =>
    simp only [hparse]
    rfl
  | @failed b m f hparse hadd =>
    have hpair : B.add subscribed (B.cancel mem actor id).1 b =
        ((B.add subscribed (B.cancel mem actor id).1 b).1, .error f) := Prod.ext rfl hadd
    simp only [hparse]
    rw [hpair]
    rfl
  | @done b m db' hparse hadd hset =>
    have hpair : B.add subscribed (B.cancel mem actor id).1 b =
        ((B.add subscribed (B.cancel mem actor id).1 b).1, .ok ()) := Prod.ext rfl hadd
    simp only [hparse]
    rw [hpair]
    exact bind_eq_ok.mpr ⟨db', hset, rfl⟩

/-! ### The hash of a binding -/

section Hash

variable {h m : StateHash}

theorem lookup_hSetAll_of_ne (hset : hSetAll db key m = .ok db') (hne : key' ≠ key) :
    db'.lookup key' = db.lookup key' := by
  unfold hSetAll at hset
  split at hset
  · cases hset
    rfl
  have hok : (db.onHash key fun h => ((hSetMultiple h m).1, .ok ())).1 = db' := by
    cases hr : (db.onHash key fun h => ((hSetMultiple h m).1, .ok ())).2 with
    | error => simp [hr, Except.map] at hset
    | ok => simpa [hr, Except.map] using hset
  rw [← hok]
  exact Db.lookup_onHash_of_ne hne _

theorem lookup_hSetMultiple (h m : StateHash) :
    (hSetMultiple h m).1.lookup f = (m.lookup f).or (h.lookup f) := by
  have hpairs : (GoMap.ofList m.pairs).get? f = m.lookup f :=
    Hash.get?_ofList_pairs (List.Perm.refl _) f
  unfold hSetMultiple
  split
  · rename_i hnil
    rw [hnil] at hpairs
    rw [← hpairs]
    rfl
  · rw [Hash.lookup_hset, hpairs]

theorem pairs_eq_nil_iff : h.pairs = [] ↔ ∀ f, h.lookup f = none := by
  constructor
  · intro hnil f
    cases hf : h.lookup f with
    | none => rfl
    | some => exact absurd (Hash.mem_pairs.mpr hf) (by rw [hnil]; exact not_mem_nil)
  · intro hnone
    refine eq_nil_iff_forall_not_mem.mpr fun p hp => ?_
    obtain ⟨f, v⟩ := p
    have hf := Hash.mem_pairs.mp hp
    rw [hnone f] at hf
    simp at hf

/-- A hash that is stored is read back. -/
theorem hGetAll_putHash (db : Db) (key : String) (h : StateHash) :
    ∃ h', hGetAll (db.putHash key h) key = .ok h' ∧ ∀ f, h'.lookup f = h.lookup f := by
  by_cases hnil : h.pairs = []
  · refine ⟨∅, ?_, fun f => ?_⟩
    · rw [Db.putHash, if_pos hnil, hGetAll, AList.lookup_erase]
    · rw [pairs_eq_nil_iff.mp hnil f]
      rfl
  · refine ⟨h, ?_, fun f => rfl⟩
    rw [Db.putHash, if_neg hnil, hGetAll, AList.lookup_insert]

/-- What is read is the empty hash of an absent key, or a hash of the store. -/
theorem hGetAll_eq_ok (hget : hGetAll db key = .ok h) :
    db.lookup key = none ∧ h = ∅ ∨ db.lookup key = some (.hash h) := by
  unfold hGetAll at hget
  cases hlookup : db.lookup key with
  | none =>
    rw [hlookup] at hget
    cases hget
    exact .inl ⟨rfl, rfl⟩
  | some v =>
    rw [hlookup] at hget
    cases v with
    | hash =>
      cases hget
      exact .inr rfl
    | text => simp [doRaw, Except.mapError] at hget

/-- A command on a hash that can be read. -/
theorem onHash_of_hGetAll (hget : hGetAll db key = .ok h) :
    db.onHash key f = (db.putHash key (f h).1, (f h).2) := by
  unfold Db.onHash
  cases hGetAll_eq_ok hget with
  | inl hnone => rw [hnone.1, hnone.2]
  | inr hhash => rw [hhash]

/-- The stored hash after `HSET`: the new fields, and the old ones that are not overwritten. -/
theorem hGetAll_hSetAll (hget : hGetAll db key = .ok h) (hset : hSetAll db key m = .ok db') :
    ∃ h', hGetAll db' key = .ok h' ∧ ∀ f, h'.lookup f = (m.lookup f).or (h.lookup f) := by
  unfold hSetAll at hset
  split at hset
  · rename_i hnil
    cases hset
    refine ⟨h, hget, fun f => ?_⟩
    rw [pairs_eq_nil_iff.mp hnil f]
    rfl
  · rw [onHash_of_hGetAll hget] at hset
    cases hset
    obtain ⟨h', hget', hlookup⟩ := hGetAll_putHash db key (hSetMultiple h m).1
    refine ⟨h', hget', fun f => ?_⟩
    rw [hlookup, lookup_hSetMultiple]

end Hash

/-! ## Failed puts -/

/-- The payload is rejected. -/
def Collection.Rejects (B : Collection σ β) (payload : String) : Prop :=
  ∃ err, B.parse ⟨"", ""⟩ "" "" payload = .error err

/-- The bindings in memory after a subscription failed: the old ones are cancelled. -/
theorem Lawful.active_failed (hB : Lawful B active)
    (hadd : (B.add subscribed (B.cancel mem actor id).1 b).2 = .error f) :
    (active (B.add subscribed (B.cancel mem actor id).1 b).1).Perm
      ((active mem).filter fun b => ¬ B.Selects actor id b) :=
  (hB.not_added _ _ _ _ hadd).trans (hB.remaining mem actor id)

/-- The bindings in memory after a put: the new one has taken the place of the old ones. -/
theorem Lawful.active_put (hB : Lawful B active) (hparse : B.parse actor id key payload = .ok (b, m))
    (hadd : (B.add subscribed (B.cancel mem actor id).1 b).2 = .ok ()) :
    (active (B.add subscribed (B.cancel mem actor id).1 b).1).Perm
      (b :: (active mem).filter fun b => ¬ B.Selects actor id b) := by
  obtain ⟨hactor, hid, -⟩ := hB.parsed _ _ _ _ _ _ hparse
  refine (hB.added _ _ _ hadd fun b' hb' hsame => ?_).trans ((hB.remaining mem actor id).cons b)
  have hnot := (mem_filter.mp ((hB.remaining mem actor id).mem_iff.mp hb')).2
  rw [hactor, hid] at hsame
  exact absurd (show B.Selects actor id b' from ⟨hsame.1, .inr hsame.2⟩) (by simpa using hnot)

/-- The binding that is found after a put is the new one. -/
theorem Lawful.eq_of_find_put (hB : Lawful B active)
    (hparse : B.parse actor id key payload = .ok (b', m))
    (hadd : (B.add subscribed (B.cancel mem actor id).1 b').2 = .ok ())
    (hb : b ∈ B.find (B.add subscribed (B.cancel mem actor id).1 b').1 actor id) : b = b' := by
  obtain ⟨hmem, hsel⟩ := mem_filter.mp ((hB.find ..).mem_iff.mp hb)
  rcases mem_cons.mp ((hB.active_put hparse hadd).mem_iff.mp hmem) with heq | hold
  · exact heq
  · have hnot := (mem_filter.mp hold).2
    exact absurd (decide_eq_true_eq.mp hsel) (by simpa using hnot)

/-- A part of a list is all of it if nothing is left out. -/
theorem perm_filter_not_iff {l : List β} [DecidablePred p] :
    (l.filter fun b => ¬ p b).Perm l ↔ (l.filter fun b => p b) = [] := by
  constructor
  · intro h
    refine filter_eq_nil_iff.mpr fun b hb => ?_
    have hmem := h.mem_iff.mpr hb
    simpa using (mem_filter.mp hmem).2
  · intro h
    rw [filter_eq_self.mpr]
    intro b hb
    simpa using filter_eq_nil_iff.mp h b hb

/-- **A failed put.**  A put that returns an error leaves the store and the bindings in memory as they
were exactly if the payload is rejected or no binding with the id is active. -/
theorem failed_put_unchanged_iff (c : Codec) (app : String) (kind : Kind) (actor : Actor)
    (id payload : String) (reply : List String) (subscribed : Subscribed) (mem : kind.Memory) (db : Db)
    (o : Outcome kind.Memory (Except (Nat × String) Nat)) (f : Nat × String)
    (hput : putBinding (kind.collection c) (redisConfig app) kind.name actor id payload reply subscribed
      mem db = .ok o) (hfailed : o.result = .error f) :
    (kind.active o.mem).Perm (kind.active mem) ∧ o.db = db ↔
      (kind.collection c).Rejects payload ∨ (kind.collection c).find mem actor id = [] := by
  have hB := kind.lawful c
  obtain ⟨ks, -, hreturns⟩ := putBinding_returns hput
  cases hreturns with
  | rejected hparse =>
    have hrejects : (kind.collection c).Rejects payload := ⟨_, hB.rejected _ _ _ _ _ hparse _ _ _⟩
    exact ⟨fun _ => Or.inl hrejects, fun _ => ⟨List.Perm.refl _, rfl⟩⟩
  | failed hparse hadd =>
    have hnot : ¬ (kind.collection c).Rejects payload := by
      intro h
      obtain ⟨err, herr⟩ := h
      rw [hB.rejected _ _ _ _ _ herr] at hparse
      simp at hparse
    have hmem := hB.active_failed hadd
    have hfind : (kind.collection c).find mem actor id = [] ↔
        ((kind.active mem).filter fun b => (kind.collection c).Selects actor id b) = [] := by
      constructor
      · intro h
        exact ((hB.find mem actor id).symm.trans (by rw [h])).eq_nil
      · intro h
        exact ((hB.find mem actor id).trans (by rw [h])).eq_nil
    rw [or_iff_right hnot, hfind, ← perm_filter_not_iff, and_iff_left rfl]
    exact ⟨fun h => hmem.symm.trans h, fun h => hmem.trans h⟩
  | done => simp at hfailed

/-- The put of a new subscription that fails changes nothing. -/
theorem new_subscription_fails :
    ∃ o, putBinding (Kind.subscriptions.collection plainCodec) (redisConfig "shop")
        Kind.subscriptions.name ⟨"Cart", "c"⟩ "s" "orders" [] (.failed "no brokers")
        Kind.subscriptions.empty ∅ = .ok o ∧ o.result = .error (500, "no brokers") ∧
      (Kind.subscriptions.active o.mem).Perm (Kind.subscriptions.active Kind.subscriptions.empty) ∧
      o.db = ∅ :=
  ⟨_, rfl, rfl, (failed_put_unchanged_iff plainCodec "shop" .subscriptions ⟨"Cart", "c"⟩ "s" "orders"
    [] (.failed "no brokers") Kind.subscriptions.empty ∅ _ _ rfl rfl).mpr (Or.inr rfl)⟩

/-- A subscription of an actor to the topic `orders`. -/
private def orders : Source :=
  ⟨⟨"Cart", "c"⟩, "s", "binding_0_subscriptions_Cart_c_s", "/event", "orders", "", "", false⟩

/-- A put for the id of an active subscription fails, and the subscription is cancelled. -/
theorem failed_put_cancels_subscription :
    (Sources.empty.insert orders).find ⟨"Cart", "c"⟩ "s" = [orders] ∧
      ∃ o, putBinding (Kind.subscriptions.collection plainCodec) (redisConfig "shop")
          Kind.subscriptions.name ⟨"Cart", "c"⟩ "s" "refunds"
          ["kar_shop_binding_0_subscriptions_Cart_c_s"] (.failed "no brokers")
          (Sources.empty.insert orders) ∅ = .ok o ∧ o.result = .error (500, "no brokers") ∧
        Sources.find o.mem ⟨"Cart", "c"⟩ "s" = [] :=
  ⟨by decide +kernel, _, rfl, rfl, by decide +kernel⟩

end Kar.Bindings
