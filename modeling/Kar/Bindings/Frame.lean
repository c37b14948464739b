import Kar.Bindings.LoadBindings
import Kar.Bindings.Reload

/-!
# Bindings and other bindings

What `putBinding` and `deleteBindings` do to the bindings that they are not called for.

`putBinding` looks for the key of its binding with a pattern in which the partition is a star.  The
names in the pattern are not quoted, so it also matches keys of other bindings: a glob character in a
name stands for other characters, and the star stands for names with separators.  The key that is
listed first is the one that is written.  `PutApart` says that no other binding is in the way.
`deleteBindings` deletes the keys that the bindings in memory carry.
-/

namespace Kar.Bindings

open Kar.Lib Kar.Store Kar.Runtime

/-! ## The other bindings are unchanged -/

/-- The bindings that are not `mine` are as they were, in the store and in memory. -/
structure Undisturbed (c : Codec) (appName : String) (kind : Kind) (bindings : List Persisted)
    (mine : Kind → Actor → String → Bool) (mem mem' : kind.Memory) (db db' : Db) : Prop where
  persisted : ∀ b ∈ bindings, ¬ mine b.kind b.actor b.id →
    db'.lookup (mangleKey appName b.key) = db.lookup (mangleKey appName b.key)
  memory : ((kind.active mem').filter fun b =>
      ¬ mine kind ((kind.collection c).actor b) ((kind.collection c).id b)).Perm
    ((kind.active mem).filter fun b =>
      ¬ mine kind ((kind.collection c).actor b) ((kind.collection c).id b))

/-- The binding that a put is for. -/
def putMine (kind : Kind) (actor : Actor) (id : String) (kind' : Kind) (actor' : Actor) (id' : String) :
    Bool :=
  kind' = kind ∧ actor' = actor ∧ id' = id

/-- The bindings that a delete is for: no id stands for all ids. -/
def deleteMine (kind : Kind) (actor : Actor) (id : String) (kind' : Kind) (actor' : Actor)
    (id' : String) : Bool :=
  kind' = kind ∧ actor' = actor ∧ (id = "" ∨ id' = id)

/-- The pattern with which `putBinding` looks for the key. -/
def putPattern (appName : String) (kind : Kind) (actor : Actor) (id : String) : String :=
  mangleKey appName (bindingKey kind.name actor.type actor.id "*" id)

/-- A put leaves the other bindings alone, and the key of the new binding encodes it. -/
def PutUndisturbed (c : Codec) (appName : String) (kind : Kind) (actor : Actor) (id : String)
    (bindings : List Persisted) (mem : kind.Memory) (db : Db) : Prop :=
  ∀ payload reply subscribed, KeysReply db (putPattern appName kind actor id) reply →
    ∃ o, putBinding (kind.collection c) (redisConfig appName) kind.name actor id payload reply subscribed
        mem db = .ok o ∧
      Undisturbed c appName kind bindings (putMine kind actor id) mem o.mem db o.db ∧
      ∀ code, o.result = .ok code → ∀ b ∈ (kind.collection c).find o.mem actor id,
        ∃ p, (kind.collection c).key b = bindingKey kind.name actor.type actor.id p id

/-- A delete leaves the other bindings alone. -/
def DeleteUndisturbed (c : Codec) (appName : String) (kind : Kind) (actor : Actor) (id : String)
    (bindings : List Persisted) (mem : kind.Memory) (db : Db) : Prop :=
  let o := deleteBindings (kind.collection c) (redisConfig appName) actor id mem db
  Undisturbed c appName kind bindings (deleteMine kind actor id) mem o.mem db o.db

/-- No other binding is in the way of a put. -/
structure PutApart (c : Codec) (appName : String) (kind : Kind) (actor : Actor) (id : String)
    (bindings : List Persisted) (mem : kind.Memory) (db : Db) : Prop where
  /-- The pattern matches no key of another binding. -/
  unmatched : ∀ b ∈ bindings, ¬ putMine kind actor id b.kind b.actor b.id →
    Glob.glob (putPattern appName kind actor id) (mangleKey appName b.key) ≠ true
  /-- A key that matches can be unmangled. -/
  unmangled : ∀ key ∈ db, Glob.glob (putPattern appName kind actor id) key = true →
    '_' ∉ appName.toList
  /-- If no key matches, then no other binding has the new key. -/
  unused : (∀ key ∈ db, Glob.glob (putPattern appName kind actor id) key ≠ true) →
    ∀ b ∈ bindings, ¬ putMine kind actor id b.kind b.actor b.id →
      b.key ≠ bindingKey kind.name actor.type actor.id "0" id
  /-- The put of an empty id cancels all bindings of the actor. -/
  selected : ∀ b ∈ kind.active mem, (kind.collection c).Selects actor id b →
    (kind.collection c).id b = id

/-! ## The key of a put -/

section Key

variable {c : Codec} {kind : Kind} {id : String}

/-- The key encodes the binding, and no other binding has it. -/
def OwnKey (kind : Kind) (actor : Actor) (id : String) (bindings : List Persisted) (key : String) :
    Prop :=
  (∃ p, key = bindingKey kind.name actor.type actor.id p id) ∧
    ∀ b ∈ bindings, ¬ putMine kind actor id b.kind b.actor b.id → b.key ≠ key

/-- The key that a put chooses is its own, whatever is listed first. -/
def PutsOwnKey (appName : String) (kind : Kind) (actor : Actor) (id : String)
    (bindings : List Persisted) (db : Db) : Prop :=
  ∀ reply ks, KeysReply db (putPattern appName kind actor id) reply →
    keys (redisConfig appName) reply = .ok ks →
      OwnKey kind actor id bindings (putKey kind.name actor id ks).1

theorem PutApart.putsOwnKey (h : PutApart c appName kind actor id bindings mem db)
    (hown : ∀ key ∈ db, Glob.glob (putPattern appName kind actor id) key = true →
      ∃ b ∈ bindings, key = mangleKey appName b.key) :
    PutsOwnKey appName kind actor id bindings db := by
  intro reply ks hreply hks
  cases ks with
  | nil =>
    refine ⟨⟨"0", rfl⟩, h.unused fun key hkey hglob => ?_⟩
    obtain ⟨b, hb, rfl⟩ := hown key hkey hglob
    have hmem := (Persisted.key_mem_keys_iff hreply hks b).mpr ⟨h.unmangled _ hkey hglob, hkey, hglob⟩
    exact absurd hmem List.not_mem_nil
  | cons k =>
    obtain ⟨x, hx, hunmangle⟩ := (mem_of_mapM_eq_ok hks k).mp List.mem_cons_self
    obtain ⟨hmem, hglob⟩ := (hreply.mem_iff x).mp hx
    obtain ⟨b, hb, rfl⟩ := hown x hmem hglob
    have hk : unmangleKey appName (mangleKey appName b.key) = .ok k := hunmangle
    rw [unmangleKey_mangleKey (h.unmangled _ hmem hglob), Except.ok.injEq] at hk
    subst hk
    constructor
    · have hmine : putMine kind actor id b.kind b.actor b.id := by
        by_contra hother
        exact h.unmatched b hb hother hglob
      obtain ⟨hkind, hactor, hid⟩ := of_decide_eq_true hmine
      refine ⟨itoa b.partition.toInt, ?_⟩
      show b.key = _
      rw [Persisted.key, hkind, hactor, hid]
    · intro b' hb' hother hsame
      exact h.unmatched b' hb' hother (by rw [hsame]; exact hglob)

/-- The first key of a reply is the one that is chosen. -/
theorem keys_cons (hx : sc.unmangleKey x = .ok k) (hks : keys sc (x :: reply) = .ok ks) :
    ∃ ks', ks = k :: ks' := by
  rw [keys, List.mapM_cons, hx] at hks
  obtain ⟨k', hk', hks⟩ := bind_eq_ok.mp hks
  obtain ⟨ks', -, hks⟩ := bind_eq_ok.mp hks
  cases hk'
  cases hks
  exact ⟨ks', rfl⟩

/-- A key of the store that matches is the key of the binding itself. -/
theorem PutsOwnKey.of_glob (h : PutsOwnKey appName kind actor id bindings db)
    (hx : x ∈ db) (hglob : Glob.glob (putPattern appName kind actor id) x = true)
    (hk : unmangleKey appName x = .ok k) : OwnKey kind actor id bindings k := by
  obtain ⟨reply, hreply⟩ := exists_keysReply_cons hx hglob
  obtain ⟨ks, hks⟩ := exists_keys hreply
  obtain ⟨ks', rfl⟩ := keys_cons hk hks
  exact h _ _ hreply hks

theorem PutsOwnKey.unmangled (h : PutsOwnKey appName kind actor id bindings db)
    (hx : x ∈ db) (hglob : Glob.glob (putPattern appName kind actor id) x = true) :
    '_' ∉ appName.toList := by
  obtain ⟨r, rfl⟩ := eq_append_of_glob_mangleKey hglob
  obtain ⟨k, hk⟩ := exists_unmangleKey appName r
  obtain ⟨⟨p, hp⟩, -⟩ := h.of_glob hx hglob hk
  have hne : k ≠ "" := by
    rw [hp]
    exact bindingKey_ne_empty _ _ _ _ _
  cases unmangleKey_eq_ok hk hne with
  | inl hmangled => exact hmangled.1
  | inr hsame =>
    rw [hp] at hsame
    exact absurd hsame.symm (bindingKey_ne_append _ _ _ _ _ r)

theorem PutsOwnKey.unmatched (h : PutsOwnKey appName kind actor id bindings db) (hb : b ∈ bindings)
    (hstored : mangleKey appName b.key ∈ db) (hother : ¬ putMine kind actor id b.kind b.actor b.id) :
    Glob.glob (putPattern appName kind actor id) (mangleKey appName b.key) ≠ true := by
  intro hglob
  have hkey := h.of_glob hstored hglob (unmangleKey_mangleKey (h.unmangled hstored hglob) b.key)
  exact hkey.2 b hb hother rfl

theorem PutsOwnKey.unused (h : PutsOwnKey appName kind actor id bindings db)
    (hnone : ∀ key ∈ db, Glob.glob (putPattern appName kind actor id) key ≠ true) :
    OwnKey kind actor id bindings (bindingKey kind.name actor.type actor.id "0" id) := by
  have hreply : KeysReply db (putPattern appName kind actor id) [] := by
    refine ⟨List.nodup_nil, fun key => ?_⟩
    simp only [List.not_mem_nil, false_iff, not_and]
    exact hnone key
  exact h [] [] hreply rfl

end Key

/-! ## The bindings in memory -/

variable {key : String}

section Memory

variable {active : σ → List β}
   {id payload : String}

/-- What a put leaves of the bindings that are not selected. -/
theorem Lawful.filter_put (hB : Lawful B active) {mine : β → Bool}
    (hmine : ∀ b, B.actor b = actor → B.id b = id → mine b = true)
    (hsel : ∀ b ∈ active mem, B.Selects actor id b → mine b = true)
    {o : Outcome σ (Except (Nat × String) Nat)}
    (h : PutReturns B sc kind actor id payload ks subscribed mem db o) :
    ((active o.mem).filter fun b => ¬ mine b).Perm ((active mem).filter fun b => ¬ mine b) := by
  have hrest : (((active mem).filter fun b => ¬ B.Selects actor id b).filter fun b => ¬ mine b) =
      (active mem).filter fun b => ¬ mine b := by
    rw [List.filter_filter]
    refine List.filter_congr fun b hb => ?_
    by_cases hb' : B.Selects actor id b
    · simp [hsel b hb hb']
    · simp [hb']
  cases h with
  | rejected => exact List.Perm.refl _
  | failed _ hadd =>
    have hperm := (hB.active_failed hadd).filter fun b => ¬ mine b
    rwa [hrest] at hperm
  | @done b _ _ hparse hadd =>
    obtain ⟨hactor, hid, -⟩ := hB.parsed _ _ _ _ _ _ hparse
    have hperm := (hB.active_put hparse hadd).filter fun b => ¬ mine b
    rwa [List.filter_cons_of_neg (by simp [hmine b hactor hid]), hrest] at hperm

/-- A binding that is selected is not left by a put that is not rejected. -/
theorem Lawful.not_filter_put (hB : Lawful B active) {mine : β → Bool}
    (hmine : ∀ b, B.actor b = actor → B.id b = id → mine b = true) {b b' : β}
    (hparse : B.parse actor id key payload = .ok (b, m))
    (hadd : (B.add subscribed (B.cancel mem actor id).1 b).2 = .ok ()) (hsel : B.Selects actor id b')
    (hb' : b' ∈ (active (B.add subscribed (B.cancel mem actor id).1 b).1).filter fun b => ¬ mine b) :
    False := by
  obtain ⟨hmem, hother⟩ := List.mem_filter.mp hb'
  obtain ⟨hactor, hid, -⟩ := hB.parsed _ _ _ _ _ _ hparse
  cases List.mem_cons.mp ((hB.active_put hparse hadd).mem_iff.mp hmem) with
  | inl heq =>
    rw [heq] at hother
    simp [hmine b hactor hid] at hother
  | inr hold =>
    have hnot := (List.mem_filter.mp hold).2
    simp [hsel] at hnot

/-- The new binding is found after a put. -/
theorem Lawful.mem_find_put (hB : Lawful B active) (hparse : B.parse actor id key payload = .ok (b, m))
    (hadd : (B.add subscribed (B.cancel mem actor id).1 b).2 = .ok ()) :
    b ∈ B.find (B.add subscribed (B.cancel mem actor id).1 b).1 actor id := by
  obtain ⟨hactor, hid, -⟩ := hB.parsed _ _ _ _ _ _ hparse
  rw [(hB.find ..).mem_iff, List.mem_filter, (hB.active_put hparse hadd).mem_iff]
  exact ⟨List.mem_cons_self, decide_eq_true ⟨hactor, Or.inr hid⟩⟩

/-- `HSET` does not fail on a key that holds no text. -/
theorem exists_hSetAll (h : ∀ s, db.lookup key ≠ some (.text s)) (m : StateHash) :
    ∃ db', hSetAll db key m = .ok db' := by
  unfold hSetAll Db.onHash
  split
  · exact ⟨db, rfl⟩
  split
  · exact ⟨_, rfl⟩
  · exact ⟨_, rfl⟩
  · rename_i s hs
    exact absurd hs (h s)

/-- A put returns if `KEYS` and `HSET` do. -/
theorem exists_putBinding (hks : keys sc reply = .ok ks)
    (hset : ∀ m, ∃ db', hSetAll db (sc.mangleKey (putKey kind actor id ks).1) m = .ok db') :
    ∃ o, putBinding B sc kind actor id payload reply subscribed mem db = .ok o := by
  cases hparse : B.parse actor id (putKey kind actor id ks).1 payload with
  | error => exact ⟨_, (PutReturns.rejected hparse).putBinding_eq hks⟩
  | ok bm =>
    obtain ⟨b, m⟩ := bm
    cases hadd : (B.add subscribed (B.cancel mem actor id).1 b).2 with
    | error => exact ⟨_, (PutReturns.failed hparse hadd).putBinding_eq hks⟩
    | ok =>
      obtain ⟨db', hdb'⟩ := hset m
      exact ⟨_, (PutReturns.done hparse hadd hdb').putBinding_eq hks⟩

end Memory

/-! ## Puts and deletes -/

/-- There are payloads with different values for a field. -/
def Kind.Varies (c : Codec) (kind : Kind) : Prop :=
  ∀ actor id key, ∃ payload payload' b b' m m' f v v',
    (kind.collection c).parse actor id key payload = .ok (b, m) ∧ m.lookup f = some v ∧
      (kind.collection c).parse actor id key payload' = .ok (b', m') ∧ m'.lookup f = some v' ∧ v ≠ v'

theorem Kind.add_ok (c : Codec) (kind : Kind) (mem : kind.Memory) (b : kind.Binding) :
    ((kind.collection c).add .ok mem b).2 = .ok () := by
  cases kind <;> rfl

section Undisturbed

variable {c : Codec} {kind : Kind} {id : String}

/-- A hash that `HSET` leaves as it was has the fields that are written. -/
theorem lookup_of_hSetAll_unchanged
    (hset : hSetAll db key m = .ok db') (hstored : db.lookup key = some (.hash h))
    (hsame : db'.lookup key = db.lookup key) (hf : m.lookup f = some v) : h.lookup f = some v := by
  have hget : hGetAll db key = .ok h := by rw [hGetAll, hstored]
  obtain ⟨h', hget', hmerged⟩ := hGetAll_hSetAll hget hset
  have hh : h' = h := by
    rw [hGetAll, hsame, hstored] at hget'
    exact (Except.ok.inj hget').symm
  rw [← hh, hmerged, hf]
  rfl

/-- A put of an accepted payload that leaves the others alone writes the fields of the payload. -/
theorem PutUndisturbed.done (h : PutUndisturbed c appName kind actor id bindings mem db)
    (hreply : KeysReply db (putPattern appName kind actor id) reply)
    (hks : keys (redisConfig appName) reply = .ok ks)
    (hparse : (kind.collection c).parse actor id (putKey kind.name actor id ks).1 payload = .ok (b, m)) :
    ∃ db', hSetAll db (mangleKey appName (putKey kind.name actor id ks).1) m = .ok db' ∧ Undisturbed
      c appName kind bindings (putMine kind actor id) mem ((kind.collection c).add .ok
      ((kind.collection c).cancel mem actor id).1 b).1 db db' ∧ ∃ p, (putKey kind.name actor id
      ks).1 = bindingKey kind.name actor.type actor.id p id := by
  obtain ⟨o, hput, hframe, hkey⟩ := h payload reply .ok hreply
  obtain ⟨ks', hks', hreturns⟩ := putBinding_returns hput
  rw [hks, Except.ok.injEq] at hks'
  subst hks'
  cases hreturns with
  | rejected hrejected =>
    rw [hparse] at hrejected
    simp at hrejected
  | @failed _ _ _ _ hadd =>
    rw [kind.add_ok] at hadd
    simp at hadd
  | @done _ _ db' hparse' hadd hset =>
    rw [hparse, Except.ok.injEq, Prod.mk.injEq] at hparse'
    obtain ⟨rfl, rfl⟩ := hparse'
    have hB := kind.lawful c
    obtain ⟨p, hp⟩ := hkey _ rfl b (hB.mem_find_put hparse hadd)
    obtain ⟨-, -, hbkey⟩ := hB.parsed _ _ _ _ _ _ hparse
    exact ⟨db', hset, hframe, p, hbkey ▸ hp⟩

/-- A put that leaves the others alone chooses its own key. -/
theorem PutUndisturbed.putsOwnKey (h : PutUndisturbed c appName kind actor id bindings mem db)
    (hvaries : kind.Varies c)
    (hstored : ∀ b ∈ bindings, ∃ hash, db.lookup (mangleKey appName b.key) = some (.hash hash)) :
    PutsOwnKey appName kind actor id bindings db := by
  intro reply ks hreply hks
  obtain ⟨payload, payload', b, b', m, m', f, v, v', hparse, hv, hparse', hv', hne⟩ :=
    hvaries actor id (putKey kind.name actor id ks).1
  obtain ⟨db₁, hset, hframe, hkey⟩ := h.done hreply hks hparse
  obtain ⟨db₂, hset', hframe', -⟩ := h.done hreply hks hparse'
  refine ⟨hkey, fun other hother hmine hsame => ?_⟩
  obtain ⟨hash, hhash⟩ := hstored other hother
  -- Both payloads would have to be in the hash already.
  have hsame₁ := hframe.persisted other hother hmine
  have hsame₂ := hframe'.persisted other hother hmine
  rw [hsame] at hhash hsame₁ hsame₂
  have hfield := lookup_of_hSetAll_unchanged hset hhash hsame₁ hv
  rw [lookup_of_hSetAll_unchanged hset' hhash hsame₂ hv', Option.some.injEq] at hfield
  exact hne hfield.symm

theorem PutUndisturbed.selected (h : PutUndisturbed c appName kind actor id bindings mem db)
    (hvaries : kind.Varies c) : ∀ b ∈ kind.active mem, (kind.collection c).Selects actor id b →
      (kind.collection c).id b = id := by
  intro b hb hsel
  by_contra hne
  have hB := kind.lawful c
  obtain ⟨reply, hreply⟩ := exists_keysReply db (putPattern appName kind actor id)
  obtain ⟨ks, hks⟩ := exists_keys hreply
  obtain ⟨payload, -, b', -, m, -, -, -, -, hparse, -⟩ :=
    hvaries actor id (putKey kind.name actor id ks).1
  obtain ⟨db', -, hframe, -⟩ := h.done hreply hks hparse
  have hother : b ∈ (kind.active mem).filter fun b => ¬ putMine kind actor id kind
      ((kind.collection c).actor b) ((kind.collection c).id b) := by
    rw [List.mem_filter]
    exact ⟨hb, by simp [putMine, hne]⟩
  refine hB.not_filter_put ?_ hparse (kind.add_ok c _ _) hsel (hframe.memory.mem_iff.mpr hother)
  intro b' hactor hid
  simp [putMine, hactor, hid]

/-- A put whose key is its own leaves the others alone. -/
theorem PutsOwnKey.putUndisturbed (h : PutsOwnKey appName kind actor id bindings db)
    (hsel : ∀ b ∈ kind.active mem, (kind.collection c).Selects actor id b →
      (kind.collection c).id b = id)
    (htext : ∀ p s, db.lookup (mangleKey appName (bindingKey kind.name actor.type actor.id p id)) ≠
      some (.text s)) : PutUndisturbed c appName kind actor id bindings mem db := by
  intro payload reply subscribed hreply
  have hB := kind.lawful c
  obtain ⟨ks, hks⟩ := exists_keys hreply
  obtain ⟨⟨p, hp⟩, hothers⟩ := h reply ks hreply hks
  obtain ⟨o, hput⟩ : ∃ o, putBinding (kind.collection c) (redisConfig appName) kind.name actor id payload
      reply subscribed mem db = .ok o :=
    exists_putBinding hks (exists_hSetAll fun s => by rw [hp]; exact htext p s)
  obtain ⟨ks', hks', hreturns⟩ := putBinding_returns hput
  rw [hks, Except.ok.injEq] at hks'
  subst hks'
  refine ⟨o, hput, ⟨?_, ?_⟩, ?_⟩
  · intro b hb hmine
    have hne : mangleKey appName b.key ≠ mangleKey appName (putKey kind.name actor id ks).1 :=
      fun heq => hothers b hb hmine (mangleKey_injective appName heq)
    cases hreturns with
    | rejected => rfl
    | failed => rfl
    | done _ _ hset => exact lookup_hSetAll_of_ne hset hne
  · refine hB.filter_put ?_ ?_ hreturns
    · intro b hactor hid
      simp [putMine, hactor, hid]
    · intro b hb hsel'
      simp [putMine, hsel'.1, hsel b hb hsel']
  intro code hdone b hb
  cases hreturns with
  | rejected => simp at hdone
  | failed => simp at hdone
  | @done _ _ _ hparse hadd =>
    obtain ⟨-, -, hkey⟩ := hB.parsed _ _ _ _ _ _ hparse
    rw [hB.eq_of_find_put hparse hadd hb, hkey]
    exact ⟨p, hp⟩

/-- A delete leaves the others alone exactly if the keys that it deletes are not theirs. -/
theorem deleteUndisturbed_iff
    (hstored : ∀ b ∈ bindings, ∃ hash, db.lookup (mangleKey appName b.key) = some (.hash hash)) :
    DeleteUndisturbed c appName kind actor id bindings mem db ↔ ∀ e ∈ (kind.collection c).find mem
      actor id, ∀ b ∈ bindings, ¬ deleteMine kind actor id b.kind b.actor b.id → (kind.collection
      c).key e ≠ b.key := by
  have hB := kind.lawful c
  have hmine : ∀ b, deleteMine kind actor id kind ((kind.collection c).actor b)
      ((kind.collection c).id b) = decide ((kind.collection c).Selects actor id b) := by
    intro b
    exact decide_eq_decide.mpr (by simp [Collection.Selects])
  have hmemory : ((kind.active ((kind.collection c).cancel mem actor id).1).filter fun b =>
      ¬ deleteMine kind actor id kind ((kind.collection c).actor b) ((kind.collection c).id b)).Perm
      ((kind.active mem).filter fun b =>
        ¬ deleteMine kind actor id kind ((kind.collection c).actor b) ((kind.collection c).id b)) := by
    simp only [hmine, decide_eq_true_eq]
    have hperm := (hB.remaining mem actor id).filter fun b => ¬ (kind.collection c).Selects actor id b
    rwa [List.filter_filter, List.filter_congr fun b _ => Bool.and_self _] at hperm
  constructor
  · intro h e he b hb hother hsame
    have hlookup := h.persisted b hb hother
    obtain ⟨hash, hhash⟩ := hstored b hb
    have hdeleted : mangleKey appName b.key ∈ ((kind.collection c).cancel mem actor id).2.map
        fun e => (redisConfig appName).mangleKey ((kind.collection c).key e) :=
      List.mem_map.mpr ⟨e, hB.mem_cancel.mpr he, by rw [hsame]; rfl⟩
    rw [deleteBindings, Hash.lookup_remove, if_pos hdeleted, hhash] at hlookup
    simp at hlookup
  · intro h
    refine ⟨fun b hb hother => ?_, hmemory⟩
    rw [deleteBindings, Hash.lookup_remove, if_neg]
    intro hdeleted
    obtain ⟨e, he, hsame⟩ := List.mem_map.mp hdeleted
    exact h e (hB.mem_cancel.mp he) b hb hother (mangleKey_injective appName hsame)

end Undisturbed

/-- The payloads of the plain codec. -/
theorem varies_reminders : Kind.reminders.Varies plainCodec := by
  intro actor id key
  refine ⟨"s", "ss", _, _, _, _, "period", "s", "ss", rfl, ?_, rfl, ?_, by decide⟩
  · exact ReminderQueue.lookup_persistReminder plainCodec _ _
  · exact ReminderQueue.lookup_persistReminder plainCodec _ _

/-- A reminder of a clock. -/
private def alarm (id : String) : Persisted := ⟨.reminders, ⟨"Clock", "c"⟩, 0, id⟩

/-- A store with one reminder of the clock. -/
private def alarmDb (id : String) : Db :=
  (∅ : Db).insert (mangleKey "shop" (alarm id).key) (.hash (Hash.ofList [("id", id)]))

private theorem mem_alarmDb {id : String} :
    key ∈ alarmDb id ↔ key = mangleKey "shop" (alarm id).key := by
  rw [alarmDb, AList.mem_insert]
  simp

end Kar.Bindings
