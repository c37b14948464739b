import Kar.Store.Commands

/-!
# The keys of the store

The functions of `core/pkg/store/store.go` that take a key.  A database of Redis maps keys to texts
and hashes, and a hash without fields is not kept.  Several applications share one database: a
`StoreConfig` mangles every key of an application before it is sent, and the keys in the replies of
`KEYS` are unmangled.

The replies of `KEYS` and `SCAN` depend on the order in which Redis keeps the keys.  `KEYS` returns
every matching key once.  Over a full cycle of cursors, `SCAN` returns every matching key at least
once.
-/

namespace Kar.Store

open Kar.Lib List

/-- What a key holds. -/
inductive RedisValue where
  | text (s : String)
  | hash (h : StateHash)

abbrev Db : Type := Hash String RedisValue

/-- The hooks of the store. -/
structure StoreConfig where
  mangleKey : String → String
  /-- The inverse of `mangleKey`; an index out of range is a panic. -/
  unmangleKey : String → Except String String

def wrongType : String := "WRONGTYPE Operation against a key holding the wrong kind of value"

/-! ## Commands on one key -/

namespace Db

/-- The database with a hash under the key. -/
def putHash (db : Db) (key : String) (h : StateHash) : Db :=
  if h.pairs = [] then db.erase key else db.insert key (.hash h)

/-- Commands on the hash under a key. -/
def onHash {ρ : Type} (db : Db) (key : String) (f : StateHash → StateHash × Except String ρ) :
    Db × Except String ρ :=
  match db.lookup key with
  | none => (db.putHash key (f ∅).1, (f ∅).2)
  | some (.hash h) => (db.putHash key (f h).1, (f h).2)
  | some (.text _) => (db, .error wrongType)

/-- `GET`: `none` is `ErrNil`. -/
def getText (db : Db) (key : String) : Except String (Option String) :=
  match db.lookup key with
  | none => .ok none
  | some (.text s) => .ok (some s)
  | some (.hash _) => doRaw "GET" (.error wrongType)

/-- `DEL` -/
def delKey (db : Db) (key : String) : Db × Nat := db.remove [key]

/-- The script of `CAS`: an absent key counts as empty, and the value afterwards is returned. -/
def casText (db : Db) (key expected desired : String) : Db × Except String String :=
  match db.getText key with
  | .error _ => (db, doRaw "EVAL" (.error wrongType))
  | .ok none =>
    if expected = "" then (db.insert key (.text desired), .ok desired) else (db, .ok "")
  | .ok (some v) =>
    if v = expected then (db.insert key (.text desired), .ok desired) else (db, .ok v)

variable {db : Db}

/-! A command on one key leaves the other keys alone, and does not depend on them. -/

theorem lookup_putHash_of_ne (hne : key' ≠ key) (h : StateHash) :
    (db.putHash key h).lookup key' = db.lookup key' := by
  unfold putHash
  split
  · exact AList.lookup_erase_ne hne
  · exact AList.lookup_insert_ne hne

theorem lookup_onHash_of_ne (hne : key' ≠ key) (f : StateHash → StateHash × Except String ρ) :
    (db.onHash key f).1.lookup key' = db.lookup key' := by
  unfold onHash
  split
  · exact lookup_putHash_of_ne hne _
  · exact lookup_putHash_of_ne hne _
  · rfl

theorem lookup_delKey_of_ne (hne : key' ≠ key) : (db.delKey key).1.lookup key' = db.lookup key' := by
  rw [delKey, Hash.lookup_remove, if_neg (by simpa using hne)]

theorem lookup_casText_of_ne (hne : key' ≠ key) (expected desired : String) :
    (db.casText key expected desired).1.lookup key' = db.lookup key' := by
  unfold casText
  split
  · rfl
  · split
    · exact AList.lookup_insert_ne hne
    · rfl
  · split
    · exact AList.lookup_insert_ne hne
    · rfl

variable {db' : Db}

theorem reply_onHash (h : db.lookup key = db'.lookup key)
    (f : StateHash → StateHash × Except String ρ) : (db.onHash key f).2 = (db'.onHash key f).2 := by
  unfold onHash
  rw [h]
  split <;> rfl

theorem getText_congr (h : db.lookup key = db'.lookup key) : db.getText key = db'.getText key := by
  unfold getText
  rw [h]

theorem reply_delKey (h : db.lookup key = db'.lookup key) : (db.delKey key).2 = (db'.delKey key).2 := by
  have hmem : key ∈ db ↔ key ∈ db' := by
    rw [← AList.lookup_isSome, ← AList.lookup_isSome, h]
  simp [delKey, Hash.remove, hmem]

theorem reply_casText (h : db.lookup key = db'.lookup key) (expected desired : String) :
    (db.casText key expected desired).2 = (db'.casText key expected desired).2 := by
  unfold casText
  rw [getText_congr h]
  split
  · rfl
  · split <;> rfl
  · split <;> rfl

end Db

/-! ## Commands on many keys -/

/-- A reply of `KEYS`. -/
structure KeysReply (db : Db) (pattern : String) (reply : List String) : Prop where
  nodup : reply.Nodup
  mem_iff : ∀ key, key ∈ reply ↔ key ∈ db ∧ Glob.glob pattern key = true

/-- `KEYS` may list the keys as they are in the database. -/
theorem exists_keysReply (db : Db) (pattern : String) : ∃ reply, KeysReply db pattern reply := by
  refine ⟨db.keys.filter fun key => Glob.glob pattern key, db.keys_nodup.filter _, fun key => ?_⟩
  rw [mem_filter, AList.mem_keys]

/-- `KEYS` may list any matching key first. -/
theorem exists_keysReply_cons (hmem : key ∈ db)
    (hglob : Glob.glob pattern key = true) : ∃ reply, KeysReply db pattern (key :: reply) := by
  obtain ⟨reply, hreply⟩ := exists_keysReply db pattern
  have hperm := perm_cons_erase ((hreply.mem_iff key).mpr ⟨hmem, hglob⟩)
  refine ⟨reply.erase key, hperm.nodup_iff.mp hreply.nodup, fun key' => ?_⟩
  rw [← hperm.mem_iff, hreply.mem_iff]

/-- `Keys`, with the reply of `KEYS` to the mangled pattern. -/
def keys (sc : StoreConfig) (reply : List String) : Except String (List String) :=
  reply.mapM sc.unmangleKey

/-- A reply of `SCAN`: the next cursor, and keys. -/
structure KeyScanReply where
  cursor : Nat
  keys : List String
  deriving DecidableEq, Repr

/-- The replies of a full cycle: the last cursor is zero, and no other one. -/
structure FullKeyScan (db : Db) (pattern : String) (replies : List KeyScanReply) : Prop where
  cycle : ∃ pages last, replies = pages ++ [last] ∧ last.cursor = 0 ∧ ∀ r ∈ pages, r.cursor ≠ 0
  mem_iff : ∀ key, key ∈ replies.flatMap KeyScanReply.keys ↔
    key ∈ db ∧ Glob.glob pattern key = true

/-- The bags that `Purge` collects. -/
def bags : List KeyScanReply → List (List String)
  | [] => []
  | reply :: replies =>
    let rest := if reply.cursor = 0 then [] else bags replies
    if reply.keys.length > 0 then reply.keys :: rest else rest

/-- The deletions of `Purge`, one command a bag, with the number of deleted keys. -/
def purge (replies : List KeyScanReply) (db : Db) : Db × Nat :=
  (bags replies).foldl (fun acc keys => ((acc.1.remove keys).1, acc.2 + (acc.1.remove keys).2))
    (db, 0)

theorem flatten_bags (hscan : FullKeyScan db pattern replies) :
    (bags replies).flatten = replies.flatMap KeyScanReply.keys := by
  obtain ⟨pages, last, rfl, hlast, hpages⟩ := hscan.cycle
  clear hscan
  have hcons : ∀ (keys : List String) (rest : List (List String)),
      (if keys.length > 0 then keys :: rest else rest).flatten = keys ++ rest.flatten := by
    intro keys rest
    cases keys <;> simp
  induction pages with
  | nil => simp [bags, hcons, hlast]
  | cons page _ ih =>
    have ih := ih fun r hr => hpages r (mem_cons_of_mem page hr)
    rw [cons_append, bags, hcons, if_neg (hpages page mem_cons_self), ih, flatMap_cons]

/-- `Purge` deletes the keys that match the pattern. -/
theorem lookup_purge (hscan : FullKeyScan db pattern replies) :
    (purge replies db).1.lookup key =
      if Glob.glob pattern key = true then none else db.lookup key := by
  have hfold : ∀ (bags : List (List String)) (db : Db) (n : Nat),
      (bags.foldl (fun acc keys => ((acc.1.remove keys).1, acc.2 + (acc.1.remove keys).2))
        (db, n)).1.lookup key = if key ∈ bags.flatten then none else db.lookup key := by
    intro bags
    induction bags with
    | nil => intro db n; simp
    | cons keys _ ih =>
      intro db n
      rw [foldl_cons, ih, Hash.lookup_remove, flatten_cons]
      by_cases hkeys : key ∈ keys <;> simp [hkeys]
  rw [purge, hfold, flatten_bags hscan]
  by_cases hmem : key ∈ db
  · simp [hscan.mem_iff, hmem]
  · rw [AList.lookup_eq_none.mpr hmem]
    simp

end Kar.Store
