import Kar.Lib.Hash
import Kar.Lib.Glob

/-!
# The hash commands of the store

The functions of `core/pkg/store/store.go` on one hash.  `doRaw` sends a command, and it panics if
the reply of Redis is an error.  A panic is an `Except.error` with the text of the panic.

`HSCAN` is the one command whose reply is not determined by the hash.  Over a full cycle of
cursors, it returns every field that matches the pattern at least once, and it may return a field
several times.
-/

namespace Kar.Store

open Kar.Lib List

/-- The state of an actor is a hash of texts. -/
abbrev StateHash : Type := Hash String String

/-- A command error is a panic. -/
def doRaw {α : Type} (command : String) (reply : Except String α) : Except String α :=
  reply.mapError fun err => "Failed to send command " ++ command ++ " to redis: " ++ err

/-- Two calls one after the other return if each of them does. -/
theorem bind_eq_ok {f : α → Except ε β} {b : β} :
    (x >>= f) = .ok b ↔ ∃ a, x = .ok a ∧ f a = .ok b := by
  cases x with
  | error => simp [bind, Except.bind]
  | ok => simp [bind, Except.bind]

/-- A call whose result is computed returns. -/
theorem exists_ok_of_map {x : Except ε α} {f : α → γ} {c : γ}
    (h : x.toOption.map f = some c) : ∃ a, x = .ok a ∧ f a = c := by
  cases x with
  | error => simp [Except.toOption] at h
  | ok a => exact ⟨a, rfl, Option.some.inj h⟩

/-- A loop of calls returns if each of them does. -/
theorem exists_mapM_eq_ok {f : α → Except ε β} {l : List α}
    (h : ∀ x ∈ l, ∃ y, f x = .ok y) : ∃ ys, l.mapM f = .ok ys := by
  induction l with
  | nil => exact ⟨[], rfl⟩
  | cons x l ih =>
    obtain ⟨y, hy⟩ := h x mem_cons_self
    obtain ⟨ys, hys⟩ := ih fun x' hx' => h x' (mem_cons_of_mem x hx')
    refine ⟨y :: ys, ?_⟩
    rw [mapM_cons, hy, hys]
    rfl

/-- What a loop of calls returns. -/
theorem mem_of_mapM_eq_ok {f : α → Except ε β} {l : List α} {ys : List β}
    (h : l.mapM f = .ok ys) (y : β) : y ∈ ys ↔ ∃ x ∈ l, f x = .ok y := by
  induction l generalizing ys with
  | nil =>
    cases h
    simp
  | cons x l ih =>
    rw [mapM_cons] at h
    obtain ⟨y', hy', h⟩ := bind_eq_ok.mp h
    obtain ⟨ys', hys', h⟩ := bind_eq_ok.mp h
    cases h
    rw [mem_cons, ih hys']
    simp [hy', @eq_comm _ y]

def hSet (h : StateHash) (key value : String) : StateHash × Nat := h.hset [(key, value)]

/-- The pairs are the arguments of one `HSET`. -/
def hSetMultiple (h keyValuePairs : StateHash) : StateHash × Nat :=
  if keyValuePairs.pairs = [] then (h, 0) else h.hset keyValuePairs.pairs

/-- `none` is `ErrNil`. -/
def hGet (h : StateHash) (key : String) : Option String := h.lookup key

def hExists (h : StateHash) (key : String) : Nat := if key ∈ h then 1 else 0

def hDelMultiple (h : StateHash) (keys : List String) : Except String (StateHash × Nat) :=
  doRaw "HDEL" <| match h.hdel keys with
    | none => .error "ERR wrong number of arguments for 'hdel' command"
    | some r => .ok r

def hDel (h : StateHash) (key : String) : StateHash × Nat := h.remove [key]

/-- A reply of `HSCAN`: the next cursor, and fields with their values. -/
structure ScanReply where
  cursor : Nat
  result : List (String × String)
  deriving DecidableEq, Repr

/-- The replies of a full cycle: the last cursor is zero, and no other one.  They hold the fields of
the hash that match the pattern. -/
structure FullScan (h : StateHash) (pattern : String) (replies : List ScanReply) : Prop where
  cycle : ∃ pages last, replies = pages ++ [last] ∧ last.cursor = 0 ∧ ∀ r ∈ pages, r.cursor ≠ 0
  complete : ∀ k v, h.lookup k = some v → Glob.glob pattern k = true →
    (k, v) ∈ replies.flatMap ScanReply.result
  sound : ∀ k v, (k, v) ∈ replies.flatMap ScanReply.result →
    h.lookup k = some v ∧ Glob.glob pattern k = true

/-- The scan that returns every field once, in one reply. -/
def scanOnce (h : StateHash) (pattern : String) : List ScanReply :=
  [⟨0, h.pairs.filter fun p => Glob.glob pattern p.1⟩]

theorem fullScan_scanOnce (h : StateHash) (pattern : String) :
    FullScan h pattern (scanOnce h pattern) where
  cycle := ⟨[], _, rfl, rfl, by simp⟩
  complete k v hv hmatch := by simp [scanOnce, Hash.mem_pairs, hv, hmatch]
  sound k v hmem := by simpa [scanOnce, Hash.mem_pairs] using hmem

/-- `HSET` with the pairs that a map collects. -/
theorem hSetMultiple_ofList (h : StateHash) (l : List (String × String)) :
    (∀ k, (hSetMultiple h (Hash.ofList l)).1.lookup k = (h.hset l).1.lookup k) ∧
      (hSetMultiple h (Hash.ofList l)).2 = (h.hset l).2 := by
  have hset := Hash.hset_collected h (List.Perm.refl (Hash.ofList l).pairs)
  unfold hSetMultiple
  split
  · rename_i hnil
    rwa [hnil] at hset
  · exact hset

end Kar.Store
