import Mathlib.Data.Nat.Find
import Kar.Lib.LastMax
import Kar.Rpc.Recover

/-!
# What a recovery is for

The abstract description of a recovery, in terms of the messages that were
read and of no map of the code.  Fix the messages read, each with its
partition, and the live partitions.

* The *latest* message of a request is the last one read of greatest sequence
  number, and `maxSeq` is that number.
* A request is *answered* when a `Response` or a `Done` of it was read.
* A request *restarts* at the greatest sequence number that no message with a
  deferred lock has: the start of the chain of tail calls that kept the lock.
* A request is an *orphan* when it is not answered, no live partition has its
  latest message, and the message it restarts at is in a dead partition or in
  partition `0`.  These are the requests that have to be sent again.

`Kar.Rpc.ScanSpec` shows that the maps of the code compute these notions.
-/

namespace Kar.Rpc

open Kar.Lib

/-- The request in a read message when its id is `k`, with its partition. -/
def requestOf (k : String) (pm : Nat × Message) : Option (Nat × Request) :=
  match pm.2 with
  | .request v => if v.requestID = k then some (pm.1, v) else none
  | _ => none

/-- The requests of id `k` that were read, in reading order. -/
def requestsOf (reads : List (Nat × Message)) (k : String) : List (Nat × Request) :=
  reads.filterMap (requestOf k)

/-- The latest message of `k` and its partition. -/
def latestRead (reads : List (Nat × Message)) (k : String) : Option (Nat × Request) :=
  lastMax (fun pv => pv.2.sequence) (requestsOf reads k)

/-- The greatest sequence number of `k`. -/
def maxSeq (reads : List (Nat × Message)) (k : String) : Nat :=
  ((latestRead reads k).map (fun pv => pv.2.sequence)).getD 0

/-- A completion record of `k` was read. -/
def Answered (reads : List (Nat × Message)) (k : String) : Prop :=
  ∃ pm ∈ reads, pm.2.isRecord = true ∧ pm.2.requestID = k

instance (reads : List (Nat × Message)) (k : String) : Decidable (Answered reads k) :=
  inferInstanceAs (Decidable (∃ pm ∈ reads, _))

/-- Some message of `k` with sequence number `i` carries a deferred lock. -/
def LockedAt (reads : List (Nat × Message)) (k : String) (i : Nat) : Prop :=
  ∃ pv ∈ requestsOf reads k, pv.2.locked = true ∧ pv.2.sequence = i

instance (reads : List (Nat × Message)) (k : String) (i : Nat) :
    Decidable (LockedAt reads k i) :=
  inferInstanceAs (Decidable (∃ pv ∈ requestsOf reads k, _))

/-- The sequence number at which `k` restarts: the greatest one up to `maxSeq`
that carries no deferred lock, and `maxSeq` when all of them do. -/
def restart (reads : List (Nat × Message)) (k : String) : Nat :=
  if ∃ i, i ≤ maxSeq reads k ∧ ¬ LockedAt reads k i then
    Nat.findGreatest (fun i => ¬ LockedAt reads k i) (maxSeq reads k)
  else maxSeq reads k

/-- A live partition has a message of `k` of greatest sequence number. -/
def HeldLive (live : Live) (reads : List (Nat × Message)) (k : String) : Prop :=
  ∃ pv ∈ requestsOf reads k, live.mem pv.1 = true ∧ pv.2.sequence = maxSeq reads k

instance (live : Live) (reads : List (Nat × Message)) (k : String) :
    Decidable (HeldLive live reads k) :=
  inferInstanceAs (Decidable (∃ pv ∈ requestsOf reads k, _))

/-- The read request is the one at which its id restarts, and it is in a dead
partition or in partition `0`. -/
def RestartsHere (live : Live) (reads : List (Nat × Message)) (pv : Nat × Request) : Prop :=
  live.mem pv.1 = false ∧ pv.2.sequence = restart reads pv.2.requestID

instance (live : Live) (reads : List (Nat × Message)) (pv : Nat × Request) :
    Decidable (RestartsHere live reads pv) :=
  inferInstanceAs (Decidable (_ ∧ _))

/-- `k` has to be sent again. -/
structure Orphan (live : Live) (reads : List (Nat × Message)) (k : String) : Prop where
  unanswered : ¬ Answered reads k
  notHeld : ¬ HeldLive live reads k
  restarts : ∃ pv ∈ requestsOf reads k, RestartsHere live reads pv

/-! ## Reading lemmas -/

theorem mem_requestsOf :
    (p, v) ∈ requestsOf reads k ↔ (p, .request v) ∈ reads ∧ v.requestID = k := by
  unfold requestsOf
  rw [List.mem_filterMap]
  constructor
  · rintro ⟨⟨q, m⟩, hmem, hreq⟩
    cases m with
    | request =>
      obtain ⟨hid, hreq⟩ := Option.ite_none_right_eq_some.mp hreq
      cases hreq
      exact ⟨hmem, hid⟩
    | response => simp [requestOf] at hreq
    | done => simp [requestOf] at hreq
  · rintro ⟨hmem, hid⟩
    exact ⟨(p, .request v), hmem, by simp [requestOf, hid]⟩

theorem requestsOf_append :
    requestsOf (l ++ r) k = requestsOf l k ++ requestsOf r k := by
  simp [requestsOf]

theorem answered_append :
    Answered (l ++ r) k ↔ Answered l k ∨ Answered r k := by
  constructor
  · rintro ⟨pm, hmem, h⟩
    rcases List.mem_append.mp hmem with hl | hr
    · exact Or.inl ⟨pm, hl, h⟩
    · exact Or.inr ⟨pm, hr, h⟩
  · rintro (⟨pm, hmem, h⟩ | ⟨pm, hmem, h⟩)
    · exact ⟨pm, List.mem_append_left _ hmem, h⟩
    · exact ⟨pm, List.mem_append_right _ hmem, h⟩

/-- A request that was read has a latest message. -/
theorem exists_latestRead (h : pv ∈ requestsOf reads k) : ∃ qw, latestRead reads k = some qw := by
  cases hlatest : latestRead reads k with
  | some qw => exact ⟨qw, rfl⟩
  | none =>
    have hnil := (lastMax_eq_none_iff _ _).mp hlatest
    rw [hnil] at h
    simp at h

theorem maxSeq_eq (h : latestRead reads k = some qw) : maxSeq reads k = qw.2.sequence := by
  simp [maxSeq, h]

theorem latestRead_mem (h : latestRead reads k = some qw) : qw ∈ requestsOf reads k :=
  lastMax_mem _ h

theorem sequence_le_maxSeq (h : pv ∈ requestsOf reads k) : pv.2.sequence ≤ maxSeq reads k := by
  obtain ⟨qw, hlatest⟩ := exists_latestRead h
  rw [maxSeq_eq hlatest]
  exact key_le_lastMax (fun qv : Nat × Request => qv.2.sequence) hlatest h

/-- The greatest sequence number is reached, as soon as a request was read. -/
theorem exists_maxSeq (h : pv ∈ requestsOf reads k) :
    ∃ qw ∈ requestsOf reads k, qw.2.sequence = maxSeq reads k := by
  obtain ⟨qw, hlatest⟩ := exists_latestRead h
  exact ⟨qw, latestRead_mem hlatest, (maxSeq_eq hlatest).symm⟩

/-- A request message that no other exceeds has the greatest sequence number. -/
theorem maxSeq_eq_of_forall_le (h : pv ∈ requestsOf reads k)
    (hle : ∀ qw ∈ requestsOf reads k, qw.2.sequence ≤ pv.2.sequence) :
    maxSeq reads k = pv.2.sequence := by
  obtain ⟨qw, hmem, hseq⟩ := exists_maxSeq h
  exact Nat.le_antisymm (hseq ▸ hle qw hmem) (sequence_le_maxSeq h)

/-! ## Where a request restarts -/

theorem restart_le_maxSeq (reads : List (Nat × Message)) (k : String) :
    restart reads k ≤ maxSeq reads k := by
  unfold restart
  split
  · exact Nat.findGreatest_le _
  · exact Nat.le_refl _

/-- Every sequence number above the restart, up to the greatest one, carries a
deferred lock. -/
theorem lockedAt_of_restart_lt
    (hlt : restart reads k < i) (hle : i ≤ maxSeq reads k) : LockedAt reads k i := by
  unfold restart at hlt
  split at hlt
  · exact Decidable.not_not.mp (Nat.findGreatest_is_greatest hlt hle)
  · rename_i hnone
    by_contra hnot
    exact hnone ⟨i, hle, hnot⟩

/-- The restart carries no deferred lock when some sequence number up to the
greatest one has none. -/
theorem not_lockedAt_restart (hle : i ≤ maxSeq reads k) (hfree : ¬ LockedAt reads k i) :
    ¬ LockedAt reads k (restart reads k) := by
  unfold restart
  rw [if_pos ⟨i, hle, hfree⟩]
  exact Nat.findGreatest_spec (P := fun i => ¬ LockedAt reads k i) hle hfree

/-- The restart depends only on the greatest sequence number and on the locks
up to it. -/
theorem restart_congr (hmax : maxSeq reads' k = maxSeq reads k)
    (hlock : ∀ i, LockedAt reads' k i ↔ LockedAt reads k i) :
    restart reads' k = restart reads k := by
  unfold restart
  simp [hmax, hlock]

end Kar.Rpc
