import Mathlib.Data.List.Induction
import Kar.Rpc.RecoverSpec

/-!
# The maps of the scan

`scan` fills its maps in one pass over the messages read.  This module gives,
for each map, what it holds at the end of the pass in the terms of
`Kar.Rpc.RecoverSpec`.  All proofs are inductions on the messages read, with
the last message taken off: `scan_snoc` is the step.

The maps `handled` and `requests0` are read with a default of zero, so a first
message of sequence number zero is recorded and a missing key is not.
-/

namespace Kar.Rpc

open Kar.Lib List

variable (live : Live)

@[simp] theorem scan_nil : scan live [] = .empty := rfl

theorem scan_snoc :
    scan live (reads ++ [pm]) = scanMessage live (scan live reads) pm := by
  simp [scan]

theorem requestsOf_snoc_request (reads : List (Nat × Message)) (p : Nat) (v : Request) (k : String) :
    requestsOf (reads ++ [(p, .request v)]) k =
      requestsOf reads k ++ (if v.requestID = k then [(p, v)] else []) := by
  rw [requestsOf_append]
  by_cases h : v.requestID = k <;> simp [requestsOf, requestOf, h]

theorem requestsOf_snoc_record (reads : List (Nat × Message)) (p : Nat)
    (hm : m.isRecord = true) (k : String) :
    requestsOf (reads ++ [(p, m)]) k = requestsOf reads k := by
  rw [requestsOf_append]
  cases m with
  | request => simp [Message.isRecord] at hm
  | response => simp [requestsOf, requestOf]
  | done => simp [requestsOf, requestOf]

theorem answered_snoc_request (reads : List (Nat × Message)) (p : Nat) (v : Request)
    (k : String) : Answered (reads ++ [(p, .request v)]) k ↔ Answered reads k := by
  rw [answered_append]
  simp [Answered, Message.isRecord]

theorem answered_snoc_record (reads : List (Nat × Message)) (p : Nat)
    (hm : m.isRecord = true) (k : String) :
    Answered (reads ++ [(p, m)]) k ↔ Answered reads k ∨ m.requestID = k := by
  rw [answered_append]
  simp [Answered, hm]

/-- The induction of this module: a property of the messages read and the maps
they give holds at the end when it holds at the start and is kept by each
request and each completion record. -/
theorem scan_induction {P : List (Nat × Message) → Scan → Prop} (hnil : P [] .empty)
    (hrequest : ∀ reads s p v, P reads s → P (reads ++ [(p, .request v)]) (scanRequest live p s v))
    (hrecord : ∀ reads s p m, m.isRecord = true → P reads s →
      P (reads ++ [(p, m)]) (scanRecord live p s m))
    (reads : List (Nat × Message)) : P reads (scan live reads) := by
  induction reads using reverseRecOn with
  | nil => exact hnil
  | append_singleton reads pm ih =>
    rw [scan_snoc]
    obtain ⟨p, m⟩ := pm
    cases m with
    | request v => exact hrequest reads _ p v ih
    | response r => exact hrecord reads _ p (.response r) rfl ih
    | done d => exact hrecord reads _ p (.done d) rfl ih

/-! ## The latest message -/

theorem latestRead_snoc_request :
    latestRead (reads ++ [(p, .request v)]) v.requestID =
      keepMax (fun pv => pv.2.sequence) (latestRead reads v.requestID) (p, v) := by
  unfold latestRead
  rw [requestsOf_snoc_request, if_pos rfl, lastMax_append_singleton]

theorem latestRead_snoc_request_of_ne (reads : List (Nat × Message)) (p : Nat) (h : v.requestID ≠ k) :
    latestRead (reads ++ [(p, .request v)]) k = latestRead reads k := by
  unfold latestRead
  rw [requestsOf_snoc_request, if_neg h, append_nil]

theorem latestRead_snoc_record (reads : List (Nat × Message)) (p : Nat)
    (hm : m.isRecord = true) (k : String) :
    latestRead (reads ++ [(p, m)]) k = latestRead reads k := by
  unfold latestRead
  rw [requestsOf_snoc_record reads p hm]

/-- `max[k]` is the greatest sequence number of `k`. -/
theorem scan_max_get? (reads : List (Nat × Message)) :
    ∀ k, (scan live reads).max.get? k = (latestRead reads k).map (fun pv => pv.2.sequence) := by
  refine scan_induction live (P := fun reads s => ∀ k,
    s.max.get? k = (latestRead reads k).map (fun pv => pv.2.sequence)) ?_ ?_ ?_ reads
  · intro k
    simp [Scan.empty, latestRead, requestsOf]
  · intro reads s p v ih k
    by_cases hk : v.requestID = k
    · subst hk
      unfold latestRead
      rw [requestsOf_snoc_request, if_pos rfl]
      exact get?_raise_of_lastMax (fun pv : Nat × Request => pv.2.sequence) (ih v.requestID) (p, v)
    · rw [latestRead_snoc_request_of_ne reads p hk, ← ih k]
      exact GoMap.get?_raise_of_ne s.max (fun h => hk h.symm) v.sequence
  · intro reads s p m hm ih k
    rw [latestRead_snoc_record reads p hm]
    exact ih k

theorem scan_max (reads : List (Nat × Message)) (k : String) :
    (scan live reads).max.getD k 0 = maxSeq reads k := by
  rw [GoMap.getD_eq, scan_max_get?]
  rfl

/-- `latest[k]` is the latest message of `k`. -/
theorem scan_latest :
    (scan live reads).latest.get? k = (latestRead reads k).map Prod.snd := by
  induction reads using reverseRecOn with
  | nil => simp [Scan.empty, latestRead, requestsOf]
  | append_singleton reads pm ih =>
    rw [scan_snoc]
    obtain ⟨p, m⟩ := pm
    cases m with
    | request v =>
      simp only [scanMessage, scanRequest]
      by_cases hk : v.requestID = k
      · subst hk
        rw [latestRead_snoc_request, scan_max]
        cases hprev : latestRead reads v.requestID with
        | none => simp [keepMax, maxSeq, hprev]
        | some qw =>
          rw [hprev] at ih
          by_cases hle : qw.2.sequence ≤ v.sequence
          · simp [keepMax, maxSeq_eq hprev, hle]
          · simpa [keepMax, maxSeq_eq hprev, hle] using ih
      · rw [latestRead_snoc_request_of_ne reads p hk, ← ih]
        split_ifs
        · exact GoMap.get?_set_of_ne _ (fun h => hk h.symm) _
        · rfl
    | response =>
      rw [latestRead_snoc_record reads p rfl]
      exact ih
    | done =>
      rw [latestRead_snoc_record reads p rfl]
      exact ih

/-! ## Chains and the restart -/

/-- `chains[k]` holds the sequence numbers at which `k` carries a deferred lock. -/
theorem scan_chains (reads : List (Nat × Message)) :
    ∀ k i, ((scan live reads).chains.getD k .empty).has i = true ↔ LockedAt reads k i := by
  refine scan_induction live (P := fun reads s => ∀ k i,
    (s.chains.getD k .empty).has i = true ↔ LockedAt reads k i) ?_ ?_ ?_ reads
  · intro k i
    simp [Scan.empty, LockedAt, requestsOf, GoMap.getD_eq]
  · intro reads s p v ih k i
    have hsnoc : LockedAt (reads ++ [(p, .request v)]) k i ↔
        LockedAt reads k i ∨ (v.requestID = k ∧ v.locked = true ∧ v.sequence = i) := by
      unfold LockedAt
      rw [requestsOf_snoc_request]
      constructor
      · rintro ⟨pv, hmem, h⟩
        rcases mem_append.mp hmem with hl | hr
        · exact .inl ⟨pv, hl, h⟩
        split at hr
        · rename_i hid
          rw [mem_singleton.mp hr] at h
          exact .inr ⟨hid, h⟩
        · simp at hr
      · rintro (⟨pv, hmem, h⟩ | ⟨hid, h⟩)
        · exact ⟨pv, mem_append_left _ hmem, h⟩
        · exact ⟨(p, v), mem_append_right _ (by simp [hid]), h⟩
    rw [hsnoc, ← ih k i]
    simp only [scanRequest]
    by_cases hlock : v.locked = true
    · rw [if_pos hlock, GoMap.getD_eq, GoMap.get?_set]
      by_cases hk : k = v.requestID
      · subst hk
        rw [if_pos rfl, Option.getD_some, GoMap.has_set]
        simp only [Bool.or_eq_true, decide_eq_true_eq, hlock, true_and]
        constructor
        · rintro (h | h)
          · exact .inr h.symm
          · exact .inl h
        · rintro (h | h)
          · exact .inr h
          · exact .inl h.symm
      · rw [if_neg hk, ← GoMap.getD_eq]
        have hk' : v.requestID ≠ k := fun h => hk h.symm
        simp [hk']
    · rw [if_neg hlock]
      simp [hlock]
  · intro reads s p m hm ih k i
    unfold LockedAt
    rw [requestsOf_snoc_record reads p hm]
    exact ih k i

/-- The downward search finds the greatest sequence number outside the chain. -/
theorem lastOutside_eq_some (h : lastOutside chain n = some i) :
    i ≤ n ∧ chain.has i = false ∧ ∀ j, i < j → j ≤ n → chain.has j = true := by
  induction n with
  | zero =>
    rw [lastOutside] at h
    split at h
    · simp at h
    rename_i hfree
    cases h
    exact ⟨Nat.le_refl _, by simpa using hfree, fun j hj hj' => by omega⟩
  | succ n ih =>
    rw [lastOutside] at h
    split at h
    · rename_i hhas
      obtain ⟨hle, hfree, habove⟩ := ih h
      refine ⟨by omega, hfree, fun j hj hj' => ?_⟩
      rcases Nat.lt_or_ge n j with hn | hn
      · have hjn : j = n + 1 := by omega
        rw [hjn]
        exact hhas
      · exact habove j hj hn
    · rename_i hfree
      cases h
      exact ⟨Nat.le_refl _, by simpa using hfree, fun j hj hj' => by omega⟩

theorem lastOutside_eq_none (h : lastOutside chain n = none) :
    ∀ j, j ≤ n → chain.has j = true := by
  induction n with
  | zero =>
    intro j hj
    rw [lastOutside] at h
    split at h
    · rename_i hhas
      have hj0 : j = 0 := by omega
      rw [hj0]
      exact hhas
    · simp at h
  | succ n ih =>
    intro j hj
    rw [lastOutside] at h
    split at h
    · rename_i hhas
      rcases Nat.lt_or_ge n j with hn | hn
      · have hjn : j = n + 1 := by omega
        rw [hjn]
        exact hhas
      · exact ih h j hn
    · simp at h

theorem Scan.min_eq (s : Scan) (k : String) :
    s.min k = (lastOutside (s.chains.getD k .empty) (s.max.getD k 0)).getD (s.max.getD k 0) := by
  unfold Scan.min
  cases h : s.chains.get? k with
  | some => rw [GoMap.getD_eq s.chains, h, Option.getD_some]
  | none =>
    rw [GoMap.getD_eq s.chains, h, Option.getD_none]
    cases s.max.getD k 0 <;> simp [lastOutside]

/-- `min[k]` is the sequence number at which `k` restarts. -/
theorem scan_min (reads : List (Nat × Message)) (k : String) :
    (scan live reads).min k = restart reads k := by
  rw [Scan.min_eq, scan_max]
  cases h : lastOutside ((scan live reads).chains.getD k .empty) (maxSeq reads k) with
  | none =>
    have hall := lastOutside_eq_none h
    unfold restart
    rw [if_neg]
    · rfl
    · rintro ⟨i, hle, hfree⟩
      exact hfree ((scan_chains live reads k i).mp (hall i hle))
  | some i =>
    obtain ⟨hle, hfree, habove⟩ := lastOutside_eq_some h
    have hfree' : ¬ LockedAt reads k i := fun hlock => by
      rw [(scan_chains live reads k i).mpr hlock] at hfree
      simp at hfree
    -- Both sides are the greatest number up to `maxSeq` without a lock.
    rcases Nat.lt_trichotomy (restart reads k) i with hlt | heq | hgt
    · exact absurd (lockedAt_of_restart_lt hlt hle) hfree'
    · rw [heq]
      rfl
    · have hlock := (scan_chains live reads k _).mp
        (habove (restart reads k) hgt (restart_le_maxSeq reads k))
      exact absurd hlock (not_lockedAt_restart hle hfree')

/-! ## Live partitions, partition `0` and completion records -/

/-- The requests of id `k` that were read from the partitions in `f`. -/
def requestsIn (f : Nat → Bool) (reads : List (Nat × Message)) (k : String) :
    List (Nat × Request) :=
  (requestsOf reads k).filter (fun pv => f pv.1)

theorem mem_requestsIn
    :
    (p, v) ∈ requestsIn f reads k ↔ (p, .request v) ∈ reads ∧ v.requestID = k ∧ f p = true := by
  unfold requestsIn
  rw [mem_filter, mem_requestsOf, and_assoc]

theorem requestsIn_snoc_request :
    requestsIn f (reads ++ [(p, .request v)]) k =
      requestsIn f reads k ++ (if v.requestID = k ∧ f p = true then [(p, v)] else []) := by
  unfold requestsIn
  rw [requestsOf_snoc_request, filter_append]
  by_cases hk : v.requestID = k <;> by_cases hf : f p = true <;> simp [hk, hf]

theorem requestsIn_snoc_record (f : Nat → Bool) (reads : List (Nat × Message)) (p : Nat)
    (hm : m.isRecord = true) (k : String) :
    requestsIn f (reads ++ [(p, m)]) k = requestsIn f reads k := by
  unfold requestsIn
  rw [requestsOf_snoc_record reads p hm]

/-- A map that is raised at every request read from the partitions in `f` holds
their greatest sequence number. -/
theorem get?_raise_of_requestsIn {m : GoMap String Nat}
    {k : String} (h : m.get? k = (lastMax (fun pv => pv.2.sequence) (requestsIn f reads k)).map
      (fun pv => pv.2.sequence)) (p : Nat) (v : Request) :
    (if f p = true then m.raise v.requestID v.sequence else m).get? k = (lastMax (fun pv =>
      pv.2.sequence) (requestsIn f (reads ++ [(p, .request v)]) k)).map (fun pv => pv.2.sequence) :=
      by
  rw [requestsIn_snoc_request]
  by_cases hf : f p = true
  · rw [if_pos hf]
    by_cases hk : v.requestID = k
    · subst hk
      rw [if_pos ⟨rfl, hf⟩]
      exact get?_raise_of_lastMax (fun pv : Nat × Request => pv.2.sequence) h (p, v)
    · rw [if_neg (fun hand => hk hand.1), append_nil, ← h]
      exact GoMap.get?_raise_of_ne m (fun heq => hk heq.symm) v.sequence
  · rw [if_neg hf, if_neg (fun hand => hf hand.2), append_nil, ← h]

/-- `handled[k]` of a request without completion record is the greatest
sequence number of `k` in the live partitions. -/
theorem scan_handled_of_not_answered (reads : List (Nat × Message)) :
    ∀ k, ¬ Answered reads k → (scan live reads).handled.get? k = (lastMax (fun pv => pv.2.sequence)
      (requestsIn live.mem reads k)).map (fun pv => pv.2.sequence) := by
  refine scan_induction live (P := fun reads s => ∀ k, ¬ Answered reads k → s.handled.get? k =
    (lastMax (fun pv => pv.2.sequence) (requestsIn live.mem reads k)).map (fun pv => pv.2.sequence))
    ?_ ?_ ?_ reads
  · intro k _
    simp [Scan.empty, requestsIn, requestsOf]
  · intro reads s p v ih k hk
    rw [answered_snoc_request] at hk
    exact get?_raise_of_requestsIn (ih k hk) p v
  · intro reads s p m hm ih k hk
    rw [answered_snoc_record reads p hm] at hk
    rw [requestsIn_snoc_record live.mem reads p hm, ← ih k (fun h => hk (.inl h))]
    exact GoMap.get?_set_of_ne s.handled (fun h => hk (.inr h.symm)) sentinel

/-- `handled[k]` of a request with completion record is at least the sentinel. -/
theorem scan_handled_of_answered (reads : List (Nat × Message)) :
    ∀ k, Answered reads k → ∃ h, (scan live reads).handled.get? k = some h ∧ sentinel ≤ h := by
  refine scan_induction live (P := fun reads s => ∀ k, Answered reads k →
    ∃ h, s.handled.get? k = some h ∧ sentinel ≤ h) ?_ ?_ ?_ reads
  · intro k hk
    simp [Answered] at hk
  · intro reads s p v ih k hk
    rw [answered_snoc_request] at hk
    obtain ⟨h, hget, hle⟩ := ih k hk
    simp only [scanRequest]
    split
    · by_cases hid : k = v.requestID
      · subst hid
        rw [GoMap.raise, GoMap.getD_eq, hget, Option.getD_some]
        split
        · exact ⟨v.sequence, GoMap.get?_set_self .., by omega⟩
        · exact ⟨h, hget, hle⟩
      · rw [GoMap.get?_raise_of_ne _ hid]
        exact ⟨h, hget, hle⟩
    · exact ⟨h, hget, hle⟩
  · intro reads s p m hm ih k hk
    rw [answered_snoc_record reads p hm] at hk
    simp only [scanRecord, GoMap.get?_set]
    split
    · exact ⟨sentinel, rfl, Nat.le_refl _⟩
    · rename_i hid
      rcases hk with hk | hk
      · exact ih k hk
      · exact absurd hk.symm hid

/-- The test for partition `0`. -/
def isZero (p : Nat) : Bool := decide (p = 0)

/-- `requests0[k]` is the greatest sequence number of `k` in partition `0`. -/
theorem scan_requests0 (reads : List (Nat × Message)) :
    ∀ k, (scan live reads).requests0.get? k = (lastMax (fun pv => pv.2.sequence) (requestsIn isZero
      reads k)).map (fun pv => pv.2.sequence) := by
  refine scan_induction live (P := fun reads s => ∀ k, s.requests0.get? k = (lastMax (fun pv =>
    pv.2.sequence) (requestsIn isZero reads k)).map (fun pv => pv.2.sequence)) ?_ ?_ ?_ reads
  · intro k
    simp [Scan.empty, requestsIn, requestsOf]
  · intro reads s p v ih k
    rw [← get?_raise_of_requestsIn (ih k) p v]
    have hzero : (!live.mem p) = true ∧ p = 0 ↔ isZero p = true := by
      simp only [isZero, decide_eq_true_eq]
      constructor
      · exact fun h => h.2
      · rintro rfl
        simp [live.zero]
    simp only [scanRequest, hzero]
  · intro reads s p m hm ih k
    rw [requestsIn_snoc_record isZero reads p hm]
    exact ih k

/-- `requests` holds the requests of live partitions and of partition `0`. -/
theorem scan_requests (reads : List (Nat × Message)) :
    ∀ k, (scan live reads).requests.has k = true ↔
      ∃ pv ∈ requestsOf reads k, live.mem pv.1 = true ∨ pv.1 = 0 := by
  refine scan_induction live (P := fun reads s => ∀ k, s.requests.has k = true ↔
    ∃ pv ∈ requestsOf reads k, live.mem pv.1 = true ∨ pv.1 = 0) ?_ ?_ ?_ reads
  · intro k
    simp [Scan.empty, requestsOf]
  · intro reads s p v ih k
    have hset : ((scanRequest live p s v).requests.has k = true) ↔
        (s.requests.has k = true ∨ (v.requestID = k ∧ (live.mem p = true ∨ p = 0))) := by
      simp only [scanRequest]
      split
      · rename_i hkeep
        rw [GoMap.has_set]
        simp only [Bool.or_eq_true, decide_eq_true_eq, hkeep, and_true]
        constructor
        · rintro (h | h)
          · exact .inr h.symm
          · exact .inl h
        · rintro (h | h)
          · exact .inr h
          · exact .inl h.symm
      · rename_i hdrop
        simp [hdrop]
    rw [hset, ih k, requestsOf_snoc_request]
    constructor
    · rintro (⟨pv, hmem, h⟩ | ⟨hid, h⟩)
      · exact ⟨pv, mem_append_left _ hmem, h⟩
      · exact ⟨(p, v), mem_append_right _ (by simp [hid]), h⟩
    rintro ⟨pv, hmem, h⟩
    rcases mem_append.mp hmem with hl | hr
    · exact .inl ⟨pv, hl, h⟩
    split at hr
    · rename_i hid
      rw [mem_singleton.mp hr] at h
      exact .inr ⟨hid, h⟩
    · simp at hr
  · intro reads s p m hm ih k
    rw [requestsOf_snoc_record reads p hm]
    exact ih k

/-- `responses` holds the answered requests. -/
theorem scan_responses (reads : List (Nat × Message)) :
    ∀ k, (scan live reads).responses.has k = true ↔ Answered reads k := by
  refine scan_induction live (P := fun reads s => ∀ k,
    s.responses.has k = true ↔ Answered reads k) ?_ ?_ ?_ reads
  · intro k
    simp [Scan.empty, Answered]
  · intro reads s p v ih k
    rw [answered_snoc_request, ← ih k]
    rfl
  intro reads s p m hm ih k
  rw [answered_snoc_record reads p hm, ← ih k]
  simp only [scanRecord, GoMap.has_set, Bool.or_eq_true, decide_eq_true_eq]
  constructor
  · rintro (h | h)
    · exact .inr h.symm
    · exact .inl h
  · rintro (h | h)
    · exact .inr h
    · exact .inl h.symm

/-- `responses0` holds the requests answered in partition `0`. -/
theorem scan_responses0 (reads : List (Nat × Message)) :
    ∀ k, (scan live reads).responses0.has k = true ↔
      ∃ m, (0, m) ∈ reads ∧ m.isRecord = true ∧ m.requestID = k := by
  refine scan_induction live (P := fun reads s => ∀ k, s.responses0.has k = true ↔
    ∃ m, (0, m) ∈ reads ∧ m.isRecord = true ∧ m.requestID = k) ?_ ?_ ?_ reads
  · intro k
    simp [Scan.empty]
  · intro reads s p v ih k
    have hsame : (scanRequest live p s v).responses0 = s.responses0 := rfl
    rw [hsame, ih k]
    constructor
    · rintro ⟨m, hmem, h⟩
      exact ⟨m, mem_append_left _ hmem, h⟩
    rintro ⟨m, hmem, hrec, hid⟩
    rcases mem_append.mp hmem with hl | hr
    · exact ⟨m, hl, hrec, hid⟩
    · simp only [mem_singleton, Prod.mk.injEq] at hr
      rw [hr.2] at hrec
      simp [Message.isRecord] at hrec
  · intro reads s p m hm ih k
    have hset : ((scanRecord live p s m).responses0.has k = true) ↔
        (s.responses0.has k = true ∨ (p = 0 ∧ m.requestID = k)) := by
      simp only [scanRecord]
      split
      · rename_i hp
        rw [GoMap.has_set]
        simp only [Bool.or_eq_true, decide_eq_true_eq, hp, true_and]
        constructor
        · rintro (h | h)
          · exact .inr h.symm
          · exact .inl h
        · rintro (h | h)
          · exact .inr h
          · exact .inl h.symm
      · rename_i hp
        simp [hp]
    rw [hset, ih k]
    constructor
    · rintro (⟨m', hmem, h⟩ | ⟨rfl, hid⟩)
      · exact ⟨m', mem_append_left _ hmem, h⟩
      · exact ⟨m, by simp, hm, hid⟩
    rintro ⟨m', hmem, hrec, hid⟩
    rcases mem_append.mp hmem with hl | hr
    · exact .inl ⟨m', hl, hrec, hid⟩
    · simp only [mem_singleton, Prod.mk.injEq] at hr
      rw [hr.2] at hid
      exact .inr ⟨hr.1.symm, hid⟩

/-! ## The orphan messages -/

/-- Whether a read message is of a dead partition. -/
def inDead (pm : Nat × Message) : Bool := !live.mem pm.1 && decide (pm.1 ≠ 0)

/-- Whether a read message is a request of partition `0`. -/
def isRequest0 (pm : Nat × Message) : Bool := decide (pm.1 = 0) && !pm.2.isRecord

/-- `orphans` holds the messages of dead partitions, in reading order. -/
theorem scan_orphans (reads : List (Nat × Message)) :
    (scan live reads).orphans = (reads.filter (inDead live)).map Prod.snd := by
  refine scan_induction live (P := fun reads s =>
    s.orphans = (reads.filter (inDead live)).map Prod.snd) rfl ?_ ?_ reads
  · intro reads s p v ih
    simp only [scanRequest, filter_append, map_append, ih]
    by_cases hlive : live.mem p = true <;> by_cases hp : p = 0 <;> simp [inDead, hlive, hp]
  · intro reads s p m _ ih
    simp only [scanRecord, filter_append, map_append, ih]
    by_cases hlive : live.mem p = true <;> by_cases hp : p = 0 <;> simp [inDead, hlive, hp]

/-- `orphans0` holds the requests of partition `0`, in reading order. -/
theorem scan_orphans0 (reads : List (Nat × Message)) :
    (scan live reads).orphans0 = (reads.filter isRequest0).map Prod.snd := by
  refine scan_induction live (P := fun reads s =>
    s.orphans0 = (reads.filter isRequest0).map Prod.snd) rfl ?_ ?_ reads
  · intro reads s p v ih
    simp only [scanRequest, filter_append, map_append, ih]
    by_cases hp : p = 0
    · subst hp
      simp [isRequest0, live.zero, Message.isRecord]
    · simp [isRequest0, hp]
  · intro reads s p m hm ih
    simp only [scanRecord, filter_append, map_append, ih]
    simp [isRequest0, hm]

/-! ## Nested calls -/

/-- The nested call of `k` in a read message, if it is one. -/
def nestedOf (k : String) (pm : Nat × Message) : Option String :=
  match pm.2 with
  | .request (.call c) => if c.parentID = k then some c.requestID else none
  | _ => none

/-- `calls[k]` lists the nested calls of `k`, in reading order. -/
theorem scan_calls (reads : List (Nat × Message)) :
    ∀ k, (scan live reads).calls.getD k [] = reads.filterMap (nestedOf k) := by
  refine scan_induction live (P := fun reads s => ∀ k,
    s.calls.getD k [] = reads.filterMap (nestedOf k)) (fun _ => rfl) ?_ ?_ reads
  · intro reads s p v ih k
    rw [filterMap_append]
    cases v with
    | call c =>
      simp only [scanRequest, GoMap.getD_eq, GoMap.get?_set]
      by_cases hk : k = c.parentID
      · subst hk
        rw [if_pos rfl, Option.getD_some, ← GoMap.getD_eq, ih]
        simp [nestedOf]
      · rw [if_neg hk, ← GoMap.getD_eq, ih]
        have hk' : c.parentID ≠ k := fun h => hk h.symm
        simp [nestedOf, hk']
    | tell =>
      simp only [scanRequest, ih]
      simp [nestedOf]
  · intro reads s p m hm ih k
    rw [filterMap_append]
    simp only [scanRecord, ih]
    cases m with
    | request => simp [Message.isRecord] at hm
    | response => simp [nestedOf]
    | done => simp [nestedOf]

end Kar.Rpc
