import Kar.Rpc.RoutingSpec
import Kar.Rpc.ScanSpec

/-!
# The requests that a recovery sends again

The resend loop walks over the orphan messages and decides from the maps of the
scan.  This module reads its decisions in the terms of `Kar.Rpc.RecoverSpec`.

* `mem_resentIds_of_not_answered`: a request without completion record is sent
  again exactly when it is an `Orphan`.
* `not_mem_resentIds_of_answered`: a request with a completion record is not
  sent again, as long as its sequence numbers stay up to the sentinel.
* `resends_eq`: the calls of `resend`, in order.  Each id occurs once, at the
  place of its first restart message.
* `recover_meets_spec` puts this together with the outcomes of the sends.
-/

namespace Kar.Rpc

open Kar.Lib List

variable (live : Live) (reads : List (Nat × Message))

/-! ## The tests of the loop -/

/-- For a request without completion record, `unhandled` says that no live
partition has its latest message. -/
theorem unhandled_of_not_answered (hk : ¬ Answered reads k) :
    (scan live reads).unhandled k = true ↔ ¬ HeldLive live reads k := by
  unfold Scan.unhandled
  rw [scan_handled_of_not_answered live reads k hk, scan_max]
  cases hlast : lastMax (fun pv => pv.2.sequence) (requestsIn live.mem reads k) with
  | none =>
    have hnil := (lastMax_eq_none_iff _ _).mp hlast
    simp only [Option.map_none, true_iff]
    rintro ⟨⟨p, v⟩, hmem, hlive, -⟩
    have hin : (p, v) ∈ requestsIn live.mem reads k :=
      mem_requestsIn.mpr ⟨(mem_requestsOf.mp hmem).1, (mem_requestsOf.mp hmem).2, hlive⟩
    rw [hnil] at hin
    simp at hin
  | some qw =>
    obtain ⟨q, w⟩ := qw
    have hin := mem_requestsIn.mp (lastMax_mem _ hlast)
    have hof : (q, w) ∈ requestsOf reads k := mem_requestsOf.mpr ⟨hin.1, hin.2.1⟩
    have hle := sequence_le_maxSeq hof
    simp only [Option.map_some, decide_eq_true_eq]
    constructor
    · rintro hlt ⟨⟨p, v⟩, hmem, hlive, heq⟩
      have hpv : (p, v) ∈ requestsIn live.mem reads k :=
        mem_requestsIn.mpr ⟨(mem_requestsOf.mp hmem).1, (mem_requestsOf.mp hmem).2, hlive⟩
      have hbound := key_le_lastMax (fun pv : Nat × Request => pv.2.sequence) hlast hpv
      simp only at hbound heq
      omega
    · intro hnot
      have hne : w.sequence ≠ maxSeq reads k := fun heq => hnot ⟨(q, w), hof, hin.2.2, heq⟩
      simp only at hle
      omega

theorem unhandled_of_answered (hk : Answered reads k)
    (hbound : maxSeq reads k ≤ sentinel) : (scan live reads).unhandled k = false := by
  obtain ⟨h, hget, hle⟩ := scan_handled_of_answered live reads k hk
  unfold Scan.unhandled
  rw [hget, scan_max]
  simp only [decide_eq_false_iff_not]
  omega

/-- Partition `0` has a message of `k` of greatest sequence number. -/
def HeldZero (k : String) : Prop :=
  ∃ v, (0, v) ∈ requestsOf reads k ∧ v.sequence = maxSeq reads k

theorem inPartition0_iff (k : String) :
    (scan live reads).inPartition0 k = true ↔ HeldZero reads k := by
  unfold Scan.inPartition0
  rw [scan_requests0, scan_max]
  cases hlast : lastMax (fun pv => pv.2.sequence) (requestsIn isZero reads k) with
  | none =>
    have hnil := (lastMax_eq_none_iff _ _).mp hlast
    simp only [Option.map_none, Bool.false_eq_true, false_iff]
    rintro ⟨v, hmem, -⟩
    have hin : (0, v) ∈ requestsIn isZero reads k :=
      mem_requestsIn.mpr ⟨(mem_requestsOf.mp hmem).1, (mem_requestsOf.mp hmem).2, rfl⟩
    rw [hnil] at hin
    simp at hin
  | some qw =>
    obtain ⟨q, w⟩ := qw
    have hin := mem_requestsIn.mp (lastMax_mem _ hlast)
    have hq : q = 0 := by simpa [isZero] using hin.2.2
    subst hq
    have hof : (0, w) ∈ requestsOf reads k := mem_requestsOf.mpr ⟨hin.1, hin.2.1⟩
    have hle := sequence_le_maxSeq hof
    simp only [Option.map_some, decide_eq_true_eq]
    constructor
    · intro hge
      exact ⟨w, hof, Nat.le_antisymm hle hge⟩
    rintro ⟨v, hmem, heq⟩
    have hv : (0, v) ∈ requestsIn isZero reads k :=
      mem_requestsIn.mpr ⟨(mem_requestsOf.mp hmem).1, (mem_requestsOf.mp hmem).2, rfl⟩
    have hbound := key_le_lastMax (fun pv : Nat × Request => pv.2.sequence) hlast hv
    simp only at hbound
    omega

/-- The nested calls of `k` that have no completion record, in reading order. -/
def openCalls (k : String) : List String :=
  (reads.filterMap (nestedOf k)).filter (fun r => decide (¬ Answered reads r))

/-- The child that a retry of `k` waits for: the last open nested call. -/
def childOf (k : String) : String := (openCalls reads k).getLast?.getD ""

theorem scan_childID : (scan live reads).childID k = childOf reads k := by
  unfold Scan.childID childOf openCalls
  rw [scan_calls]
  induction reads.filterMap (nestedOf k) using reverseRecOn with
  | nil => rfl
  | append_singleton _ r ih =>
    rw [foldl_append, filter_append, ih]
    by_cases hr : Answered reads r
    · simp [(scan_responses live reads r).mpr hr, hr]
    · have hno : (scan live reads).responses.has r = false := by
        by_contra hyes
        exact hr ((scan_responses live reads r).mp (by simpa using hyes))
      simp [hno, hr]

/-! ## The calls of `resend` -/

/-- The request and the flag of a call of `resend`. -/
def Action.resend? : Action → Option (Request × Bool)
  | .resend msg drop => some (msg, drop)
  | .respond _ => none

/-- The calls of `resend` in a list of sends. -/
def resends (actions : List Action) : List (Request × Bool) := actions.filterMap Action.resend?

/-- The id of an orphan that passes the tests of the loop, seen or not. -/
def candidate (s : Scan) (m : Message) : Option String :=
  match m with
  | .request v =>
    if s.unhandled v.requestID && decide (v.sequence = s.min v.requestID) then
      some v.requestID
    else none
  | _ => none

/-- The call of `resend` for an id with a latest message. -/
def Scan.resendOf (s : Scan) (k : String) : Option (Request × Bool) :=
  (s.latest.get? k).map (fun w => (w.restartAt (s.childID k) (s.min k), s.inPartition0 k))

theorem resends_recoverLoop (s : Scan) (ms : List Message) (seen : GoMap String Unit)
    (hlatest : ∀ v, Message.request v ∈ ms → (s.latest.get? v.requestID).isSome = true) :
    (resends (recoverLoop s ms seen)).map some =
      (firsts seen (ms.filterMap (candidate s))).map s.resendOf := by
  induction ms generalizing seen with
  | nil => rfl
  | cons m ms ih =>
    have hrest : ∀ v, Message.request v ∈ ms → (s.latest.get? v.requestID).isSome = true :=
      fun v hv => hlatest v (mem_cons_of_mem _ hv)
    -- A completion record is no candidate and calls `respond` or nothing.
    have hrecord : ∀ m' : Message, m'.isRecord = true → m = m' →
        (resends (recoverLoop s (m :: ms) seen)).map some =
          (firsts seen ((m :: ms).filterMap (candidate s))).map s.resendOf := by
      rintro m' hm rfl
      have hcand : candidate s m = none := by
        cases m <;> simp_all [candidate, Message.isRecord]
      rw [filterMap_cons_none hcand, ← ih seen hrest, recoverLoop]
      have hseen : (recoverStep s seen m).2 = seen := by
        cases m <;> simp only [recoverStep] <;> split <;> simp_all [Message.isRecord]
      have hact : (recoverStep s seen m).1.bind Action.resend? = none := by
        cases m <;> simp only [recoverStep] <;> split <;> simp_all [Message.isRecord, Action.resend?]
      cases hstep : recoverStep s seen m with
      | mk act =>
        rw [hstep] at hseen hact
        subst hseen
        cases act with
        | none => rfl
        | some =>
          simp only [Option.bind_some] at hact
          simp [resends, hact]
    cases m with
    | response r => exact hrecord (.response r) rfl rfl
    | done d => exact hrecord (.done d) rfl rfl
    | request v =>
      rw [recoverLoop, recoverStep]
      by_cases htest : (s.unhandled v.requestID && decide (v.sequence = s.min v.requestID)) = true
      · have hcand : candidate s (.request v) = some v.requestID := by
          rw [candidate, if_pos htest]
        rw [if_pos htest, filterMap_cons_some hcand, firsts]
        by_cases hseen : seen.has v.requestID = true
        · rw [if_pos hseen, if_pos hseen]
          exact ih seen hrest
        rw [if_neg hseen, if_neg hseen]
        have hsome := hlatest v mem_cons_self
        obtain ⟨w, hw⟩ := Option.isSome_iff_exists.mp hsome
        have hhead : some (s.restarted v.requestID v, s.inPartition0 v.requestID) =
            s.resendOf v.requestID := by
          simp [Scan.restarted, Scan.resendOf, hw]
        simp only [resends, filterMap_cons, Action.resend?, map_cons]
        rw [hhead, ← ih (seen.set v.requestID ()) hrest]
        rfl
      · have hcand : candidate s (.request v) = none := by
          rw [candidate, if_neg htest]
        rw [if_neg htest, filterMap_cons_none hcand]
        exact ih seen hrest

/-- The orphan messages with their partitions: those of the dead partitions in
reading order, then the requests of partition `0`. -/
def orphanReads : List (Nat × Message) :=
  reads.filter (inDead live) ++ reads.filter isRequest0

theorem scan_orphans_append :
    (scan live reads).orphans ++ (scan live reads).orphans0 =
      (orphanReads live reads).map Prod.snd := by
  rw [scan_orphans, scan_orphans0, orphanReads, map_append]

theorem request_mem_orphanReads :
    (p, Message.request v) ∈ orphanReads live reads ↔
      (p, Message.request v) ∈ reads ∧ live.mem p = false := by
  unfold orphanReads
  rw [mem_append, mem_filter, mem_filter]
  by_cases hp : p = 0
  · subst hp
    simp [inDead, isRequest0, live.zero, Message.isRecord]
  · simp [inDead, isRequest0, hp]

/-- The ids that a recovery sends again, in order. -/
def resentIds : List String :=
  ((orphanReads live reads).filterMap
    (fun pm => candidate (scan live reads) pm.2)).eraseDups

theorem mem_resentIds :
    k ∈ resentIds live reads ↔ (scan live reads).unhandled k = true ∧
      ∃ pv ∈ requestsOf reads k, RestartsHere live reads pv := by
  unfold resentIds
  rw [mem_eraseDups, mem_filterMap]
  constructor
  · rintro ⟨⟨p, m⟩, hmem, hcand⟩
    cases m with
    | response => simp [candidate] at hcand
    | done => simp [candidate] at hcand
    | request v =>
      obtain ⟨htest, hcand⟩ := Option.ite_none_right_eq_some.mp hcand
      cases hcand
      simp only [Bool.and_eq_true, decide_eq_true_eq, scan_min] at htest
      obtain ⟨hread, hdead⟩ := (request_mem_orphanReads live reads).mp hmem
      exact ⟨htest.1, (p, v), mem_requestsOf.mpr ⟨hread, rfl⟩, hdead, htest.2⟩
  · rintro ⟨hun, ⟨p, v⟩, hmem, hdead, hseq⟩
    obtain ⟨hread, rfl⟩ := mem_requestsOf.mp hmem
    refine ⟨(p, .request v), (request_mem_orphanReads live reads).mpr ⟨hread, hdead⟩, ?_⟩
    have htest : ((scan live reads).unhandled v.requestID &&
        decide (v.sequence = (scan live reads).min v.requestID)) = true := by
      rw [scan_min]
      simpa using ⟨hun, hseq⟩
    simp only [candidate, if_pos htest]

/-- A request without completion record is sent again exactly when it is an
orphan. -/
theorem mem_resentIds_of_not_answered (hk : ¬ Answered reads k) :
    k ∈ resentIds live reads ↔ Orphan live reads k := by
  rw [mem_resentIds, unhandled_of_not_answered live reads hk]
  exact ⟨fun h => ⟨hk, h.1, h.2⟩, fun h => ⟨h.notHeld, h.restarts⟩⟩

/-- A request with a completion record is not sent again. -/
theorem not_mem_resentIds_of_answered (hk : Answered reads k)
    (hbound : maxSeq reads k ≤ sentinel) : k ∉ resentIds live reads := by
  rw [mem_resentIds, unhandled_of_answered live reads hk hbound]
  simp

/-- The call of `resend` for `k`. -/
def resendOf (k : String) : Option (Request × Bool) :=
  (latestRead reads k).map
    (fun qw => (qw.2.restartAt (childOf reads k) (restart reads k),
      (scan live reads).inPartition0 k))

theorem scan_resendOf : (scan live reads).resendOf k = resendOf live reads k := by
  unfold Scan.resendOf resendOf
  rw [scan_latest, scan_childID, scan_min, Option.map_map]
  rfl

/-- The calls of `resend`, in order. -/
theorem resends_eq :
    (resends (scan live reads).actions).map some =
      (resentIds live reads).map (resendOf live reads) := by
  unfold Scan.actions resentIds
  rw [resends_recoverLoop, firsts_empty, scan_orphans_append, filterMap_map]
  · exact map_congr_left (fun k _ => scan_resendOf live reads)
  intro v hv
  rw [scan_orphans_append, mem_map] at hv
  obtain ⟨⟨p, m⟩, hmem, rfl⟩ := hv
  have hread := ((request_mem_orphanReads live reads).mp hmem).1
  obtain ⟨qw, hqw⟩ := exists_latestRead (mem_requestsOf.mpr ⟨hread, rfl⟩)
  rw [scan_latest, hqw]
  rfl

namespace Request

variable (v : Request) (child : String) (i : Nat)

@[simp] theorem requestID_restartAt : (v.restartAt child i).requestID = v.requestID := by
  cases v <;> rfl

@[simp] theorem target_restartAt : (v.restartAt child i).target = v.target.clearLock := by
  cases v <;> rfl

@[simp] theorem method_restartAt : (v.restartAt child i).method = v.method := by
  cases v <;> rfl

@[simp] theorem value_restartAt : (v.restartAt child i).value = v.value := by
  cases v <;> rfl

@[simp] theorem sequence_restartAt : (v.restartAt child i).sequence = i := by
  cases v <;> rfl

@[simp] theorem childID_restartAt : (v.restartAt child i).childID = child := by
  cases v <;> rfl

@[simp] theorem callParent_restartAt : (v.restartAt child i).callParent = v.callParent := by
  cases v <;> rfl

@[simp] theorem locked_restartAt : (v.restartAt child i).locked = false := by
  simp [locked]

@[simp] theorem content_restartAt : (v.restartAt child i).content = v.content := by
  simp [content]

end Request

/-- A call of `resend` is about an id of `resentIds`, and its message is made
from the latest message of that id. -/
theorem mem_resends (h : r ∈ resends (scan live reads).actions) :
    r.1.requestID ∈ resentIds live reads ∧ ∃ qw, latestRead reads r.1.requestID = some qw ∧ r =
      (qw.2.restartAt (childOf reads r.1.requestID) (restart reads r.1.requestID), (scan live
      reads).inPartition0 r.1.requestID) := by
  have hmem : some r ∈ (resends (scan live reads).actions).map some := mem_map_of_mem h
  rw [resends_eq, mem_map] at hmem
  obtain ⟨k, hk, hr⟩ := hmem
  cases hlatest : latestRead reads k with
  | none => simp [resendOf, hlatest] at hr
  | some qw =>
    simp only [resendOf, hlatest, Option.map_some, Option.some.injEq] at hr
    have hid : r.1.requestID = k := by
      rw [← hr]
      simp only [Request.requestID_restartAt]
      exact (mem_requestsOf.mp (latestRead_mem hlatest)).2
    rw [hid]
    exact ⟨hk, qw, hlatest, hr.symm⟩

theorem resends_ids :
    (resends (scan live reads).actions).map (fun r => r.1.requestID) = resentIds live reads := by
  have hopt : ((resends (scan live reads).actions).map (fun r => r.1.requestID)).map some =
      (resentIds live reads).map some := by
    rw [map_map]
    have hcomp : (some ∘ fun r : Request × Bool => r.1.requestID) =
        (fun o : Option (Request × Bool) => o.map (fun r => r.1.requestID)) ∘ some := rfl
    rw [hcomp, ← map_map, resends_eq, map_map]
    apply map_congr_left
    intro k hk
    obtain ⟨-, pv, hpv, -⟩ := (mem_resentIds live reads).mp hk
    obtain ⟨qw, hqw⟩ := exists_latestRead hpv
    simp [resendOf, hqw, (mem_requestsOf.mp (latestRead_mem hqw)).2]
  exact map_injective_iff.mpr (fun _ _ h => Option.some.inj h) hopt

theorem nodup_resentIds : (resentIds live reads).Nodup := by
  unfold resentIds
  rw [← firsts_empty]
  exact (nodup_firsts _ _).1

/-! ## The specification of a recovery -/

/-- Every sequence number read is below the sentinel. -/
def Bounded : Prop := ∀ pm ∈ reads, pm.2.sequence < sentinel

instance : Decidable (Bounded reads) := inferInstanceAs (Decidable (∀ pm ∈ reads, _))

variable {reads} in
theorem Bounded.maxSeq_le (h : Bounded reads) (k : String) : maxSeq reads k ≤ sentinel := by
  cases hlatest : latestRead reads k with
  | none => simp [maxSeq, hlatest]
  | some =>
    rw [maxSeq_eq hlatest]
    have hread := (mem_requestsOf.mp (latestRead_mem hlatest)).1
    exact Nat.le_of_lt (h _ hread)

/-- The id of a request message, when the id has to be sent again and the
message is the one it restarts at. -/
def restartId (pm : Nat × Message) : Option String :=
  match pm.2 with
  | .request v =>
    if ¬ Answered reads v.requestID ∧ ¬ HeldLive live reads v.requestID ∧
        v.sequence = restart reads v.requestID then
      some v.requestID
    else none
  | _ => none

/-- What `recover` has to send again, for the messages it read and the live
partitions, as a list of requests with the flag that keeps an unroutable
request out of partition `0`. -/
structure ResendsSpec (calls : List (Request × Bool)) : Prop where
  /-- The ids sent again are the orphans. -/
  exactly : ∀ k, k ∈ calls.map (fun r => r.1.requestID) ↔ Orphan live reads k
  /-- No id is sent twice. -/
  once : (calls.map (fun r => r.1.requestID)).Nodup
  /-- The ids come in the order of their first restart messages: in the dead
  partitions in reading order, then in partition `0`. -/
  order : calls.map (fun r => r.1.requestID) =
    ((orphanReads live reads).filterMap (restartId live reads)).eraseDups
  /-- The message sent has the target, the method and the payload of the latest
  message, the sequence number of the restart and no deferred lock. -/
  message : ∀ r ∈ calls, ∃ qw, latestRead reads r.1.requestID = some qw ∧
    r.1.target = qw.2.target.clearLock ∧ r.1.method = qw.2.method ∧
    r.1.value = qw.2.value ∧ r.1.sequence = restart reads r.1.requestID ∧
    r.1.target.deferredLockID = ""
  /-- The flag says that partition `0` has a message of the id of greatest
  sequence number. -/
  drop : ∀ r ∈ calls, r.2 = true ↔ HeldZero reads r.1.requestID

theorem resentIds_eq (hbound : Bounded reads) :
    resentIds live reads =
      ((orphanReads live reads).filterMap (restartId live reads)).eraseDups := by
  unfold resentIds
  congr 1
  apply filterMap_congr
  rintro ⟨p, m⟩ -
  cases m with
  | response => rfl
  | done => rfl
  | request v =>
    simp only [candidate, restartId, Bool.and_eq_true, decide_eq_true_eq, scan_min]
    by_cases hans : Answered reads v.requestID
    · have hun := unhandled_of_answered live reads hans (hbound.maxSeq_le v.requestID)
      simp [hun, hans]
    · simp [unhandled_of_not_answered live reads hans, hans]

theorem resendsSpec_scan (hbound : Bounded reads) :
    ResendsSpec live reads (resends (scan live reads).actions) where
  exactly := by
    intro k
    rw [resends_ids]
    by_cases hans : Answered reads k
    · have hnot := not_mem_resentIds_of_answered live reads hans (hbound.maxSeq_le k)
      exact ⟨fun h => absurd h hnot, fun h => absurd hans h.unanswered⟩
    · exact mem_resentIds_of_not_answered live reads hans
  once := by
    rw [resends_ids]
    exact nodup_resentIds live reads
  order := by
    rw [resends_ids]
    exact resentIds_eq live reads hbound
  message := by
    intro r hr
    obtain ⟨-, qw, hlatest, heq⟩ := mem_resends live reads hr
    refine ⟨qw, hlatest, ?_⟩
    generalize r.1.requestID = k at heq
    subst heq
    simp
  drop := by
    intro r hr
    obtain ⟨-, qw, hlatest, heq⟩ := mem_resends live reads hr
    have hflag : r.2 = (scan live reads).inPartition0 r.1.requestID := congrArg Prod.snd heq
    rw [hflag]
    exact inPartition0_iff live reads _

/-- A recovery meets its specification, for every log, every set of live
partitions and every routing outcome: the calls of `resend` it is made of are
those of `ResendsSpec`, an initial part of its sends succeeds, all of them
unless it returns an error, and each of these has one of its outcomes. -/
theorem recover_meets_spec (t : Tables) (live : Live) (c : Claims) (cs : Nat → Chance)
    (log : Log) (store : Store) (w : World) (r : Except SendError Unit)
    (hbound : Bounded (c.reads log)) (h : recover t live c cs (.start log store) = (r, w)) :
    ResendsSpec live (c.reads log) (resends (recoverActions live c log)) ∧
      ∃ done outs, done <+: recoverActions live c log ∧
        (r = .ok () → done = recoverActions live c log) ∧
        List.Forall₂ (Outcome t) done outs ∧ w.sent = outs.reduceOption := by
  refine ⟨resendsSpec_scan live _ hbound, ?_⟩
  unfold recover at h
  cases hperf : perform t cs (recoverActions live c log) (.start log store) with
  | mk res w₁ =>
    obtain ⟨done, outs, hprefix, hall, houts, hwrote⟩ := perform_outcomes (cacheOk_empty t) hperf
    have hsent : w₁.sent = outs.reduceOption := hwrote.sent
    simp only [World.start_log, hperf] at h
    cases res with
    | error =>
      cases h
      exact ⟨done, outs, hprefix, hall, houts, hsent⟩
    | ok =>
      cases h
      exact ⟨done, outs, hprefix, hall, houts, hsent⟩

/-- Node `n2` of partition `2` is dead in the middle of a chain of two tail
calls that kept the lock, and node `n3` of partition `3` is live. -/
def chainLog : Log :=
  Log.empty.appendAll
    [(2, .request (actorCall "k" "A" 0 "")), (2, .request (actorCall "k" "B" 1 "lock1")),
      (2, .request (actorCall "k" "C" 2 "lock2"))]

def chainLive : Live where
  mem := fun p => decide (p = 3)
  zero := rfl

def chainClaims : Claims := .ofPlan 4 chainLog

/-- The tables of `n3`, the only node that offers the actor type. -/
def chainTables : Tables where
  self := "n3"
  service2nodes := fun name => if name = "a" then ["n3"] else []
  node2partition := fun node => if node = "n3" then 3 else 0
  placementCache := true

/-- Redis and Kafka answer, and the first node is picked. -/
def calm (_ : Nat) : Chance where
  cancelled := false
  rand := 0
  rounds := [true, true]
  acked := true

theorem recover_meets_spec_chain :
    Bounded (chainClaims.reads chainLog) ∧
      ResendsSpec chainLive (chainClaims.reads chainLog)
        (resends (recoverActions chainLive chainClaims chainLog)) ∧
      (recover chainTables chainLive chainClaims calm (.start chainLog .empty)).2.sent =
        [(3, .request (actorCall "k" "C" 0 ""))] :=
  ⟨by decide, (recover_meets_spec chainTables chainLive chainClaims calm chainLog .empty _ _
    (by decide) rfl).1, by decide⟩

end Kar.Rpc
