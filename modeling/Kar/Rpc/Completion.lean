import Mathlib.Logic.Relation
import Kar.Rpc.Effects

/-!
# Completion records survive recoveries

A completed request is only remembered by its `Response` or `Done`.  A recovery
empties the partitions of dead nodes, and with them the completion records they
hold, so it first rewrites to partition `0` the records whose request survives.

`Finished log k` is the invariant: there is a completion record of `k`, or no
request message of `k` at all.  `Finished.recovery` shows that a recovery that
completes keeps it and does not send `k` again, and `Finished.run` extends this
to every history of recoveries.

The code marks a completed request with the sequence number `sentinel`, so the
argument is about requests whose sequence numbers do not exceed it.
-/

namespace Kar.Rpc

open Kar.Lib

/-- A completion record of `k` is in the log. -/
def Log.Answered (log : Log) (k : String) : Prop :=
  ∃ p, ∃ m ∈ log.messages p, m.isRecord = true ∧ m.requestID = k

/-- The request messages of `k` have sequence numbers up to the sentinel. -/
def Log.BoundedAt (log : Log) (k : String) : Prop :=
  ∀ p v, Message.request v ∈ log.messages p → v.requestID = k → v.sequence ≤ sentinel

/-- `k` is completed: it has a completion record, or no request message that
could be sent again. -/
structure Finished (log : Log) (k : String) : Prop where
  bounded : log.BoundedAt k
  record : ∀ p v, Message.request v ∈ log.messages p → v.requestID = k → log.Answered k

variable {c : Claims} {k : String}

theorem answered_reads (hc : c.Covers log) :
    Answered (c.reads log) k ↔ log.Answered k := by
  constructor
  · rintro ⟨⟨p, m⟩, hmem, h⟩
    exact ⟨p, m, (mem_reads hc).mp hmem, h⟩
  · rintro ⟨p, m, hmem, h⟩
    exact ⟨(p, m), (mem_reads hc).mpr hmem, h⟩

theorem Log.BoundedAt.maxSeq_le (hc : c.Covers log)
    (h : log.BoundedAt k) : maxSeq (c.reads log) k ≤ sentinel := by
  cases hlatest : latestRead (c.reads log) k with
  | none => simp [maxSeq, hlatest]
  | some qw =>
    rw [maxSeq_eq hlatest]
    obtain ⟨hread, hid⟩ := mem_requestsOf.mp (latestRead_mem hlatest)
    exact h qw.1 qw.2 ((mem_reads hc).mp hread) hid

theorem boundedAt_of_reads (hc : c.Covers log)
    (h : Bounded (c.reads log)) (k : String) : log.BoundedAt k :=
  fun _ _ hv _ => Nat.le_of_lt (h _ ((mem_reads hc).mpr hv))

/-- A completed request is not sent again. -/
theorem Finished.not_resent (h : Finished log k)
    (hc : c.Covers log) (live : Live) : k ∉ resentIds live (c.reads log) := by
  intro hk
  obtain ⟨-, pv, hpv, -⟩ := (mem_resentIds live _).mp hk
  obtain ⟨hread, hid⟩ := mem_requestsOf.mp hpv
  have hans := h.record pv.1 pv.2 ((mem_reads hc).mp hread) hid
  exact not_mem_resentIds_of_answered live _ ((answered_reads hc).mpr hans)
    (h.bounded.maxSeq_le hc) hk

section Recovery

variable {k : String}

/-- A request message of a completed request that is left after a recovery was
there before. -/
theorem Finished.old_request (hk : Finished log k) (hc : c.Covers log)
    (h : recover t live c cs (.start log store) = (.ok (), w))
    (hv : .request v ∈ w.log.messages p) (hid : v.requestID = k) :
    .request v ∈ log.messages p ∧ (live.mem p = true ∨ p = 0) := by
  obtain ⟨hold | hsent, hp⟩ := (mem_messages_recover h).mp hv
  · exact ⟨hold, live_or_zero_of_kept hc hold hp⟩
  · have hresent := ((recover_written h).2.1 p _ hsent).restarted.resent
    rw [hid] at hresent
    exact absurd hresent (hk.not_resent hc live)

/-- A completion record of a request that survives in a live partition or in
partition `0` survives too, there or as a `Done` of partition `0`. -/
theorem record_kept (hc : c.Covers log) (h : recover t live c cs (.start log store) = (.ok (), w))
    (hans : log.Answered k) (hv : .request v ∈ log.messages p)
    (hid : v.requestID = k) (hp : live.mem p = true ∨ p = 0) :
    ∃ q, (live.mem q = true ∨ q = 0) ∧
      ∃ m ∈ w.log.messages q, m.isRecord = true ∧ m.requestID = k := by
  obtain ⟨q, m, hm, hrec, rfl⟩ := hans
  by_cases hq : live.mem q = true ∨ q = 0
  · exact ⟨q, hq, m, (mem_messages_recover h).mpr ⟨.inl hm, not_mem_offsetsForDeletion hq⟩, hrec, rfl⟩
  refine ⟨0, .inr rfl, ?_⟩
  by_cases hzero : ∃ m', (0, m') ∈ c.reads log ∧ m'.isRecord = true ∧ m'.requestID = m.requestID
  · obtain ⟨m', hread, h'⟩ := hzero
    have hm' := (mem_reads hc).mp hread
    exact ⟨m', (mem_messages_recover h).mpr ⟨.inl hm', not_mem_offsetsForDeletion (.inr rfl)⟩, h'⟩
  -- The record is in a dead partition and is rewritten as a `Done`.
  have hdead : inDead live (q, m) = true := by simpa [inDead] using hq
  have haction : Action.respond { requestID := m.requestID, deadline := m.deadline } ∈
      recoverActions live c log := mem_actions_respond.mpr ⟨q, m, (mem_reads hc).mpr hm, hdead,
      hrec, ⟨(p, v), mem_requestsOf.mpr ⟨(mem_reads hc).mpr hv, hid⟩, hp⟩, hzero, rfl⟩
  obtain ⟨out, hout, hsent⟩ := (recover_written h).2.2 _ haction
  cases hout with
  | responded =>
    exact ⟨_, (mem_messages_recover h).mpr
      ⟨.inr (hsent _ rfl), not_mem_offsetsForDeletion (.inr rfl)⟩, rfl, rfl⟩

/-- A recovery that completes keeps a completed request completed. -/
theorem Finished.recovery (hk : Finished log k) (hc : c.Covers log)
    (h : recover t live c cs (.start log store) = (.ok (), w)) : Finished w.log k where
  bounded := fun p v hv hid => hk.bounded p v (hk.old_request hc h hv hid).1 hid
  record := by
    intro p v hv hid
    obtain ⟨hold, hp⟩ := hk.old_request hc h hv hid
    obtain ⟨q, -, m, hm, hrec⟩ := record_kept hc h (hk.record p v hold hid) hold hid hp
    exact ⟨q, m, hm, hrec⟩

end Recovery

/-! ## Histories -/

/-- A step of a history after the completion of `k`: any message other than a
request of `k` is written, or a recovery runs to completion, for whatever nodes
are live then. -/
inductive LogStep (k : String) : Log → Log → Prop
  | append (log : Log) (p : Nat) (m : Message) (hm : ∀ v, m = .request v → v.requestID ≠ k) :
      LogStep k log (log.append p m)
  | recovery (t : Tables) (live : Live) (c : Claims) (cs : Nat → Chance) (log : Log)
      (store : Store) (w : World) (hc : c.Covers log)
      (h : recover t live c cs (.start log store) = (.ok (), w)) : LogStep k log w.log

theorem Finished.step (hk : Finished log k) (h : LogStep k log log') : Finished log' k := by
  cases h with
  | recovery _ _ _ _ _ _ _ hc h => exact hk.recovery hc h
  | append _ p m hm =>
    have hold : ∀ q v, .request v ∈ (log.append p m).messages q → v.requestID = k →
        .request v ∈ log.messages q := by
      intro q v hv hid
      rw [Log.messages_append] at hv
      split at hv
      · rename_i hq
        rcases List.mem_append.mp hv with hv | hv
        · exact hq ▸ hv
        · exact absurd hid (hm v (List.mem_singleton.mp hv).symm)
      · exact hv
    refine ⟨fun q v hv hid => hk.bounded q v (hold q v hv hid) hid, fun q v hv hid => ?_⟩
    obtain ⟨q', m', hm', hrec⟩ := hk.record q v (hold q v hv hid) hid
    refine ⟨q', m', ?_, hrec⟩
    rw [Log.messages_append]
    split
    · rename_i hq
      exact List.mem_append_left _ (hq ▸ hm')
    · exact hm'

theorem Finished.run (hk : Finished log k)
    (h : Relation.ReflTransGen (LogStep k) log log') : Finished log' k := by
  induction h with
  | refl => exact hk
  | tail _ hstep ih => exact ih.step hstep

/-- Recovery preserves completion records.  After any history of completed
recoveries since `k` had a completion record, a recovery that completes does not
send `k` again, and it leaves a completion record of `k` in a live partition or
in partition `0` when it leaves a request message of `k` there. -/
theorem recovery_keeps_completed (k : String) (log₀ log : Log) (hans : log₀.Answered k)
    (hbound : log₀.BoundedAt k) (hrun : Relation.ReflTransGen (LogStep k) log₀ log) (t : Tables)
    (live : Live) (c : Claims) (cs : Nat → Chance) (store : Store) (w : World)
    (hc : c.Covers log) (h : recover t live c cs (.start log store) = (.ok (), w)) :
    k ∉ (resends (recoverActions live c log)).map (fun r => r.1.requestID) ∧
      ((∃ p, (live.mem p = true ∨ p = 0) ∧ ∃ v, Message.request v ∈ w.log.messages p ∧
          v.requestID = k) →
        ∃ q, (live.mem q = true ∨ q = 0) ∧
          ∃ m ∈ w.log.messages q, m.isRecord = true ∧ m.requestID = k) := by
  have hk : Finished log k := Finished.run ⟨hbound, fun _ _ _ _ => hans⟩ hrun
  refine ⟨?_, ?_⟩
  · unfold recoverActions
    rw [resends_ids]
    exact hk.not_resent hc live
  · rintro ⟨p, hp, v, hv, hid⟩
    have hold := (hk.old_request hc h hv hid).1
    exact record_kept hc h (hk.record p v hold hid) hold hid hp

/-- The request is in the partition of the live node `n3`, and its response in
the partition of the dead caller. -/
def respondedLog : Log :=
  Log.empty.appendAll [(3, .request (actorCall "k" "A" 0 "")),
    (2, .response { requestID := "k", value := [], deadline := none, errMsg := "", node := "" })]

theorem respondedLog_covers : (Claims.ofPlan 4 respondedLog).Covers respondedLog :=
  covers_ofPlan (by decide) (Log.messages_appendAll_empty (by decide))

theorem recovery_keeps_completed_responded :
    (recover chainTables chainLive (.ofPlan 4 respondedLog) calm (.start respondedLog .empty)).2.sent
        = [(0, .done { requestID := "k", deadline := none })] ∧
      "k" ∉ (resends (recoverActions chainLive (.ofPlan 4 respondedLog) respondedLog)).map
        (fun r => r.1.requestID) :=
  ⟨by decide, (recovery_keeps_completed "k" respondedLog respondedLog
    ⟨2, _, List.mem_singleton_self _, rfl, rfl⟩ (boundedAt_of_reads respondedLog_covers (by decide) "k")
    .refl chainTables chainLive (.ofPlan 4 respondedLog) calm .empty _ respondedLog_covers rfl).1⟩

/-- A request above the sentinel, with its completion record in partition `0`. -/
def beyondLog : Log :=
  Log.empty.appendAll [(0, .done { requestID := "k", deadline := none }),
    (2, .request (actorCall "k" "A" (sentinel + 1) ""))]

theorem beyond_sentinel_resent :
    Message.done { requestID := "k", deadline := none } ∈ beyondLog.messages 0 ∧
      "k" ∈ (resends (recoverActions chainLive (.ofPlan 4 beyondLog) beyondLog)).map
        (fun r => r.1.requestID) := by
  decide

end Kar.Rpc
