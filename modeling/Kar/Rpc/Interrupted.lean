import Kar.Rpc.Effects

/-!
# A recovery after an interrupted recovery

A recovery stops when a send fails or when its leader dies, after any number of
its sends and before it empties the dead partitions.  The next recovery then
reads the old messages again, together with those that were sent again.

A message that was sent again carries the sequence number of the restart, while
the old messages keep theirs.  `orphan_after_iff` compares the two: a request
that was sent again to a live partition is taken for an orphan once more exactly
when it restarts below its greatest sequence number, in the middle of a chain of
tail calls that kept the lock.
-/

namespace Kar.Rpc

open Kar.Lib

section After

variable {live live' : Live} {reads reads' sent : List (Nat × Message)}
  (hreads : ∀ p m, (p, m) ∈ reads' ↔ (p, m) ∈ reads ∨ (p, m) ∈ sent)
  (hwritten : ∀ p m, (p, m) ∈ sent → Written t live reads p m)

include hreads

theorem mem_requestsOf_after :
    (p, v) ∈ requestsOf reads' k ↔
      (p, v) ∈ requestsOf reads k ∨ (p, .request v) ∈ sent ∧ v.requestID = k := by
  rw [mem_requestsOf, mem_requestsOf, hreads]
  tauto

include hwritten

/-- What is sent again stays below the greatest sequence number. -/
theorem maxSeq_after (hk : pv ∈ requestsOf reads k) :
    maxSeq reads' k = maxSeq reads k := by
  obtain ⟨qw, hmem, hseq⟩ := exists_maxSeq hk
  rw [← hseq]
  refine maxSeq_eq_of_forall_le ((mem_requestsOf_after hreads).mpr (.inl hmem)) ?_
  rintro ⟨q, v⟩ hqv
  rcases (mem_requestsOf_after hreads).mp hqv with hold | ⟨hsent, rfl⟩
  · exact hseq ▸ sequence_le_maxSeq hold
  · rw [(hwritten q _ hsent).restarted.sequence, hseq]
    exact restart_le_maxSeq reads _

/-- What is sent again carries no lock. -/
theorem lockedAt_after :
    LockedAt reads' k i ↔ LockedAt reads k i := by
  constructor
  · rintro ⟨⟨q, v⟩, hqv, hlocked, hi⟩
    rcases (mem_requestsOf_after hreads).mp hqv with hold | ⟨hsent, rfl⟩
    · exact ⟨(q, v), hold, hlocked, hi⟩
    · simp [(hwritten q _ hsent).restarted.unlocked] at hlocked
  · rintro ⟨⟨q, v⟩, hqv, h⟩
    exact ⟨(q, v), (mem_requestsOf_after hreads).mpr (.inl hqv), h⟩

theorem restart_after (hk : pv ∈ requestsOf reads k) :
    restart reads' k = restart reads k :=
  restart_congr (maxSeq_after hreads hwritten hk) (fun _ => lockedAt_after hreads hwritten)

/-- A request that is sent again to a node gets no completion record. -/
theorem not_answered_after (hk : ¬ Answered reads k)
    (hlatest : latestRead reads k = some qw) (hservice : qw.2.target.service? ≠ none) :
    ¬ Answered reads' k := by
  rintro ⟨⟨q, m⟩, hmem, hrec, rfl⟩
  rcases (hreads q m).mp hmem with hold | hsent
  · exact hk ⟨(q, m), hold, hrec, rfl⟩
  · rcases (hwritten q m hsent).record_cases hrec with ⟨-, qw', hlatest', hnode⟩ | ⟨-, hans⟩
    · rw [hlatest, Option.some.injEq] at hlatest'
      exact hservice (hlatest' ▸ hnode)
    · exact hk hans

variable (hlive : ∀ q, live'.mem q = true → live.mem q = true ∨ ∀ m, (q, m) ∉ reads)
include hlive

/-- A request that was sent again to a partition that is still live. -/
theorem orphan_after_iff (hsent : (p, .request v) ∈ sent)
    (hp : live'.mem p = true) (hk : ¬ Answered reads v.requestID) :
    Orphan live' reads' v.requestID ↔ restart reads v.requestID < maxSeq reads v.requestID := by
  have hnewest := (hwritten p _ hsent).restarted
  have hseq := hnewest.sequence
  obtain ⟨qw, hlatest, -⟩ := hnewest.latest
  have horphan := (mem_resentIds_of_not_answered live reads hk).mp hnewest.resent
  have hmem := latestRead_mem hlatest
  have hmax := maxSeq_after hreads hwritten hmem
  have hrestart := restart_after hreads hwritten hmem
  have hle := restart_le_maxSeq reads v.requestID
  have hnew : (p, v) ∈ requestsOf reads' v.requestID :=
    (mem_requestsOf_after hreads).mpr (.inr ⟨hsent, rfl⟩)
  constructor
  · -- The copy in the live partition is below the greatest sequence number.
    intro h
    by_contra hnot
    exact h.notHeld ⟨(p, v), hnew, hp, by simp only; omega⟩
  intro hlt
  refine ⟨not_answered_after hreads hwritten hk hlatest (hnewest.service hlatest), ?_, ?_⟩
  · rintro ⟨⟨q, u⟩, hqu, hqlive, hqseq⟩
    rcases (mem_requestsOf_after hreads).mp hqu with hold | ⟨hqsent, hid⟩
    · rcases hlive q hqlive with hqlive' | hempty
      · exact horphan.notHeld ⟨(q, u), hold, hqlive', by rw [hqseq, hmax]⟩
      · exact hempty _ (mem_requestsOf.mp hold).1
    · have huseq := (hwritten q _ hqsent).restarted.sequence
      rw [hid] at huseq
      simp only at hqseq
      omega
  · -- The message it restarted at is still in its dead partition.
    obtain ⟨⟨q, u⟩, hqu, hdead, huseq⟩ := horphan.restarts
    have hid := (mem_requestsOf.mp hqu).2
    refine ⟨(q, u), (mem_requestsOf_after hreads).mpr (.inl hqu), ?_, ?_⟩
    · cases hq : live'.mem q with
      | false => rfl
      | true =>
        rcases hlive q hq with hqlive | hempty
        · simp [hqlive] at hdead
        · exact absurd (mem_requestsOf.mp hqu).1 (hempty _)
    · rw [huseq, hid, hrestart]

end After

/-- A recovery is interrupted after any number of its sends, and another one
reads the log that it left.  A request that the first one sent again to a
partition that is still live is sent again by the second one exactly when it
restarts in the middle of a chain of tail calls that kept the lock. -/
theorem interrupted_resends_iff (t : Tables) (live live' : Live) (c c' : Claims)
    (cs : Nat → Chance) (log : Log) (store : Store) (n : Nat) (r : Except SendError Unit)
    (w : World) (hclaims : c.Covers log) (hclaims' : c'.Covers w.log)
    (hrun : perform t cs ((recoverActions live c log).take n) (.start log store) = (r, w))
    (hlive : ∀ q, live'.mem q = true → live.mem q = true ∨ log.messages q = [])
    (p : Nat) (v : Request) (hsent : (p, Message.request v) ∈ w.sent) (hp : live'.mem p = true)
    (hbound : maxSeq (c.reads log) v.requestID ≤ sentinel) :
    v.requestID ∈ (resends (recoverActions live' c' w.log)).map (fun r => r.1.requestID) ↔
      restart (c.reads log) v.requestID < maxSeq (c.reads log) v.requestID := by
  obtain ⟨hlog, hwritten⟩ := perform_written hrun
  have hreads : ∀ q m, (q, m) ∈ c'.reads w.log ↔ (q, m) ∈ c.reads log ∨ (q, m) ∈ w.sent := by
    intro q m
    rw [mem_reads hclaims', mem_reads hclaims, hlog, Log.mem_messages_appendAll]
  have hlive' : ∀ q, live'.mem q = true → live.mem q = true ∨ ∀ m, (q, m) ∉ c.reads log := by
    intro q hq
    refine (hlive q hq).imp id (fun hnil m hm => ?_)
    rw [mem_reads hclaims, hnil] at hm
    simp at hm
  -- A request with a completion record is not sent again in the first place.
  have hk : ¬ Answered (c.reads log) v.requestID := by
    intro hans
    exact not_mem_resentIds_of_answered live _ hans hbound (hwritten p _ hsent).restarted.resent
  obtain ⟨qw, hlatest, -⟩ := (hwritten p _ hsent).restarted.latest
  have hk' := not_answered_after hreads hwritten hk hlatest
    ((hwritten p _ hsent).restarted.service hlatest)
  unfold recoverActions
  rw [resends_ids, mem_resentIds_of_not_answered live' _ hk']
  exact orphan_after_iff hreads hwritten hlive' hsent hp hk

/-- The recovery of `chainLog` sends `k` again to `n3` and is interrupted before
it empties partition `2`. -/
def chainInterrupted : World :=
  (perform chainTables calm (recoverActions chainLive chainClaims chainLog)
    (.start chainLog .empty)).2

theorem chainInterrupted_covers :
    (Claims.ofPlan 4 chainInterrupted.log).Covers chainInterrupted.log := by
  have hlog : chainInterrupted.log = Log.empty.appendAll [(2, .request (actorCall "k" "A" 0 "")),
      (2, .request (actorCall "k" "B" 1 "lock1")), (2, .request (actorCall "k" "C" 2 "lock2")), (3,
      .request (actorCall "k" "C" 0 ""))] := rfl
  rw [hlog]
  exact covers_ofPlan (by decide) (Log.messages_appendAll_empty (by decide))

theorem interrupted_resends_iff_chain :
    (3, Message.request (actorCall "k" "C" 0 "")) ∈ chainInterrupted.sent ∧
      ("k" ∈ (resends (recoverActions chainLive (.ofPlan 4 chainInterrupted.log)
          chainInterrupted.log)).map (fun r => r.1.requestID) ↔
        restart (chainClaims.reads chainLog) "k" < maxSeq (chainClaims.reads chainLog) "k") :=
  ⟨by decide, interrupted_resends_iff chainTables chainLive chainLive chainClaims
    (.ofPlan 4 chainInterrupted.log) calm chainLog .empty 1 _ chainInterrupted
    (covers_ofPlan (by decide) (Log.messages_appendAll_empty (by decide)))
    chainInterrupted_covers rfl (fun _ hq => Or.inl hq) 3 (actorCall "k" "C" 0 "") (by decide) (by decide) (by decide)⟩

/-- The next recovery sends `k` to `n3` once more, whose partition is live. -/
theorem interrupted_chain_resent_again :
    chainInterrupted.sent = [(3, .request (actorCall "k" "C" 0 ""))] ∧
      (recover chainTables chainLive (.ofPlan 4 chainInterrupted.log) calm
          (.start chainInterrupted.log chainInterrupted.store)).2.sent =
        [(3, .request (actorCall "k" "C" 0 ""))] := by
  decide

end Kar.Rpc
