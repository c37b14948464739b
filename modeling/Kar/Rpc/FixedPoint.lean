import Kar.Rpc.Completion

/-!
# A second recovery writes nothing

Every message that a recovery writes to partition `0` makes the next plan start
another recovery, so the group only leaves recovery when a recovery writes
nothing.  This module shows that the second of two recoveries with the same live
partitions and the same services writes nothing, for the logs that `Settleable`
describes.

The conditions of `Settleable` are about a request that is not completed and
whose latest message no live partition has.  Such a request has to be found by
the first recovery, partition `0` must hold no later part of its chain of tail
calls, and a copy in partition `0` that stands for the latest message must be as
unserved as that message.
-/

namespace Kar.Rpc

open Kar.Lib List

/-- Sending the request again to no node: its service is offered by nobody, or
it is a tell to a node. -/
def Idle (t : Tables) (v : Request) : Prop :=
  match v.target.service? with
  | some name => t.service2nodes name = []
  | none => v.callParent = none

instance (t : Tables) (v : Request) : Decidable (Idle t v) :=
  match h : v.target.service? with
  | some name => decidable_of_iff (t.service2nodes name = []) (by simp [Idle, h])
  | none => decidable_of_iff (v.callParent = none) (by simp [Idle, h])

/-- The routing tables name nodes with a live partition. -/
structure Tables.Attached (t : Tables) (live : Live) : Prop where
  offered : ∀ name, ∀ node ∈ t.service2nodes name, t.node2partition node ≠ 0
  live : ∀ node, t.node2partition node ≠ 0 → live.mem (t.node2partition node) = true

/-- The logs that one recovery settles. -/
structure Settleable (t : Tables) (live : Live) (reads : List (Nat × Message)) : Prop where
  bounded : Bounded reads
  /-- The message that a request restarts at is in a dead partition or in
  partition `0`. -/
  restarts : ∀ k pv, pv ∈ requestsOf reads k → ¬ Answered reads k → ¬ HeldLive live reads k →
    ∃ qw ∈ requestsOf reads k, RestartsHere live reads qw
  /-- Partition `0` has no message above the restart. -/
  zero_le : ∀ k, ¬ Answered reads k → ¬ HeldLive live reads k →
    ∀ v, (0, v) ∈ requestsOf reads k → v.sequence ≤ restart reads k
  /-- When the latest message is not written again, the copy in partition `0` is
  not served either. -/
  idle : ∀ k, ¬ Answered reads k → ¬ HeldLive live reads k →
    ∀ qw, latestRead reads k = some qw → Idle t qw.2 →
      (HeldZero reads k ∨ qw.2.target.service? = none) →
      ∀ pv, lastMax (fun pv => pv.2.sequence) (requestsIn isZero reads k) = some pv → Idle t pv.2

variable {k : String}

section Routing

variable {live : Live}

theorem Tables.Attached.routed (ht : t.Attached live) (h : Routed t target node p) :
    ∃ name, target.service? = some name ∧
      ((t.service2nodes name = [] ∧ p = 0) ∨ (t.service2nodes name ≠ [] ∧ live.mem p = true)) := by
  obtain ⟨name, hname, ⟨hnil, -, hp⟩ | ⟨hne, hp, hnode⟩⟩ := h
  · exact ⟨name, hname, .inl ⟨hnil, hp⟩⟩
  refine ⟨name, hname, .inr ⟨hne, ?_⟩⟩
  have hp0 : t.node2partition node ≠ 0 := by
    rcases hnode with hmem | hp0
    · exact ht.offered name node hmem
    · exact hp ▸ hp0
  exact hp ▸ ht.live node hp0

/-- A recovery writes to live partitions and to partition `0`. -/
theorem Written.live_or_zero
    (ht : t.Attached live) (h : Written t live reads p m) : live.mem p = true ∨ p = 0 := by
  cases h with
  | resent _ _ _ _ hroute =>
    obtain ⟨-, -, ⟨-, hp⟩ | ⟨-, hp⟩⟩ := ht.routed hroute
    · exact .inr hp
    · exact .inl hp
  | answered v =>
    by_cases hp : t.node2partition v.caller = 0
    · exact .inr hp
    · exact .inl (ht.live _ hp)
  | kept => exact .inr rfl

theorem idle_congr (hsame : ∀ name, t'.service2nodes name = [] ↔
    t.service2nodes name = []) (v : Request) : Idle t' v ↔ Idle t v := by
  unfold Idle
  split
  · exact hsame _
  · rfl

/-- What is written for an idle request is idle. -/
theorem Restarted.idle (h : Restarted t live reads p v)
    (hlatest : latestRead reads v.requestID = some qw) (hidle : Idle t qw.2) : Idle t v := by
  have hservice := h.service hlatest
  obtain ⟨qw', hlatest', hcontent⟩ := h.latest
  rw [hlatest, Option.some.injEq] at hlatest'
  subst hlatest'
  have htarget : v.target.service? = qw.2.target.service? := by
    have := congrArg (fun c => c.1.service?) hcontent
    simpa [Request.content] using this
  unfold Idle at hidle ⊢
  rw [htarget]
  cases hname : qw.2.target.service? with
  | none => exact absurd hname hservice
  | some => simpa [hname] using hidle

/-- An idle request is routed to partition `0`, and only idle ones are. -/
theorem Tables.Attached.idle_iff (ht : t.Attached live)
    (h : Routed t v.target node p) : Idle t v ↔ p = 0 := by
  obtain ⟨name, hname, hp⟩ := ht.routed h
  unfold Idle
  rw [hname]
  rcases hp with ⟨hnil, hp⟩ | ⟨hne, hp⟩
  · simp [hnil, hp]
  · refine iff_of_false hne (fun h0 => ?_)
    rw [h0, live.zero] at hp
    simp at hp

/-- What a recovery that completes does with an orphan. -/
theorem orphan_outcome (ht : t.Attached live) (h : recover t live c cs (.start log store) = (.ok (), w))
    (hk : Orphan live (c.reads log) k) (hlatest : latestRead (c.reads log) k = some qw) :
    (∃ p m, (p, m) ∈ w.sent ∧ m.isRecord = true ∧ m.requestID = k) ∨ (∃ p v, live.mem p = true ∧ (p,
      .request v) ∈ w.sent ∧ v.requestID = k) ∨ (Idle t qw.2 ∧ ∃ v, (0, .request v) ∈ w.sent ∧
      v.requestID = k) ∨ (Idle t qw.2 ∧ (HeldZero (c.reads log) k ∨ qw.2.target.service? = none) ∧ ∀
      p v, (p, .request v) ∈ w.sent → v.requestID ≠ k) := by
  have hresent := (mem_resentIds_of_not_answered live _ hk.unanswered).mpr hk
  rw [← resends_ids] at hresent
  obtain ⟨⟨msg, drop⟩, hr, hid⟩ := mem_map.mp hresent
  obtain ⟨-, qw', hlatest', heq⟩ := mem_resends live _ hr
  simp only [hid, hlatest, Option.some.injEq] at hlatest' heq
  subst hlatest'
  obtain ⟨hmsg, hdrop⟩ := Prod.mk.injEq .. ▸ heq
  have hservice : msg.target.service? = qw.2.target.service? := by simp [hmsg]
  have hparent : msg.callParent = qw.2.callParent := by simp [hmsg]
  have hidle : Idle t msg ↔ Idle t qw.2 := by simp [Idle, hservice, hparent]
  obtain ⟨out, hout, hsent⟩ := (recover_written h).2.2 _ (mem_resends_iff.mp hr)
  cases hout with
  | nodeCall _ _ => exact .inl ⟨_, _, hsent _ rfl, rfl, hid⟩
  | nodeTell _ _ _ htarget =>
    have hnone : qw.2.target.service? = none := by
      rw [← hservice, Request.target, htarget]
      rfl
    refine .inr (.inr (.inr ⟨?_, .inr hnone, fun p u hu huid => ?_⟩))
    · rw [← hidle, Idle, hservice, hnone]
      rfl
    · subst huid
      exact ((recover_written h).2.1 p _ hu).restarted.service hlatest hnone
  | kept _ _ hroute =>
    have hidleq : Idle t qw.2 := hidle.mp ((ht.idle_iff hroute).mpr rfl)
    have hzero : HeldZero (c.reads log) k := (inPartition0_iff live _ k).mp hdrop.symm
    refine .inr (.inr (.inr ⟨hidleq, .inl hzero, fun p u hu huid => ?_⟩))
    subst huid
    have hu := ((recover_written h).2.1 p _ hu).restarted
    obtain ⟨node', hroute'⟩ := hu.routed
    have hp : p = 0 := (ht.idle_iff hroute').mp (hu.idle hlatest hidleq)
    exact hu.notHeldZero hp hzero
  | resent _ _ _ p hroute =>
    by_cases hp : p = 0
    · subst hp
      exact .inr (.inr (.inl ⟨hidle.mp ((ht.idle_iff hroute).mpr rfl), _, hsent _ rfl,
        by simpa using hid⟩))
    have hlive : live.mem p = true := by
      obtain ⟨-, -, ⟨-, h0⟩ | ⟨-, hlive⟩⟩ := ht.routed hroute
      · exact absurd h0 hp
      · exact hlive
    exact .inr (.inl ⟨p, _, hlive, hsent _ rfl, by simpa using hid⟩)

end Routing

section Second

variable {c c' : Claims}
  (hc : c.Covers log) (hc' : c'.Covers w.log) (ht : t.Attached live)
  (hlog : Settleable t live (c.reads log))
  (h : recover t live c cs (.start log store) = (.ok (), w))

include hc hc' h

/-- The request messages of partition `0` that the second recovery reads. -/
theorem requestsIn_isZero_second (k : String) :
    ∃ written, requestsIn isZero (c'.reads w.log) k = requestsIn isZero (c.reads log) k ++ written ∧
      ∀ p v, (p, v) ∈ written ↔ p = 0 ∧ (0, .request v) ∈ w.sent ∧ v.requestID = k := by
  have hzero : w.log.messages 0 =
      log.messages 0 ++ (w.sent.filter (fun pm => pm.1 = 0)).map Prod.snd := by
    rw [(recover_written h).1, Log.messages_deleteRecords,
      if_neg (not_mem_offsetsForDeletion (.inr rfl)), Log.messages_appendAll]
  refine ⟨((w.sent.filter (fun pm => pm.1 = 0)).map Prod.snd).filterMap
    (fun m => requestOf k (0, m)), ?_, ?_⟩
  · rw [requestsIn_isZero_reads hc', requestsIn_isZero_reads hc, hzero, filterMap_append]
  intro p v
  have hread : ∀ ms : List Message, (p, v) ∈ ms.filterMap (fun m => requestOf k (0, m)) ↔
      (p, v) ∈ requestsOf (ms.map (fun m => (0, m))) k := by
    intro ms
    rw [requestsOf, filterMap_map]
    rfl
  rw [hread, mem_requestsOf]
  simp only [mem_map, mem_filter, decide_eq_true_eq, Prod.exists, Prod.mk.injEq]
  constructor
  · rintro ⟨⟨m, ⟨q, m', ⟨hmem, rfl⟩, rfl⟩, rfl, rfl⟩, hid⟩
    exact ⟨rfl, hmem, hid⟩
  · rintro ⟨rfl, hmem, hid⟩
    exact ⟨⟨_, ⟨0, _, ⟨hmem, rfl⟩, rfl⟩, rfl, rfl⟩, hid⟩

include ht

/-- What the second recovery reads: what was left in the live partitions and in
partition `0`, and what the first one wrote. -/
theorem mem_second :
    (p, m) ∈ c'.reads w.log ↔
      ((p, m) ∈ c.reads log ∧ (live.mem p = true ∨ p = 0)) ∨ (p, m) ∈ w.sent := by
  rw [mem_reads hc', mem_reads hc, mem_messages_recover h]
  constructor
  · rintro ⟨hold | hsent, hp⟩
    · exact .inl ⟨hold, live_or_zero_of_kept hc hold hp⟩
    · exact .inr hsent
  · rintro (⟨hold, hp⟩ | hsent)
    · exact ⟨.inl hold, not_mem_offsetsForDeletion hp⟩
    · exact ⟨.inr hsent,
        not_mem_offsetsForDeletion (((recover_written h).2.1 p m hsent).live_or_zero ht)⟩

theorem live_or_zero_second (hm : (p, m) ∈ c'.reads w.log) :
    live.mem p = true ∨ p = 0 := by
  rcases (mem_second hc hc' ht h).mp hm with ⟨-, hp⟩ | hsent
  · exact hp
  · exact ((recover_written h).2.1 p m hsent).live_or_zero ht

theorem mem_requestsOf_second :
    (p, v) ∈ requestsOf (c'.reads w.log) k ↔ ((p, v) ∈ requestsOf (c.reads log) k ∧ (live.mem p =
      true ∨ p = 0)) ∨ ((p, .request v) ∈ w.sent ∧ v.requestID = k) := by
  rw [mem_requestsOf, mem_requestsOf, mem_second hc hc' ht h]
  tauto

/-- The sequence numbers do not grow. -/
theorem sequence_le_second
    (hv : (p, v) ∈ requestsOf (c'.reads w.log) k) : v.sequence ≤ maxSeq (c.reads log) k := by
  rcases (mem_requestsOf_second hc hc' ht h).mp hv with ⟨hold, -⟩ | ⟨hsent, rfl⟩
  · exact sequence_le_maxSeq hold
  · rw [((recover_written h).2.1 p _ hsent).restarted.sequence]
    exact restart_le_maxSeq _ _

/-- The latest message of an orphan of the second recovery is in partition `0`. -/
theorem latestRead_second (hk : Orphan live (c'.reads w.log) k) :
    ∃ pv, latestRead (c'.reads w.log) k = some pv ∧ HeldZero (c'.reads w.log) k ∧
      lastMax (fun pv => pv.2.sequence) (requestsIn isZero (c'.reads w.log) k) = some pv := by
  obtain ⟨qw, hqw, -⟩ := hk.restarts
  obtain ⟨⟨p, v⟩, hlatest⟩ := exists_latestRead hqw
  have hzero : ∀ pv ∈ requestsOf (c'.reads w.log) k,
      pv.2.sequence = maxSeq (c'.reads w.log) k → pv.1 = 0 := by
    rintro ⟨q, u⟩ hqu hseq
    rcases live_or_zero_second hc hc' ht h (mem_requestsOf.mp hqu).1 with hlive | hq
    · exact absurd ⟨(q, u), hqu, hlive, hseq⟩ hk.notHeld
    · exact hq
  have hmem := latestRead_mem hlatest
  have hmax := maxSeq_eq hlatest
  have hp : p = 0 := hzero _ hmem hmax.symm
  subst hp
  refine ⟨(0, v), hlatest, ⟨v, hmem, hmax.symm⟩, ?_⟩
  refine lastMax_filter _ hlatest (fun pv hpv hseq => ?_)
  simpa [isZero] using hzero pv hpv (hseq.trans hmax.symm)

include hlog

/-- What the second recovery could send again was an orphan of the first one,
and is neither completed nor held by a live partition after it. -/
theorem orphan_of_resent_second (hk : k ∈ resentIds live (c'.reads w.log)) :
    Orphan live (c'.reads w.log) k ∧ Orphan live (c.reads log) k := by
  have hbound : maxSeq (c.reads log) k ≤ sentinel := hlog.bounded.maxSeq_le k
  obtain ⟨-, ⟨p, v⟩, hpv, -⟩ := (mem_resentIds live _).mp hk
  obtain ⟨qw, hmax, hseq⟩ := exists_maxSeq hpv
  have hbound' : maxSeq (c'.reads w.log) k ≤ sentinel := by
    rw [← hseq]
    exact Nat.le_trans (sequence_le_second hc hc' ht h hmax) hbound
  have hans' : ¬ Answered (c'.reads w.log) k := fun hans =>
    not_mem_resentIds_of_answered live _ hans hbound' hk
  have horphan' := (mem_resentIds_of_not_answered live _ hans').mp hk
  have hans : ¬ Answered (c.reads log) k := by
    intro hans
    have hfin : Finished log k :=
      ⟨boundedAt_of_reads hc hlog.bounded k, fun _ _ _ _ => (answered_reads hc).mp hans⟩
    exact (hfin.recovery hc h).not_resent hc' live hk
  have hheld : ¬ HeldLive live (c.reads log) k := by
    rintro ⟨⟨q, u⟩, hqu, hlive, hmaxu⟩
    have hqu' := (mem_requestsOf_second hc hc' ht h).mpr (.inl ⟨hqu, .inl hlive⟩)
    refine horphan'.notHeld ⟨(q, u), hqu', hlive, (maxSeq_eq_of_forall_le hqu' ?_).symm⟩
    rintro ⟨q', u'⟩ hu'
    rw [hmaxu]
    exact sequence_le_second hc hc' ht h hu'
  refine ⟨horphan', hans, hheld, ?_⟩
  rcases (mem_requestsOf_second hc hc' ht h).mp hpv with ⟨hold, -⟩ | ⟨hsent, rfl⟩
  · exact hlog.restarts k _ hold hans hheld
  · have hresent := ((recover_written h).2.1 p _ hsent).restarted.resent
    exact ((mem_resentIds_of_not_answered live _ hans).mp hresent).restarts

/-- An orphan of both recoveries: the first one left its latest message in
partition `0`, where it is not served. -/
theorem idle_second (hk' : Orphan live (c'.reads w.log) k) (hk : Orphan live (c.reads log) k) :
    ∃ pv, latestRead (c'.reads w.log) k = some pv ∧ HeldZero (c'.reads w.log) k ∧ Idle t pv.2 := by
  obtain ⟨pv, hlatest', hzero', hlast⟩ := latestRead_second hc hc' ht h hk'
  obtain ⟨written, hrequests, hwritten⟩ := requestsIn_isZero_second hc hc' h k
  refine ⟨pv, hlatest', hzero', ?_⟩
  rw [hrequests] at hlast
  obtain ⟨qw, hqw, -⟩ := hk.restarts
  obtain ⟨⟨q, u⟩, hlatest⟩ := exists_latestRead hqw
  have hold_le : ∀ pv ∈ requestsIn isZero (c.reads log) k,
      pv.2.sequence ≤ restart (c.reads log) k := by
    rintro ⟨p, v⟩ hmem
    obtain ⟨hread, hid, hp⟩ := mem_requestsIn.mp hmem
    simp only [isZero, decide_eq_true_eq] at hp
    subst hp
    exact hlog.zero_le k hk.unanswered hk.notHeld v (mem_requestsOf.mpr ⟨hread, hid⟩)
  have hsent_restarted : ∀ p v, (p, .request v) ∈ w.sent → Restarted t live (c.reads log) p v :=
    fun p v hsent => ((recover_written h).2.1 p _ hsent).restarted
  have hnew_eq : ∀ pv ∈ written, pv.2.sequence = restart (c.reads log) k := by
    rintro ⟨p, v⟩ hmem
    obtain ⟨-, hsent, rfl⟩ := (hwritten p v).mp hmem
    exact (hsent_restarted 0 v hsent).sequence
  rcases orphan_outcome ht h hk hlatest with ⟨p, m, hsent, hrec, hid⟩ |
      ⟨p, v, hlive, hsent, hid⟩ | ⟨hidle, v, hsent, hid⟩ | ⟨hidle, hzero, hnone⟩
  · have hread := (mem_second hc hc' ht h).mpr (.inr hsent)
    exact absurd ⟨(p, m), hread, hrec, hid⟩ hk'.unanswered
  · -- The copy in the live partition is at least as late as partition `0`.
    have hnew := (mem_requestsOf_second hc hc' ht h).mpr (.inr ⟨hsent, hid⟩)
    have hseq := (hsent_restarted p v hsent).sequence
    have hle : pv.2.sequence ≤ restart (c.reads log) k := by
      rcases mem_append.mp (lastMax_mem _ hlast) with hold | hwrote
      · exact hold_le pv hold
      · exact Nat.le_of_eq (hnew_eq pv hwrote)
    have hmax := maxSeq_eq hlatest'
    have hnew_le := sequence_le_maxSeq hnew
    rw [hid] at hseq
    simp only at hnew_le
    refine absurd ⟨(p, v), hnew, hlive, ?_⟩ hk'.notHeld
    simp only
    omega
  · -- The copy that was written to partition `0` is the last one there.
    have hmem : (0, v) ∈ written := (hwritten 0 v).mpr ⟨rfl, hsent, hid⟩
    cases hb : lastMax (fun pv : Nat × Request => pv.2.sequence) written with
    | none => simp [(lastMax_eq_none_iff _ _).mp hb] at hmem
    | some b =>
      have hbmem := lastMax_mem _ hb
      have hle : ∀ pv ∈ requestsIn isZero (c.reads log) k, pv.2.sequence ≤ b.2.sequence := by
        intro pv hpv
        rw [hnew_eq b hbmem]
        exact hold_le pv hpv
      have hpv := (lastMax_append_of_le (fun pv : Nat × Request => pv.2.sequence) hb hle).symm.trans
        hlast
      simp only [Option.some.injEq] at hpv
      subst hpv
      obtain ⟨-, hsent', rfl⟩ := (hwritten b.1 b.2).mp hbmem
      exact (hsent_restarted 0 b.2 hsent').idle hlatest hidle
  · -- Partition `0` is unchanged.
    have hnil : written = [] := by
      rw [eq_nil_iff_forall_not_mem]
      rintro ⟨p, v⟩ hmem
      obtain ⟨-, hsent, hid⟩ := (hwritten p v).mp hmem
      exact hnone 0 v hsent hid
    rw [hnil, append_nil] at hlast
    exact hlog.idle k hk.unanswered hk.notHeld _ hlatest hidle hzero pv hlast

end Second

/-- Recovery reaches a fixed point.  After a recovery that completes on a log
that is `Settleable`, a recovery with the same live partitions, by a leader that
knows of the same services, writes no message. -/
theorem recovery_fixed_point (t t' : Tables) (live : Live) (c c' : Claims)
    (cs cs' : Nat → Chance) (log : Log) (store store' : Store) (w w' : World)
    (r : Except SendError Unit) (hc : c.Covers log) (hc' : c'.Covers w.log)
    (ht : t.Attached live) (ht' : t'.Attached live)
    (hsame : ∀ name, t'.service2nodes name = [] ↔ t.service2nodes name = [])
    (hlog : Settleable t live (c.reads log))
    (h : recover t live c cs (.start log store) = (.ok (), w))
    (h' : recover t' live c' cs' (.start w.log store') = (r, w')) : w'.sent = [] := by
  rw [List.eq_nil_iff_forall_not_mem]
  rintro ⟨p, m⟩ hmem
  have hidle : ∀ k ∈ resentIds live (c'.reads w.log), ∃ pv,
      latestRead (c'.reads w.log) k = some pv ∧ HeldZero (c'.reads w.log) k ∧ Idle t' pv.2 := by
    intro k hk
    obtain ⟨hk', hk⟩ := orphan_of_resent_second hc hc' ht hlog h hk
    obtain ⟨pv, hlatest, hzero, hidle⟩ := idle_second hc hc' ht hlog h hk' hk
    exact ⟨pv, hlatest, hzero, (idle_congr hsame pv.2).mpr hidle⟩
  cases recover_sent h' p m hmem with
  | resent r node _ hr hroute hdrop =>
    have hv := (Written.resent r node p hr hroute hdrop).restarted
    obtain ⟨pv, hlatest, hzero, hpv⟩ := hidle _ hv.resent
    obtain ⟨node', hroute'⟩ := hv.routed
    exact hv.notHeldZero ((ht'.idle_iff hroute').mp (hv.idle hlatest hpv)) hzero
  | answered _ _ _ hr htarget =>
    obtain ⟨hid, qw, hlatest', heq⟩ := mem_resends live _ hr
    obtain ⟨pv, hlatest, -, hpv⟩ := hidle _ hid
    rw [hlatest, Option.some.injEq] at hlatest'
    subst hlatest'
    -- The latest message would be a call to a node, which is not idle.
    have hnode := congrArg (fun r => r.1.target.service?) heq
    simp only [Request.target_restartAt, Target.service?_clearLock] at hnode
    rw [Request.target, htarget] at hnode
    have hcall := congrArg (fun r => r.1.callParent) heq
    simp only [Request.callParent_restartAt] at hcall
    rw [Idle, ← hnode, ← hcall] at hpv
    simp [Target.service?, Request.callParent] at hpv
  | kept d hd =>
    obtain ⟨q, m, hread, hdead, -⟩ := mem_actions_respond.mp hd
    rcases live_or_zero_second hc hc' ht h hread with hq | hq
    · simp [inDead, hq] at hdead
    · simp [inDead, hq] at hdead

theorem chainTables_attached : chainTables.Attached chainLive where
  offered := by
    intro name node hnode
    simp only [chainTables] at hnode ⊢
    split at hnode <;> simp_all
  live := by
    intro node hnode
    simp only [chainTables, chainLive] at hnode ⊢
    split at hnode <;> simp_all

/-! ## Decidable conditions -/

section Settleable

variable (t : Tables) (live : Live) (reads : List (Nat × Message))

/-- The conditions of `Settleable` on one request. -/
structure SettleableAt (k : String) : Prop where
  restarts : requestsOf reads k ≠ [] → ∃ qw ∈ requestsOf reads k, RestartsHere live reads qw
  zero_le : ∀ pv ∈ requestsOf reads k, pv.1 = 0 → pv.2.sequence ≤ restart reads k
  idle : ∀ qw ∈ latestRead reads k, Idle t qw.2 →
    (HeldZero reads k ∨ qw.2.target.service? = none) →
    ∀ pv ∈ lastMax (fun pv => pv.2.sequence) (requestsIn isZero reads k), Idle t pv.2

theorem heldZero_iff :
    HeldZero reads k ↔ ∃ pv ∈ requestsOf reads k, pv.1 = 0 ∧ pv.2.sequence = maxSeq reads k := by
  constructor
  · rintro ⟨v, hv, hseq⟩
    exact ⟨(0, v), hv, rfl, hseq⟩
  · rintro ⟨⟨p, v⟩, hv, rfl, hseq⟩
    exact ⟨v, hv, hseq⟩

instance (k : String) : Decidable (HeldZero reads k) :=
  decidable_of_iff _ (heldZero_iff reads).symm

instance (k : String) : Decidable (SettleableAt t live reads k) :=
  decidable_of_iff
    ((requestsOf reads k ≠ [] → ∃ qw ∈ requestsOf reads k, RestartsHere live reads qw) ∧
      (∀ pv ∈ requestsOf reads k, pv.1 = 0 → pv.2.sequence ≤ restart reads k) ∧
      ∀ qw ∈ latestRead reads k, Idle t qw.2 →
        (HeldZero reads k ∨ qw.2.target.service? = none) →
        ∀ pv ∈ lastMax (fun pv : Nat × Request => pv.2.sequence) (requestsIn isZero reads k),
          Idle t pv.2)
    ⟨fun h => ⟨h.1, h.2.1, h.2.2⟩, fun h => ⟨h.restarts, h.zero_le, h.idle⟩⟩

theorem settleable_iff : Settleable t live reads ↔ Bounded reads ∧
    ∀ k ∈ reads.map (fun pm => pm.2.requestID), ¬ Answered reads k → ¬ HeldLive live reads k →
      SettleableAt t live reads k := by
  have hid : ∀ k pv, pv ∈ requestsOf reads k → k ∈ reads.map (fun pm => pm.2.requestID) := by
    intro k pv hpv
    obtain ⟨hread, hid⟩ := mem_requestsOf.mp hpv
    exact mem_map.mpr ⟨_, hread, hid⟩
  constructor
  · intro h
    refine ⟨h.bounded, fun k _ hans hheld => ⟨?_, ?_, ?_⟩⟩
    · intro hne
      obtain ⟨pv, hpv⟩ := exists_mem_of_ne_nil _ hne
      exact h.restarts k pv hpv hans hheld
    · rintro ⟨p, v⟩ hpv rfl
      exact h.zero_le k hans hheld v hpv
    · intro qw hqw hidle hzero pv hpv
      exact h.idle k hans hheld qw hqw hidle hzero pv hpv
  · rintro ⟨hbounded, hall⟩
    refine ⟨hbounded, ?_, ?_, ?_⟩
    · intro k pv hpv hans hheld
      exact (hall k (hid k pv hpv) hans hheld).restarts (ne_nil_of_mem hpv)
    · intro k hans hheld v hv
      exact (hall k (hid k _ hv) hans hheld).zero_le _ hv rfl
    · intro k hans hheld qw hqw hidle hzero pv hpv
      exact (hall k (hid k qw (latestRead_mem hqw)) hans hheld).idle qw hqw hidle hzero pv hpv

instance : Decidable (Settleable t live reads) :=
  decidable_of_iff _ (settleable_iff t live reads).symm

end Settleable

theorem chainLog_settleable : Settleable chainTables chainLive (chainClaims.reads chainLog) := by
  decide +kernel

/-- The recovery of `chainLog`, to completion. -/
def chainRecovered : World :=
  (recover chainTables chainLive chainClaims calm (.start chainLog .empty)).2

theorem chainRecovered_covers :
    (Claims.ofPlan 4 chainRecovered.log).Covers chainRecovered.log := by
  refine covers_ofPlan (by decide) (fun p hp => ?_)
  have hlog : chainRecovered.log = (Log.empty.appendAll [(2, .request (actorCall "k" "A" 0 "")), (2,
      .request (actorCall "k" "B" 1 "lock1")), (2, .request (actorCall "k" "C" 2 "lock2")), (3,
      .request (actorCall "k" "C" 0 ""))]).deleteRecords [2] := rfl
  rw [hlog, Log.messages_deleteRecords, if_neg (by simp; omega)]
  exact Log.messages_appendAll_empty (by decide) p hp

theorem recovery_fixed_point_chain :
    chainRecovered.sent ≠ [] ∧
      (recover chainTables chainLive (.ofPlan 4 chainRecovered.log) calm
        (.start chainRecovered.log chainRecovered.store)).2.sent = [] :=
  ⟨by decide, recovery_fixed_point chainTables chainTables chainLive chainClaims
    (.ofPlan 4 chainRecovered.log) calm calm chainLog .empty chainRecovered.store chainRecovered _ _
    (covers_ofPlan (by decide) (Log.messages_appendAll_empty (by decide))) chainRecovered_covers
    chainTables_attached chainTables_attached (fun _ => Iff.rfl) chainLog_settleable rfl rfl⟩

/-- Partition `0` holds both messages of a chain of tail calls, and a node
offers the actor type. -/
def zeroChainLog : Log :=
  Log.empty.appendAll
    [(0, .request (actorCall "k" "A" 0 "")), (0, .request (actorCall "k" "B" 1 "lock1"))]

def zeroChainRecovered : World :=
  (recover chainTables chainLive (.ofPlan 4 zeroChainLog) calm (.start zeroChainLog .empty)).2

/-- The message sent again has a lower sequence number than the one that stays
in partition `0`, so the next recovery sends it once more. -/
theorem recovery_not_fixed_point :
    zeroChainRecovered.sent = [(3, .request (actorCall "k" "B" 0 ""))] ∧
      (recover chainTables chainLive (.ofPlan 4 zeroChainRecovered.log) calm
          (.start zeroChainRecovered.log zeroChainRecovered.store)).2.sent =
        [(3, .request (actorCall "k" "B" 0 ""))] := by
  decide

end Kar.Rpc
