import Kar.Rpc.FixedPoint

/-!
# Chains of tail calls in the log

A tail call that keeps the actor lock goes to the same actor, so it stays in the
partition of the node that runs the actor.  `ChainOk log k` states what this gives
for the messages of a request `k` without completion record, in all partitions
together:

* a message with a deferred lock follows its predecessor in the same partition,
  which is not partition `0`;
* no other partition has a message of the same sequence number, nor, except for
  partition `0`, of the one before;
* the messages of greatest sequence number are in one partition besides
  partition `0`;
* a request to a node stays in the partition of that node.

The start of a chain then lies where the chain does, so a recovery that misses the
latest message in the live partitions finds the restart (`ChainOk.orphan`), and
what is left elsewhere is older (`ChainOk.live_lt` and `ChainOk.zero_le`).
`ChainOk.recover` shows that a recovery keeps these properties.
-/

namespace Kar.Rpc

open Kar.Lib

/-- Partition `p` has the request message `v` of id `k`. -/
def Log.Holds (log : Log) (k : String) (p : Nat) (v : Request) : Prop :=
  Message.request v ∈ log.messages p ∧ v.requestID = k

/-- No message of `k` has a greater sequence number. -/
def Log.Top (log : Log) (k : String) (v : Request) : Prop :=
  ∀ q u, log.Holds k q u → u.sequence ≤ v.sequence

structure ChainOk (log : Log) (k : String) : Prop where
  lock : ∀ p v, log.Holds k p v → v.locked = true →
    p ≠ 0 ∧ ∃ u, log.Holds k p u ∧ u.sequence + 1 = v.sequence
  alone : ∀ p v q u, log.Holds k p v → v.locked = true → log.Holds k q u → q ≠ p →
    u.sequence ≠ v.sequence ∧ (q ≠ 0 → u.sequence + 1 ≠ v.sequence)
  top : ∀ p v q u, log.Holds k p v → log.Holds k q u → log.Top k v → log.Top k u →
    p ≠ 0 → q ≠ 0 → p = q
  node : ∀ p v q u, log.Holds k p v → v.target.service? = none → log.Holds k q u →
    q = p ∧ u.target.service? = none

section Reads

variable {c : Claims} (hc : c.Covers log)

include hc

theorem mem_requestsOf_reads :
    (p, v) ∈ requestsOf (c.reads log) k ↔ log.Holds k p v := by
  rw [mem_requestsOf, mem_reads hc]
  rfl

theorem top_iff (hv : log.Holds k p v) :
    log.Top k v ↔ v.sequence = maxSeq (c.reads log) k := by
  have hmem := (mem_requestsOf_reads hc).mpr hv
  constructor
  · intro htop
    refine (maxSeq_eq_of_forall_le hmem ?_).symm
    rintro ⟨q, u⟩ hu
    exact htop q u ((mem_requestsOf_reads hc).mp hu)
  · intro hmax q u hu
    rw [hmax]
    exact sequence_le_maxSeq ((mem_requestsOf_reads hc).mpr hu)

end Reads

/-! ## Where the chain lies -/

section Chain

variable {c : Claims} (hc : c.Covers log)
  (hk : ChainOk log k)

include hc hk

/-- A sequence number above the restart, up to the greatest one, is in the
partition of the latest message, and its locked messages are nowhere else. -/
theorem ChainOk.chain (hv : log.Holds k p v) (hmax : v.sequence = maxSeq (c.reads log) k) (d : Nat)
    (hd : restart (c.reads log) k + d ≤ maxSeq (c.reads log) k) :
    ∃ u, log.Holds k p u ∧ u.sequence + d = maxSeq (c.reads log) k := by
  induction d with
  | zero => exact ⟨v, hv, hmax⟩
  | succ d ih =>
    obtain ⟨u, hu, hseq⟩ := ih (by omega)
    -- The sequence number of `u` is above the restart, so it is locked somewhere.
    have hlt : restart (c.reads log) k < u.sequence := by omega
    have hle : u.sequence ≤ maxSeq (c.reads log) k := by omega
    obtain ⟨⟨q, w⟩, hw, hlocked, hwseq⟩ := lockedAt_of_restart_lt hlt hle
    have hwh := (mem_requestsOf_reads hc).mp hw
    have hqp : q = p := by
      by_contra hne
      exact (hk.alone q w p u hwh hlocked hu (Ne.symm hne)).1 hwseq.symm
    subst hqp
    obtain ⟨-, u', hu', hseq'⟩ := hk.lock q w hwh hlocked
    simp only at hwseq
    exact ⟨u', hu', by omega⟩

/-- Another partition has no message from the restart on, except that partition
`0` may have the restart itself. -/
theorem ChainOk.elsewhere (hv : log.Holds k p v) (hmax : v.sequence = maxSeq (c.reads log) k)
    (hu : log.Holds k q u) (hq : q ≠ p) (hlt : restart (c.reads log) k < maxSeq (c.reads log) k) :
    u.sequence < restart (c.reads log) k ∨ (q = 0 ∧ u.sequence = restart (c.reads log) k) := by
  have hule := sequence_le_maxSeq ((mem_requestsOf_reads hc).mpr hu)
  -- A locked message above the restart is in partition `p`.
  have hlocked : ∀ i, restart (c.reads log) k < i → i ≤ maxSeq (c.reads log) k →
      ∃ w, log.Holds k p w ∧ w.locked = true ∧ w.sequence = i := by
    intro i hi hile
    obtain ⟨⟨q', w⟩, hw, hlocked, hwseq⟩ := lockedAt_of_restart_lt hi hile
    have hwh := (mem_requestsOf_reads hc).mp hw
    obtain ⟨u', hu', hseq'⟩ := hk.chain hc hv hmax (maxSeq (c.reads log) k - i) (by omega)
    by_cases hqp : q' = p
    · exact ⟨w, hqp ▸ hwh, hlocked, hwseq⟩
    · simp only at hwseq
      exact absurd (by omega) (hk.alone q' w p u' hwh hlocked hu' (Ne.symm hqp)).1
  rcases Nat.lt_trichotomy u.sequence (restart (c.reads log) k) with hless | heq | hgt
  · exact .inl hless
  · obtain ⟨w, hw, hwl, hwseq⟩ := hlocked (restart (c.reads log) k + 1) (by omega) (by omega)
    have hne := (hk.alone p w q u hw hwl hu hq).2
    by_cases hq0 : q = 0
    · exact .inr ⟨hq0, heq⟩
    · exact absurd (by omega) (hne hq0)
  · obtain ⟨w, hw, hwl, hwseq⟩ := hlocked u.sequence hgt hule
    exact absurd hwseq.symm (hk.alone p w q u hw hwl hu hq).1

variable (hheld : ¬ HeldLive live (c.reads log) k)

include hheld

/-- When no live partition has the latest message, the restart is in a dead
partition or in partition `0`. -/
theorem ChainOk.orphan (hopen : ¬ Answered (c.reads log) k)
    (hv : log.Holds k p v) : Orphan live (c.reads log) k := by
  refine ⟨hopen, hheld, ?_⟩
  obtain ⟨⟨q, u⟩, hu, hmax⟩ := exists_maxSeq ((mem_requestsOf_reads hc).mpr hv)
  have huh := (mem_requestsOf_reads hc).mp hu
  have hdead : live.mem q = false := by
    by_contra hlive
    exact hheld ⟨(q, u), hu, by simpa using hlive, hmax⟩
  have hle := restart_le_maxSeq (c.reads log) k
  obtain ⟨r, hr, hseq⟩ := hk.chain hc huh hmax
    (maxSeq (c.reads log) k - restart (c.reads log) k) (by omega)
  refine ⟨(q, r), (mem_requestsOf_reads hc).mpr hr, hdead, ?_⟩
  simp only [hr.2]
  omega

/-- The live partitions then only have older messages. -/
theorem ChainOk.live_lt (hu : log.Holds k q u) (hq : live.mem q = true) :
    u.sequence < restart (c.reads log) k := by
  have hmem := (mem_requestsOf_reads hc).mpr hu
  obtain ⟨⟨p, v⟩, hv, hmax⟩ := exists_maxSeq hmem
  have hule := sequence_le_maxSeq hmem
  have hune : u.sequence ≠ maxSeq (c.reads log) k := fun h => hheld ⟨(q, u), hmem, hq, h⟩
  have hqp : q ≠ p := by
    rintro rfl
    exact hheld ⟨(q, v), hv, hq, hmax⟩
  have hle := restart_le_maxSeq (c.reads log) k
  simp only at hule
  rcases Nat.lt_or_ge (restart (c.reads log) k) (maxSeq (c.reads log) k) with hlt | hge
  · rcases hk.elsewhere hc ((mem_requestsOf_reads hc).mp hv) hmax hu hqp hlt with h | ⟨h0, -⟩
    · exact h
    · rw [h0, live.zero] at hq
      simp at hq
  · omega

omit hheld in
/-- Partition `0` has nothing above the restart. -/
theorem ChainOk.zero_le (hu : log.Holds k 0 u) :
    u.sequence ≤ restart (c.reads log) k := by
  have hmem := (mem_requestsOf_reads hc).mpr hu
  obtain ⟨⟨p, v⟩, hv, hmax⟩ := exists_maxSeq hmem
  have hvh := (mem_requestsOf_reads hc).mp hv
  have hule := sequence_le_maxSeq hmem
  have hle := restart_le_maxSeq (c.reads log) k
  simp only at hule
  rcases Nat.lt_or_ge (restart (c.reads log) k) (maxSeq (c.reads log) k) with hlt | hge
  · by_cases hp : p = 0
    · -- The chain cannot be in partition `0`.
      subst hp
      obtain ⟨⟨q, w⟩, hw, hlocked, hwseq⟩ := lockedAt_of_restart_lt hlt (Nat.le_refl _)
      have hwh := (mem_requestsOf_reads hc).mp hw
      obtain ⟨hq0, -⟩ := hk.lock q w hwh hlocked
      simp only at hwseq hmax
      exact absurd (by omega) (hk.alone q w 0 v hwh hlocked hvh (Ne.symm hq0)).1
    · rcases hk.elsewhere hc hvh hmax hu (Ne.symm hp) hlt with h | ⟨-, h⟩ <;> omega
  · omega

end Chain

/-! ## Writing one message -/

section Append

variable {log : Log}

theorem holds_append :
    (log.append p m).Holds k q u ↔
      log.Holds k q u ∨ (q = p ∧ m = .request u ∧ u.requestID = k) := by
  unfold Log.Holds
  rw [Log.messages_append]
  split
  · rename_i hq
    subst hq
    rw [List.mem_append, List.mem_singleton]
    constructor
    · rintro ⟨hu | hu, hid⟩
      · exact .inl ⟨hu, hid⟩
      · exact .inr ⟨rfl, hu.symm, hid⟩
    · rintro (⟨hu, hid⟩ | ⟨-, hu, hid⟩)
      · exact ⟨.inl hu, hid⟩
      · exact ⟨.inr hu.symm, hid⟩
  · rename_i hq
    simp [hq]

/-- A message that is no request of `k` changes nothing for `k`. -/
theorem holds_append_of_ne (hm : ∀ v, m = .request v → v.requestID ≠ k) :
    (log.append p m).Holds k q u ↔ log.Holds k q u := by
  rw [holds_append]
  constructor
  · rintro (hu | ⟨-, hu, hid⟩)
    · exact hu
    · exact absurd hid (hm u hu)
  · exact .inl

theorem ChainOk.congr (hk : ChainOk log k)
    (h : ∀ q u, log'.Holds k q u ↔ log.Holds k q u) : ChainOk log' k where
  lock := by
    simpa only [h] using hk.lock
  alone := by
    simpa only [h] using hk.alone
  top := by
    simpa only [Log.Top, h] using hk.top
  node := by
    simpa only [h] using hk.node

/-- The first message of a request. -/
theorem ChainOk.append_first (hnew : ∀ q u, ¬ log.Holds k q u)
    (hfree : v.locked = false) : ChainOk (log.append p (.request v)) k := by
  have hholds : ∀ q u, (log.append p (.request v)).Holds k q u → q = p ∧ u = v := by
    intro q u hu
    rcases holds_append.mp hu with hold | ⟨hq, hm, -⟩
    · exact absurd hold (hnew q u)
    · exact ⟨hq, (Message.request.inj hm).symm⟩
  refine ⟨?_, ?_, ?_, ?_⟩
  · intro q u hu hlocked
    rw [(hholds q u hu).2, hfree] at hlocked
    simp at hlocked
  · intro q u q' u' hu hlocked
    rw [(hholds q u hu).2, hfree] at hlocked
    simp at hlocked
  · intro q u q' u' hu hu' _ _ _ _
    rw [(hholds q u hu).1, (hholds q' u' hu').1]
  · intro q u q' u' hu hnone hu'
    obtain ⟨rfl, rfl⟩ := hholds q u hu
    obtain ⟨rfl, rfl⟩ := hholds q' u' hu'
    exact ⟨rfl, hnone⟩

/-- The continuation of a request: a message after its latest one, in the same
partition when it keeps the lock. -/
theorem ChainOk.append_next (hk : ChainOk log k) (hu : log.Holds k q u) (htop : log.Top k u)
    (halone : ∀ q' u', log.Holds k q' u' → u'.sequence = u.sequence → q' = q ∨ q' = 0)
    (hid : v.requestID = k) (hseq : v.sequence = u.sequence + 1) (hservice : u.target.service? ≠ none)
    (hservice' : v.target.service? ≠ none) (hlock : v.locked = true → p = q ∧ p ≠ 0) :
    ChainOk (log.append p (.request v)) k := by
  have hcases : ∀ q' u', (log.append p (.request v)).Holds k q' u' →
      (log.Holds k q' u' ∧ u'.sequence ≤ u.sequence) ∨ (q' = p ∧ u' = v) := by
    intro q' u' hu'
    rcases holds_append.mp hu' with hold | ⟨hq, hm, -⟩
    · exact .inl ⟨hold, htop q' u' hold⟩
    · exact Or.inr ⟨hq, (Message.request.inj hm).symm⟩
  have hold : ∀ q' u', log.Holds k q' u' → (log.append p (.request v)).Holds k q' u' :=
    fun q' u' h => holds_append.mpr (.inl h)
  have hnew : (log.append p (.request v)).Holds k p v := holds_append.mpr (.inr ⟨rfl, rfl, hid⟩)
  refine ⟨?_, ?_, ?_, ?_⟩
  · intro q' u' hu' hlocked
    rcases hcases q' u' hu' with ⟨hu', -⟩ | ⟨rfl, rfl⟩
    · obtain ⟨hq', w, hw, hwseq⟩ := hk.lock q' u' hu' hlocked
      exact ⟨hq', w, hold q' w hw, hwseq⟩
    · obtain ⟨rfl, hp⟩ := hlock hlocked
      exact ⟨hp, u, hold _ u hu, hseq.symm⟩
  · intro q₁ u₁ q₂ u₂ h₁ hlocked h₂ hne
    rcases hcases q₁ u₁ h₁ with ⟨h₁, hle₁⟩ | ⟨rfl, rfl⟩ <;>
      rcases hcases q₂ u₂ h₂ with ⟨h₂, hle₂⟩ | ⟨rfl, rfl⟩
    · exact hk.alone q₁ u₁ q₂ u₂ h₁ hlocked h₂ hne
    · exact ⟨by omega, fun _ => by omega⟩
    · obtain ⟨rfl, hp⟩ := hlock hlocked
      refine ⟨by omega, fun hq₂ hpred => ?_⟩
      rcases halone q₂ u₂ h₂ (by omega) with heq | h0
      · exact hne heq
      · exact hq₂ h0
    · exact absurd rfl hne
  · intro q₁ u₁ q₂ u₂ h₁ h₂ htop₁ htop₂ _ _
    have hle₁ := htop₁ p v hnew
    have hle₂ := htop₂ p v hnew
    rcases hcases q₁ u₁ h₁ with ⟨-, hle⟩ | ⟨rfl, rfl⟩
    · omega
    · rcases hcases q₂ u₂ h₂ with ⟨-, hle⟩ | ⟨rfl, rfl⟩
      · omega
      · rfl
  · intro q₁ u₁ q₂ u₂ h₁ hnone _
    rcases hcases q₁ u₁ h₁ with ⟨h₁, -⟩ | ⟨-, rfl⟩
    · exact absurd (hk.node q₁ u₁ q u h₁ hnone hu).2 hservice
    · exact absurd hnone hservice'

end Append

/-! ## A recovery -/

section Recovery

variable (hc : c.Covers log) (ht : t.Attached live)
  (h : recover t live c cs (.start log store) = (.ok (), w))

include hc ht h

/-- The request messages after a recovery: the old ones of the live partitions and
of partition `0`, and the ones that were written. -/
theorem holds_recover :
    w.log.Holds k p v ↔ (log.Holds k p v ∧ (live.mem p = true ∨ p = 0)) ∨
      ((p, .request v) ∈ w.sent ∧ v.requestID = k) := by
  unfold Log.Holds
  rw [mem_messages_recover h]
  constructor
  · rintro ⟨⟨hold | hsent, hp⟩, hid⟩
    · exact .inl ⟨⟨hold, hid⟩, live_or_zero_of_kept hc hold hp⟩
    · exact .inr ⟨hsent, hid⟩
  · rintro (⟨⟨hold, hid⟩, hp⟩ | ⟨hsent, hid⟩)
    · exact ⟨⟨.inl hold, not_mem_offsetsForDeletion hp⟩, hid⟩
    · exact ⟨⟨.inr hsent, not_mem_offsetsForDeletion
        (((recover_written h).2.1 p _ hsent).live_or_zero ht)⟩, hid⟩

variable (hopen : ¬ log.Answered k)

include hopen

omit ht in
/-- A request that a live partition holds is not written again. -/
theorem not_sent_of_heldLive (hheld : HeldLive live (c.reads log) k)
    (hv : (p, .request v) ∈ w.sent) : v.requestID ≠ k := by
  rintro rfl
  have hresent := ((recover_written h).2.1 p _ hv).restarted.resent
  have hans : ¬ Answered (c.reads log) v.requestID := fun ha => hopen ((answered_reads hc).mp ha)
  exact ((mem_resentIds_of_not_answered live _ hans).mp hresent).notHeld hheld

omit ht in
/-- A message that is written is later than what is left in the live partitions,
and at least as late as what is left in partition `0`. -/
theorem sent_sequence (hk : ChainOk log k) (hv : (p, .request v) ∈ w.sent)
    (hid : v.requestID = k) (hu : log.Holds k q u) (hq : live.mem q = true ∨ q = 0) :
    u.sequence ≤ v.sequence ∧ (q ≠ 0 → u.sequence < v.sequence) := by
  have hnew := ((recover_written h).2.1 p _ hv).restarted
  have hheld : ¬ HeldLive live (c.reads log) k := fun hheld =>
    not_sent_of_heldLive hc h hopen hheld hv hid
  have hseq := hnew.sequence
  rw [hid] at hseq
  rcases hq with hlive | rfl
  · have hlt := hk.live_lt hc hheld hu hlive
    exact ⟨by omega, fun _ => by omega⟩
  · have hle := hk.zero_le hc hu
    exact ⟨by omega, fun hne => absurd rfl hne⟩

/-- What is left of a request without completion record by a recovery that does not
answer it is a latest message of the log, or newer than the live partitions. -/
theorem top_recover (hk : ChainOk log k) (hopen' : ¬ w.log.Answered k)
    (hv : log.Holds k p v) (hp : live.mem p = true) (htop : w.log.Top k v) : log.Top k v := by
  rw [top_iff hc hv]
  have hmem := (mem_requestsOf_reads hc).mpr hv
  have hle := sequence_le_maxSeq hmem
  have hans : ¬ Answered (c.reads log) k := fun ha => hopen ((answered_reads hc).mp ha)
  have hp0 : p ≠ 0 := by
    rintro rfl
    simp [live.zero] at hp
  refine Nat.le_antisymm hle ?_
  by_cases hheld : HeldLive live (c.reads log) k
  · obtain ⟨⟨q, u⟩, hu, hq, hmax⟩ := hheld
    have hu' := (holds_recover hc ht h).mpr (.inl ⟨(mem_requestsOf_reads hc).mp hu, .inl hq⟩)
    rw [← hmax]
    exact htop q u hu'
  -- Otherwise the recovery left a message that is newer than `v`.
  obtain ⟨qw, hlatest⟩ := exists_latestRead hmem
  have horphan := hk.orphan hc hheld hans hv
  have hlt := hk.live_lt hc hheld hv hp
  rcases orphan_outcome ht h horphan hlatest with ⟨q, m, hsent, hrec, hid⟩ |
      ⟨q, u, -, hsent, hid⟩ | ⟨-, u, hsent, hid⟩ | ⟨-, hzero | hnone, -⟩
  · have hq := ((recover_written h).2.1 q m hsent).live_or_zero ht
    exact absurd ⟨q, m, (mem_messages_recover h).mpr
      ⟨.inr hsent, not_mem_offsetsForDeletion hq⟩, hrec, hid⟩ hopen'
  · have hle' := htop q u ((holds_recover hc ht h).mpr (.inr ⟨hsent, hid⟩))
    have := (sent_sequence hc h hopen hk hsent hid hv (.inl hp)).2 hp0
    omega
  · have hle' := htop 0 u ((holds_recover hc ht h).mpr (.inr ⟨hsent, hid⟩))
    have := (sent_sequence hc h hopen hk hsent hid hv (.inl hp)).2 hp0
    omega
  · obtain ⟨u, hu, hmax⟩ := hzero
    have hu' := (holds_recover hc ht h).mpr (.inl ⟨(mem_requestsOf_reads hc).mp hu, .inr rfl⟩)
    rw [← hmax]
    exact htop 0 u hu'
  · -- A request to a node: all its messages are where the latest one is.
    have hqw := (mem_requestsOf_reads hc).mp (latestRead_mem hlatest)
    have hpq := (hk.node qw.1 qw.2 p v hqw hnone hv).1
    exact absurd ⟨qw, latestRead_mem hlatest, hpq ▸ hp, (maxSeq_eq hlatest).symm⟩ hheld

/-- A recovery keeps the chains of a request without completion record. -/
theorem ChainOk.recover (hk : ChainOk log k) (hopen' : ¬ w.log.Answered k) : ChainOk w.log k := by
  have hcases : ∀ p v, w.log.Holds k p v → (log.Holds k p v ∧ (live.mem p = true ∨ p = 0)) ∨ ((p,
      .request v) ∈ w.sent ∧ v.requestID = k) := fun p v => (holds_recover hc ht h).mp
  have hsent_new : ∀ p v, (p, .request v) ∈ w.sent → Restarted t live (c.reads log) p v :=
    fun p v hv => ((recover_written h).2.1 p _ hv).restarted
  refine ⟨?_, ?_, ?_, ?_⟩
  · intro p v hv hlocked
    rcases hcases p v hv with ⟨hold, hp⟩ | ⟨hsent, -⟩
    · obtain ⟨hp0, u, hu, hseq⟩ := hk.lock p v hold hlocked
      exact ⟨hp0, u, (holds_recover hc ht h).mpr (.inl ⟨hu, hp⟩), hseq⟩
    · simp [(hsent_new p v hsent).unlocked] at hlocked
  · intro p v q u hv hlocked hu hne
    rcases hcases p v hv with ⟨hold, hp⟩ | ⟨hsent, -⟩
    · have hp0 := (hk.lock p v hold hlocked).1
      rcases hcases q u hu with ⟨hold', -⟩ | ⟨hsent', hid'⟩
      · exact hk.alone p v q u hold hlocked hold' hne
      · have hlt := (sent_sequence hc h hopen hk hsent' hid' hold hp).2 hp0
        exact ⟨by omega, fun _ => by omega⟩
    · simp [(hsent_new p v hsent).unlocked] at hlocked
  · intro p v q u hv hu hvtop hutop hp hq
    have hvle := hutop p v hv
    have hule := hvtop q u hu
    rcases hcases p v hv with ⟨hvold, hplive⟩ | ⟨hvsent, hvid⟩ <;>
      rcases hcases q u hu with ⟨huold, hqlive⟩ | ⟨husent, huid⟩
    · have hvtop' := top_recover hc ht h hopen hk hopen' hvold (hplive.resolve_right hp) hvtop
      have hutop' := top_recover hc ht h hopen hk hopen' huold (hqlive.resolve_right hq) hutop
      exact hk.top p v q u hvold huold hvtop' hutop' hp hq
    · have := (sent_sequence hc h hopen hk husent huid hvold hplive).2 hp
      omega
    · have := (sent_sequence hc h hopen hk hvsent hvid huold hqlive).2 hq
      omega
    · exact (sent_request_unique h hvsent husent (hvid.trans huid.symm)).1
  · intro p v q u hv hnone hu
    rcases hcases p v hv with ⟨hvold, hp⟩ | ⟨hvsent, -⟩
    · rcases hcases q u hu with ⟨huold, -⟩ | ⟨husent, huid⟩
      · exact hk.node p v q u hvold hnone huold
      -- The latest message would be to the same node.
      subst huid
      obtain ⟨qw, hlatest, -⟩ := (hsent_new q u husent).latest
      have hqw := (mem_requestsOf_reads hc).mp (latestRead_mem hlatest)
      exact absurd (hk.node p v qw.1 qw.2 hvold hnone hqw).2
        ((hsent_new q u husent).service hlatest)
    · obtain ⟨node, name, hname, -⟩ := (hsent_new p v hvsent).routed
      simp [hname] at hnone

/-- A recovery leaves a request without completion record in the log, as long as
its latest message is not for a node.  When the copy in partition `0` that stands
for an idle latest message has the same content, it leaves a message with the
content of the latest one. -/
theorem kept_recover (hk : ChainOk log k)
    (hlatest : latestRead (c.reads log) k = some qw) (hservice : qw.2.target.service? ≠ none) :
    ∃ p v, w.log.Holds k p v ∧ ((Idle t qw.2 → ∀ pv, lastMax (fun pv => pv.2.sequence) (requestsIn
        isZero (c.reads log) k) = some pv → pv.2.sequence = qw.2.sequence → pv.2.content =
        qw.2.content) → v.content = qw.2.content) := by
  have hans : ¬ Answered (c.reads log) k := fun ha => hopen ((answered_reads hc).mp ha)
  have hqw := (mem_requestsOf_reads hc).mp (latestRead_mem hlatest)
  have hmax := maxSeq_eq hlatest
  have hsent_content : ∀ p v, (p, .request v) ∈ w.sent → v.requestID = k →
      v.content = qw.2.content := by
    rintro p v hv rfl
    obtain ⟨qw', hlatest', hcontent⟩ := ((recover_written h).2.1 p _ hv).restarted.latest
    rw [hlatest, Option.some.injEq] at hlatest'
    rw [hcontent, hlatest']
  by_cases hheld : HeldLive live (c.reads log) k
  · -- The latest message itself is in the live partition, or in partition `0`.
    refine ⟨qw.1, qw.2, (holds_recover hc ht h).mpr (.inl ⟨hqw, ?_⟩), fun _ => rfl⟩
    obtain ⟨⟨q, u⟩, hu, hq, hseq⟩ := hheld
    have huh := (mem_requestsOf_reads hc).mp hu
    by_cases h0 : qw.1 = 0
    · exact .inr h0
    have hq0 : q ≠ 0 := by
      rintro rfl
      simp [live.zero] at hq
    have hsame := hk.top q u qw.1 qw.2 huh hqw ((top_iff hc huh).mpr hseq)
      ((top_iff hc hqw).mpr hmax.symm) hq0 h0
    exact .inl (hsame ▸ hq)
  · have horphan := hk.orphan hc hheld hans hqw
    rcases orphan_outcome ht h horphan hlatest with ⟨q, m, hsent, hrec, hid⟩ |
        ⟨q, u, -, hsent, hid⟩ | ⟨-, u, hsent, hid⟩ | ⟨hidle, hzero | hnone, -⟩
    · rcases ((recover_written h).2.1 q m hsent).record_cases hrec with ⟨-, qw', hlatest', hnone⟩ | ⟨-, ha⟩
      · rw [hid, hlatest, Option.some.injEq] at hlatest'
        exact absurd (hlatest' ▸ hnone) hservice
      · exact absurd (hid ▸ ha) hans
    · exact ⟨q, u, (holds_recover hc ht h).mpr (.inr ⟨hsent, hid⟩),
        fun _ => hsent_content q u hsent hid⟩
    · exact ⟨0, u, (holds_recover hc ht h).mpr (.inr ⟨hsent, hid⟩),
        fun _ => hsent_content 0 u hsent hid⟩
    · -- The copy in partition `0` stays in place of the latest message.
      obtain ⟨u, hu, hseq⟩ := hzero
      have huin : (0, u) ∈ requestsIn isZero (c.reads log) k :=
        mem_requestsIn.mpr ⟨(mem_requestsOf.mp hu).1, (mem_requestsOf.mp hu).2, rfl⟩
      cases hlast : lastMax (fun pv : Nat × Request => pv.2.sequence)
          (requestsIn isZero (c.reads log) k) with
      | none => simp [(lastMax_eq_none_iff _ _).mp hlast] at huin
      | some pv =>
        obtain ⟨hread, hid, hp⟩ := mem_requestsIn.mp (lastMax_mem _ hlast)
        have hle := key_le_lastMax (fun pv : Nat × Request => pv.2.sequence) hlast huin
        have hle' := sequence_le_maxSeq (mem_requestsOf.mpr ⟨hread, hid⟩)
        have hpv0 : pv.1 = 0 := by simpa [isZero] using hp
        refine ⟨pv.1, pv.2, (holds_recover hc ht h).mpr (.inl
          ⟨(mem_requestsOf_reads hc).mp (mem_requestsOf.mpr ⟨hread, hid⟩), .inr hpv0⟩), ?_⟩
        intro hsame
        refine hsame hidle pv rfl ?_
        simp only at hle hle'
        omega
    · exact absurd hnone hservice

end Recovery

end Kar.Rpc
