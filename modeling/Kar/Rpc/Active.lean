import Mathlib.Data.List.Perm.Subperm
import Kar.Rpc.Chain
import Kar.Rpc.Placement
import Kar.Rpc.System

/-!
# The requests that a node works on

A request is *active* on a live node when the node has yet to read its message or
has a task for it.  `OpenOk` is the invariant about a request `k` without completion
record: its chain of tail calls is sound, an active message of it is its latest
message, and at most one message of it is active, on one node.

The lemmas of this module say how the active requests and `OpenOk` change with the
few things that a step does: write a message, read one, end a task, recover.
-/

namespace Kar.Rpc

open Kar.Lib List

namespace State

/-- The requests that node `n` has yet to read or has a task for. -/
def active (s : State) (n : String) : List Request :=
  if s.group.alive n = true then
    (s.pending n).filterMap Message.request? ++
      (s.tasks.filter (fun t => decide (t.node = n))).map Task.msg
  else []

variable {s s' : State}

theorem mem_active :
    v ∈ s.active n ↔ s.group.alive n = true ∧
      (.request v ∈ s.pending n ∨ ∃ t ∈ s.tasks, t.node = n ∧ t.msg = v) := by
  unfold active
  split
  · rename_i halive
    have hreq : v ∈ (s.pending n).filterMap Message.request? ↔
        .request v ∈ s.pending n := by
      rw [mem_filterMap]
      constructor
      · rintro ⟨m, hm, hv⟩
        cases m with
        | request =>
          simp only [Message.request?, Option.some.injEq] at hv
          exact hv ▸ hm
        | response => simp [Message.request?] at hv
        | done => simp [Message.request?] at hv
      · intro h
        exact ⟨_, h, rfl⟩
    rw [mem_append, hreq]
    simp [halive, and_assoc]
  · rename_i halive
    simp [halive]

/-- What a node has yet to read is in its partition. -/
theorem mem_of_mem_pending (h : m ∈ s.pending n) :
    s.group.table n ≠ 0 ∧ m ∈ s.log.messages (s.group.table n) := by
  unfold pending at h
  split at h
  · simp at h
  rename_i hp
  exact ⟨hp, mem_of_mem_drop h⟩

/-- The messages of `ms` are added at the end of the partition of node `n`. -/
theorem pending_append (ms : List Message)
    (htable : s'.group.table n = s.group.table n) (hhead : s'.head n = s.head n)
    (hle : s.group.table n ≠ 0 → s.head n ≤ (s.log (s.group.table n)).newest)
    (holdest : (s'.log (s.group.table n)).oldest = (s.log (s.group.table n)).oldest)
    (hrecords : s'.log.messages (s.group.table n) = s.log.messages (s.group.table n) ++ ms) :
    s'.pending n = s.pending n ++ if s.group.table n = 0 then [] else ms := by
  unfold pending
  rw [htable, hhead]
  split
  · rfl
  rename_i hp
  have hle := hle hp
  unfold Partition.newest at hle
  rw [holdest, show (s'.log (s.group.table n)).records = _ from hrecords, drop_append_of_le_length]
  · rfl
  · unfold Log.messages
    omega

/-- The requests of a list of messages, and the ones that tasks work on, of id `k`. -/
theorem filter_active (halive : s.group.alive n = true) :
    (s.active n).filter (fun v => decide (v.requestID = k)) = ((s.pending n).filterMap
      Message.request?).filter (fun v => decide (v.requestID = k)) ++ ((s.tasks.filter (fun t =>
      decide (t.node = n))).map Task.msg).filter (fun v => decide (v.requestID = k)) := by
  unfold active
  rw [if_pos halive, filter_append]

/-- What a task is about, without its phase. -/
def job (t : Task) : String × Request := (t.node, t.msg)

theorem map_msg_eq (tasks : List Task) (n : String) :
    (tasks.filter (fun t => decide (t.node = n))).map Task.msg =
      ((tasks.map job).filter (fun j => decide (j.1 = n))).map Prod.snd := by
  rw [filter_map, map_map]
  rfl

/-- Nothing of `k` is added to the requests of node `n`. -/
theorem filter_active_sublist (ms : List Message)
    (halive : s'.group.alive n = true → s.group.alive n = true)
    (hpending : (s'.pending n).Sublist (s.pending n ++ ms))
    (hms : ∀ v, .request v ∈ ms → v.requestID ≠ k)
    (htasks : (s'.tasks.map job).Sublist (s.tasks.map job)) :
    ((s'.active n).filter (fun v => decide (v.requestID = k))).Sublist
      ((s.active n).filter (fun v => decide (v.requestID = k))) := by
  by_cases halive' : s'.group.alive n = true
  · rw [filter_active halive', filter_active (halive halive'), map_msg_eq, map_msg_eq]
    refine List.Sublist.append ?_ (((htasks.filter _).map _).filter _)
    have hnone : (ms.filterMap Message.request?).filter (fun v => decide (v.requestID = k)) = [] := by
      rw [filter_eq_nil_iff]
      intro v hv
      obtain ⟨m, hm, hreq⟩ := mem_filterMap.mp hv
      cases m with
      | request u =>
        simp only [Message.request?, Option.some.injEq] at hreq
        subst hreq
        simpa using hms u hm
      | response => simp [Message.request?] at hreq
      | done => simp [Message.request?] at hreq
    have hsub := (hpending.filterMap Message.request?).filter (fun v => decide (v.requestID = k))
    rwa [filterMap_append, filter_append, hnone, append_nil] at hsub
  · unfold active
    rw [if_neg halive']
    exact nil_sublist _

/-- Nothing at all is added to the requests of node `n`. -/
theorem filter_active_subperm (halive : s'.group.alive n = true → s.group.alive n = true)
    (hpending : (s'.pending n).Sublist (s.pending n))
    (htasks : (s'.tasks.map job).Sublist (s.tasks.map job)) :
    ((s'.active n).filter (fun v => decide (v.requestID = k))).Subperm
      ((s.active n).filter (fun v => decide (v.requestID = k))) := by
  refine (filter_active_sublist [] halive ?_ (by simp) htasks).subperm
  rwa [append_nil]

/-- A message of the partition is read, and a task is made of it. -/
theorem active_perm
    (halive : s'.group.alive n = s.group.alive n) (hpending : s.pending n = .request v :: ms)
    (hpending' : s'.pending n = ms) (htasks : s'.tasks = s.tasks ++ [t]) (hnode : t.node = n)
    (hmsg : t.msg = v) : (s'.active n).Perm (s.active n) := by
  unfold active
  rw [halive, hpending, hpending', htasks]
  split
  · simp only [filter_append, map_append, filterMap_cons, Message.request?]
    rw [filter_singleton, hnode, decide_eq_true rfl, cond_true, map_singleton, hmsg,
      ← append_assoc, cons_append]
    exact perm_append_singleton v _
  · exact List.Perm.refl _

/-- The number of active messages of `k` on a live node. -/
theorem countP_active (halive : s.group.alive n = true) :
    (s.active n).countP (fun v => decide (v.requestID = k)) = ((s.pending n).filterMap
      Message.request?).countP (fun v => decide (v.requestID = k)) + s.tasks.countP (fun t => decide
      (t.msg.requestID = k) && decide (t.node = n)) := by
  unfold active
  rw [if_pos halive, countP_append, countP_map, countP_filter]
  rfl

/-- A task of `k` ends, and with it the only active message of `k`. -/
theorem not_mem_active_drop (ht : t ∈ s.tasks) (halive : s.group.alive t.node = true)
    (hone : (s.active t.node).countP (fun v => decide (v.requestID = t.msg.requestID)) ≤ 1)
    (hv : v ∈ (s.drop t.tid).active t.node) : v.requestID ≠ t.msg.requestID := by
  intro hid
  have hpos : 0 < ((s.drop t.tid).active t.node).countP (fun v => decide (v.requestID =
      t.msg.requestID)) := countP_pos_iff.mpr ⟨v, hv, by simpa using hid⟩
  have hpos' : 0 < (s.tasks.filter (fun t' => !decide (t'.tid ≠ t.tid))).countP
      (fun t' => decide (t'.msg.requestID = t.msg.requestID) && decide (t'.node = t.node)) :=
    countP_pos_iff.mpr ⟨t, mem_filter.mpr ⟨ht, by simp⟩, by simp⟩
  have hsplit := countP_eq_countP_filter_add s.tasks (fun t' => decide (t'.msg.requestID =
    t.msg.requestID) && decide (t'.node = t.node)) (fun t' => decide (t'.tid ≠ t.tid))
  rw [countP_active halive] at hone
  rw [countP_active (s := s.drop t.tid) halive] at hpos
  have hpending : (s.drop t.tid).pending t.node = s.pending t.node := rfl
  have htasks : (s.drop t.tid).tasks = s.tasks.filter (fun t' => decide (t'.tid ≠ t.tid)) := rfl
  rw [hpending, htasks] at hpos
  omega

end State

/-! ## The invariant of an open request -/

/-- The invariant of a request `k` without completion record. -/
structure OpenOk (table : String → Nat) (log : Log) (active : String → List Request)
    (k : String) : Prop where
  chain : ChainOk log k
  /-- An active message is in the partition of its node, and no message is later.
  One of the same sequence number is in that partition or in partition `0`. -/
  top : ∀ n v, v ∈ active n → v.requestID = k → table n ≠ 0 ∧ log.Holds k (table n) v ∧
    ∀ q u, log.Holds k q u →
      u.sequence ≤ v.sequence ∧ (u.sequence = v.sequence → q = table n ∨ q = 0)
  /-- Only one node has an active message. -/
  single : ∀ n n' v v', v ∈ active n → v.requestID = k → v' ∈ active n' → v'.requestID = k →
    n = n'
  /-- It has one. -/
  once : ∀ n, (active n).countP (fun v => decide (v.requestID = k)) ≤ 1

section OpenOk

variable {log log' : Log}

/-- A step that leaves the messages of `k` alone and adds none to the active ones. -/
theorem OpenOk.mono (h : OpenOk table log active k) (hlog : ∀ q u, log'.Holds k q u ↔ log.Holds k q u)
    (htable : ∀ n v, v ∈ active' n → v.requestID = k → table' n = table n)
    (hactive : ∀ n, ((active' n).filter (fun v => decide (v.requestID = k))).Subperm
      ((active n).filter (fun v => decide (v.requestID = k)))) : OpenOk table' log' active' k := by
  have hmem : ∀ n v, v ∈ active' n → v.requestID = k → v ∈ active n := by
    intro n v hv hid
    have hold := (hactive n).subset (mem_filter.mpr ⟨hv, by simpa using hid⟩)
    exact (mem_filter.mp hold).1
  refine ⟨h.chain.congr hlog, ?_, ?_, ?_⟩
  · intro n v hv hid
    rw [htable n v hv hid]
    simpa only [hlog] using h.top n v (hmem n v hv hid) hid
  · intro n n' v v' hv hid hv' hid'
    exact h.single n n' v v' (hmem n v hv hid) hid (hmem n' v' hv' hid') hid'
  · intro n
    have hle := (hactive n).length_le
    rw [← countP_eq_length_filter, ← countP_eq_length_filter] at hle
    exact Nat.le_trans hle (h.once n)

/-- When no message of `k` is active, the active part of the invariant is void. -/
theorem OpenOk.of_inactive (hchain : ChainOk log k)
    (hnone : ∀ n v, v ∈ active n → v.requestID ≠ k) : OpenOk table log active k where
  chain := hchain
  top := fun n v hv hid => absurd hid (hnone n v hv)
  single := fun n _ v _ hv hid _ _ => absurd hid (hnone n v hv)
  once := by
    intro n
    rw [countP_eq_zero.mpr]
    · omega
    · intro v hv
      simpa using hnone n v hv

/-- A message of `k` that is later than all others is written, while no other message
of `k` is active. -/
theorem OpenOk.write (hchain : ChainOk (log.append p (.request v)) k)
    (hid : v.requestID = k) (hlater : ∀ q u, log.Holds k q u → u.sequence < v.sequence)
    (hdistinct : ∀ n n', table n ≠ 0 → table n = table n' → n = n')
    (hmem : ∀ n u, u ∈ active' n → u.requestID = k → u = v ∧ table n = p ∧ p ≠ 0)
    (hcount : ∀ n, (active' n).countP (fun u => decide (u.requestID = k)) ≤ 1) :
    OpenOk table (log.append p (.request v)) active' k where
  chain := hchain
  top := by
    intro n u hu huid
    obtain ⟨rfl, rfl, hp⟩ := hmem n u hu huid
    refine ⟨hp, holds_append.mpr (.inr ⟨rfl, rfl, hid⟩), fun q u' hu' => ?_⟩
    rcases holds_append.mp hu' with hold | ⟨hq, hm, -⟩
    · have hlt := hlater q u' hold
      exact ⟨by omega, fun heq => by omega⟩
    · rw [Message.request.inj hm]
      exact ⟨Nat.le_refl _, fun _ => .inl hq⟩
  single := by
    intro n n' u u' hu huid hu' huid'
    obtain ⟨-, htable, hp⟩ := hmem n u hu huid
    obtain ⟨-, htable', -⟩ := hmem n' u' hu' huid'
    exact hdistinct n n' (htable ▸ hp) (htable.trans htable'.symm)
  once := hcount

end OpenOk

end Kar.Rpc
