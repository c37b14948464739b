import Kar.Rpc.Resends

/-!
# What a recovery writes

The messages that a recovery writes, read off its sends.  A message of id `k`
is written for one of three reasons: `k` is sent again, `k` is a call to a dead
node and is answered with an error, or `k` has a completion record in a dead
partition and a request that survives, and the record is rewritten as a `Done`.
`written_cases` says this, and the lemmas after it say what it means for `k`.

`Claims.Covers` is what a plan guarantees of the claims of the leader: they are
sorted, they start with partition `0`, and every record of the topic is read.
Under it the messages read are the messages of the log (`mem_reads`).
-/

namespace Kar.Rpc

open Kar.Lib List

/-! ## The claims of the leader -/

/-- The claims cover the log. -/
structure Claims.Covers (c : Claims) (log : Log) : Prop where
  sorted : c.partitions.Pairwise (· < ·)
  zero : 0 ∈ c.partitions
  all : ∀ p, log.messages p ≠ [] → p ∈ c.partitions
  newest : ∀ p, log.messages p ≠ [] → c.newest p = (log p).newest

theorem Partition.oldest_lt_newest (p : Partition) : p.oldest < p.newest ↔ p.records ≠ [] := by
  rw [Partition.newest, ← length_pos_iff]
  omega

variable {c : Claims}

/-- The claims of a recovery plan cover the log. -/
theorem covers_ofPlan (hn : 0 < n)
    (h : ∀ p, n ≤ p → log.messages p = []) : (Claims.ofPlan n log).Covers log where
  sorted := List.Pairwise.filter _ pairwise_lt_range
  zero := by simp [Claims.ofPlan, hn]
  all := by
    intro p hp
    have hlt : p < n := by
      by_contra hge
      exact hp (h p (by omega))
    have hne := (log p).oldest_lt_newest.mpr hp
    simp [Claims.ofPlan, hlt, hne]
  newest := by
    intro p hp
    have hne := (log p).oldest_lt_newest.mpr hp
    simp [Claims.ofPlan, hne]

theorem Claims.Covers.messages_eq (hc : c.Covers log) :
    c.messages log p = log.messages p := by
  unfold Claims.messages
  by_cases hne : log.messages p = []
  · rw [show (log p).records = [] from hne, take_nil, hne]
  · rw [hc.newest p hne, Partition.newest, Nat.add_sub_cancel_left, take_length]
    rfl

theorem mem_reads (hc : c.Covers log) :
    (p, m) ∈ c.reads log ↔ m ∈ log.messages p := by
  unfold Claims.reads
  simp only [mem_flatMap, mem_map, Prod.mk.injEq, hc.messages_eq]
  constructor
  · rintro ⟨q, -, m', hmem, rfl, rfl⟩
    exact hmem
  · intro hmem
    exact ⟨p, hc.all p (ne_nil_of_mem hmem), m, hmem, rfl, rfl⟩

/-- The claims start with partition `0`, so its requests are read first. -/
theorem requestsOf_reads (hc : c.Covers log) (k : String) :
    ∃ rest, requestsOf (c.reads log) k =
      (log.messages 0).filterMap (fun m => requestOf k (0, m)) ++ rest ∧ ∀ pv ∈ rest, pv.1 ≠ 0 := by
  obtain ⟨ps, hps, hpos⟩ : ∃ ps, c.partitions = 0 :: ps ∧ ∀ p ∈ ps, 0 < p := by
    have hsorted := hc.sorted
    have hzero := hc.zero
    cases hparts : c.partitions with
    | nil => simp [hparts] at hzero
    | cons p ps =>
      rw [hparts, pairwise_cons] at hsorted
      rw [hparts] at hzero
      rcases mem_cons.mp hzero with rfl | hmem
      · exact ⟨ps, rfl, hsorted.1⟩
      · exact absurd (hsorted.1 0 hmem) (by omega)
  refine ⟨requestsOf (ps.flatMap (fun p => (c.messages log p).map (fun m => (p, m)))) k, ?_, ?_⟩
  · unfold Claims.reads
    rw [hps, flatMap_cons, hc.messages_eq, requestsOf_append]
    congr 1
    unfold requestsOf
    rw [filterMap_map]
    rfl
  · rintro ⟨q, v⟩ hmem
    have hread := (mem_requestsOf.mp hmem).1
    simp only [mem_flatMap, mem_map, Prod.mk.injEq] at hread
    obtain ⟨p, hp, m, -, rfl, -⟩ := hread
    exact Nat.ne_of_gt (hpos p hp)

theorem requestOf_partition (h : requestOf k (p, m) = some pv) : pv.1 = p := by
  cases m with
  | request =>
    obtain ⟨-, h⟩ := Option.ite_none_right_eq_some.mp h
    rw [← Option.some.inj h]
  | response => simp [requestOf] at h
  | done => simp [requestOf] at h

theorem requestsIn_isZero_reads (hc : c.Covers log) :
    requestsIn isZero (c.reads log) k =
      (log.messages 0).filterMap (fun m => requestOf k (0, m)) := by
  obtain ⟨rest, hreads, hrest⟩ := requestsOf_reads hc k
  unfold requestsIn
  rw [hreads, filter_append, filter_eq_self.mpr, filter_eq_nil_iff.mpr, append_nil]
  · intro pv hpv
    simp [isZero, hrest pv hpv]
  · intro pv hpv
    obtain ⟨m, -, hreq⟩ := mem_filterMap.mp hpv
    simp [isZero, requestOf_partition hreq]

/-! ## The sends for completion records -/

theorem recoverStep_record (hm : m.isRecord = true) : recoverStep s seen m =
      if s.requests.has m.requestID && !s.responses0.has m.requestID then
        (some (.respond { requestID := m.requestID, deadline := m.deadline }), seen)
      else (none, seen) := by
  cases m with
  | request => simp [Message.isRecord] at hm
  | response => rfl
  | done => rfl

theorem recoverStep_request_ne :
    (recoverStep s seen (.request v)).1 ≠ some (.respond d) := by
  rw [recoverStep]
  split_ifs <;> simp

theorem mem_recoverLoop_respond
    : Action.respond d ∈ recoverLoop s ms seen ↔
      ∃ m ∈ ms, m.isRecord = true ∧ s.requests.has m.requestID = true ∧
        s.responses0.has m.requestID = false ∧
        d = { requestID := m.requestID, deadline := m.deadline } := by
  induction ms generalizing seen with
  | nil => simp [recoverLoop]
  | cons m ms ih =>
    have hcons : Action.respond d ∈ recoverLoop s (m :: ms) seen ↔
        (recoverStep s seen m).1 = some (.respond d) ∨
          Action.respond d ∈ recoverLoop s ms (recoverStep s seen m).2 := by
      rw [recoverLoop]
      cases recoverStep s seen m with
      | mk act => cases act <;> simp [eq_comm]
    rw [hcons, ih, exists_mem_cons_iff]
    refine or_congr_left ?_
    cases hm : m.isRecord with
    | false =>
      cases m with
      | request => simp [recoverStep_request_ne]
      | response => simp [Message.isRecord] at hm
      | done => simp [Message.isRecord] at hm
    | true =>
      rw [recoverStep_record hm]
      split_ifs with htest
      · simp only [Bool.and_eq_true, Bool.not_eq_true'] at htest
        simp [htest, eq_comm]
      · simp only [Bool.and_eq_true, Bool.not_eq_true', not_and] at htest
        simp only [true_and, false_iff, not_and]
        intro hreq hzero
        exact absurd hzero (htest hreq)

section Written

/-- The completion records that are rewritten: those of dead partitions whose
request survives in a live partition or in partition `0`, where no record of it
is yet. -/
theorem mem_actions_respond :
    Action.respond d ∈ (scan live reads).actions ↔
      ∃ p m, (p, m) ∈ reads ∧ inDead live (p, m) = true ∧ m.isRecord = true ∧
        (∃ pv ∈ requestsOf reads m.requestID, live.mem pv.1 = true ∨ pv.1 = 0) ∧
        (¬ ∃ m', (0, m') ∈ reads ∧ m'.isRecord = true ∧ m'.requestID = m.requestID) ∧
        d = { requestID := m.requestID, deadline := m.deadline } := by
  unfold Scan.actions
  rw [mem_recoverLoop_respond, scan_orphans_append]
  simp only [scan_requests, ← Bool.not_eq_true, scan_responses0, mem_map, Prod.exists,
    exists_eq_right]
  constructor
  · rintro ⟨m, ⟨p, hmem⟩, hrec, hreq, hzero, rfl⟩
    rcases mem_append.mp hmem with hdead | h0
    · obtain ⟨hread, hin⟩ := mem_filter.mp hdead
      exact ⟨p, m, hread, hin, hrec, hreq, hzero, rfl⟩
    · have hno := (mem_filter.mp h0).2
      simp [isRequest0, hrec] at hno
  · rintro ⟨p, m, hread, hin, hrec, hreq, hzero, rfl⟩
    refine ⟨m, ⟨p, ?_⟩, hrec, hreq, hzero, rfl⟩
    exact mem_append_left _ (mem_filter.mpr ⟨hread, hin⟩)

/-! ## The messages written -/

theorem mem_resends_iff :
    r ∈ resends actions ↔ Action.resend r.1 r.2 ∈ actions := by
  unfold resends
  rw [mem_filterMap]
  constructor
  · rintro ⟨a, ha, hr⟩
    cases a with
    | respond => simp [Action.resend?] at hr
    | resend =>
      simp only [Action.resend?, Option.some.injEq] at hr
      subst hr
      exact ha
  · intro h
    exact ⟨_, h, rfl⟩

/-- Why a recovery writes a message. -/
inductive Written (t : Tables) (live : Live) (reads : List (Nat × Message)) :
    Nat → Message → Prop
  | resent (r : Request × Bool) (node : String) (p : Nat)
      (hr : r ∈ resends (scan live reads).actions) (hroute : Routed t r.1.target node p)
      (hdrop : p = 0 → r.2 = false) : Written t live reads p (.request (r.1.wire t.self))
  | answered (v : CallRequest) (drop : Bool) (id : String)
      (hr : (Request.call v, drop) ∈ resends (scan live reads).actions)
      (htarget : v.target = .node id) :
      Written t live reads (t.node2partition v.caller)
        ((Message.response (nodeDied v)).wire t.self)
  | kept (d : Done) (hd : Action.respond d ∈ (scan live reads).actions) :
      Written t live reads 0 ((Message.done d).wire t.self)

theorem written_cases (hdone : ∀ a ∈ done, a ∈ (scan live reads).actions)
    (houts : List.Forall₂ (Outcome t) done outs)
    (h : (p, m) ∈ outs.reduceOption) : Written t live reads p m := by
  obtain ⟨a, ha, hout⟩ := forall₂_mem_right houts (reduceOption_mem_iff.mp h)
  have hmem := hdone a ha
  cases hout with
  | nodeCall v drop id htarget => exact .answered v drop id (mem_resends_iff.mpr hmem) htarget
  | resent msg drop node _ hroute hdrop =>
    exact .resent (msg, drop) node p (mem_resends_iff.mpr hmem) hroute hdrop
  | responded d => exact .kept d hmem

@[simp] theorem Target.service?_clearLock (target : Target) :
    target.clearLock.service? = target.service? := by
  cases target <;> rfl

/-- The request `v` that a recovery writes to partition `p` is the restart of
its id. -/
structure Restarted (t : Tables) (live : Live) (reads : List (Nat × Message)) (p : Nat)
    (v : Request) : Prop where
  resent : v.requestID ∈ resentIds live reads
  sequence : v.sequence = restart reads v.requestID
  unlocked : v.locked = false
  child : v.childID = childOf reads v.requestID
  latest : ∃ qw, latestRead reads v.requestID = some qw ∧ v.content = qw.2.content
  source : ∃ qw, latestRead reads v.requestID = some qw ∧
    v = (qw.2.restartAt (childOf reads v.requestID) (restart reads v.requestID)).wire t.self
  routed : ∃ node, Routed t v.target node p
  notHeldZero : p = 0 → ¬ HeldZero reads v.requestID

theorem Written.restarted (h : Written t live reads p (.request v)) :
    Restarted t live reads p v := by
  generalize hm : Message.request v = m at h
  cases h with
  | answered => simp [Message.wire] at hm
  | kept => simp [Message.wire] at hm
  | resent r node _ hr hroute hdrop =>
    simp only [Message.request.injEq] at hm
    subst hm
    obtain ⟨hid, qw, hlatest, heq⟩ := mem_resends live reads hr
    have hzero : p = 0 → ¬ HeldZero reads r.1.requestID := by
      intro hp
      have hflag : r.2 = (scan live reads).inPartition0 r.1.requestID := congrArg Prod.snd heq
      rw [← inPartition0_iff live reads, ← hflag, hdrop hp]
      simp
    have hroute' : Routed t (r.1.wire t.self).target node p := by simpa using hroute
    have hmsg := congrArg Prod.fst heq
    simp only at hmsg
    refine ⟨by simpa using hid, ?_, ?_, ?_, ⟨qw, by simpa using hlatest, ?_⟩,
      ⟨qw, by simpa using hlatest, by rw [Request.requestID_wire, ← hmsg]⟩, ⟨node, hroute'⟩,
      by simpa using hzero⟩
    all_goals
      simp only [Request.requestID_wire, Request.sequence_wire, Request.locked_wire,
        Request.content_wire, Request.childID_wire]
      rw [hmsg]
      simp [(mem_requestsOf.mp (latestRead_mem hlatest)).2]

/-- The latest message of a request that is written has a service. -/
theorem Restarted.service (h : Restarted t live reads p v)
    (hlatest : latestRead reads v.requestID = some qw) :
    qw.2.target.service? ≠ none := by
  obtain ⟨qw', hlatest', hcontent⟩ := h.latest
  rw [hlatest, Option.some.injEq] at hlatest'
  subst hlatest'
  obtain ⟨node, name, hname, -⟩ := h.routed
  have htarget := congrArg (fun c => c.1.service?) hcontent
  simp only [Request.content, Target.service?_clearLock] at htarget
  simp [← htarget, hname]

/-- A completion record that is written answers a call to a dead node, or it
stands for a record that was read. -/
theorem Written.record_cases (h : Written t live reads p m) (hm : m.isRecord = true) :
    (m.requestID ∈ resentIds live reads ∧ ∃ qw, latestRead reads m.requestID = some qw ∧
        qw.2.target.service? = none) ∨ (p = 0 ∧ Answered reads m.requestID) := by
  cases h with
  | resent => simp [Message.isRecord] at hm
  | answered _ _ _ hr htarget =>
    obtain ⟨hid, qw, hlatest, heq⟩ := mem_resends live reads hr
    refine Or.inl ⟨hid, qw, hlatest, ?_⟩
    have hnode := congrArg (fun r => r.1.target.service?) heq
    simp only [Request.target_restartAt, Target.service?_clearLock] at hnode
    rw [← hnode, Request.target, htarget]
    rfl
  | kept d hd =>
    obtain ⟨q, m, hread, -, hrec, -, -, rfl⟩ := mem_actions_respond.mp hd
    refine Or.inr ⟨rfl, (q, m), hread, hrec, ?_⟩
    simp [Message.requestID, Message.wire]

/-- The id of a request message. -/
def Message.request? : Message → Option Request
  | .request v => some v
  | _ => none

/-- The ids of the request messages in a list of writes. -/
def sentIds (sent : List (Nat × Message)) : List String :=
  sent.filterMap (fun pm => pm.2.request?.map Request.requestID)

theorem sentIds_eq :
    sentIds sent = (sent.filterMap (fun pm => pm.2.request?)).map Request.requestID := by
  rw [map_filterMap]
  rfl

theorem mem_sentIds :
    k ∈ sentIds sent ↔ ∃ p v, (p, .request v) ∈ sent ∧ v.requestID = k := by
  unfold sentIds
  rw [mem_filterMap]
  constructor
  · rintro ⟨⟨p, m⟩, hmem, hid⟩
    cases m with
    | request v => exact ⟨p, v, hmem, by simpa [Message.request?] using hid⟩
    | response => simp [Message.request?] at hid
    | done => simp [Message.request?] at hid
  · rintro ⟨p, v, hmem, rfl⟩
    exact ⟨_, hmem, rfl⟩

theorem Outcome.sentIds_sublist (h : Outcome t a out) :
    (sentIds out.toList).Sublist ((resends [a]).map (fun r => r.1.requestID)) := by
  cases h <;> simp [sentIds, resends, Action.resend?, Message.wire, Message.request?]

theorem sentIds_sublist (houts : List.Forall₂ (Outcome t) done outs) :
    (sentIds outs.reduceOption).Sublist ((resends done).map (fun r => r.1.requestID)) := by
  induction houts with
  | nil => simp [sentIds, resends]
  | @cons a out done outs hout _ ih =>
    have hleft : sentIds (out :: outs).reduceOption =
        sentIds out.toList ++ sentIds outs.reduceOption := by
      have hsplit : (out :: outs).reduceOption = out.toList ++ outs.reduceOption := by
        cases out <;> simp
      rw [hsplit, sentIds, filterMap_append]
      rfl
    have hright : (resends (a :: done)).map (fun r => r.1.requestID) =
        (resends [a]).map (fun r => r.1.requestID) ++
          (resends done).map (fun r => r.1.requestID) := by
      rw [← map_append]
      simp [resends, ← filterMap_append]
    rw [hleft, hright]
    exact hout.sentIds_sublist.append ih

end Written

/-! ## The log after the sends -/

section Log

variable {t : Tables} {live : Live}

/-- A recovery that stops after some of its sends has written what it wrote. -/
theorem perform_written
    (h : perform t cs ((recoverActions live c log).take n) (.start log store) = (r, w)) :
    w.log = log.appendAll w.sent ∧ ∀ p m, (p, m) ∈ w.sent → Written t live (c.reads log) p m := by
  obtain ⟨done, outs, hdone, -, houts, hwrote⟩ := perform_outcomes (cacheOk_empty t) h
  have hsent : w.sent = outs.reduceOption := hwrote.sent
  refine ⟨hsent ▸ hwrote.log, fun p m hmem => ?_⟩
  refine written_cases (fun a ha => ?_) houts (hsent ▸ hmem)
  exact mem_of_mem_take (hdone.subset ha)

theorem recover_sent (h : recover t live c cs (.start log store) = (r, w)) :
    ∀ p m, (p, m) ∈ w.sent → Written t live (c.reads log) p m := by
  unfold recover at h
  rw [World.start_log] at h
  cases hperf : perform t cs (recoverActions live c log) (.start log store) with
  | mk res =>
    have hwritten := (perform_written (n := (recoverActions live c log).length)
      (by rw [take_length, hperf])).2
    rw [hperf] at h
    cases res <;> simp only [Prod.mk.injEq] at h <;> obtain ⟨-, rfl⟩ := h <;> exact hwritten

/-- A recovery that completes has made all its sends and emptied the dead
partitions. -/
theorem recover_written (h : recover t live c cs (.start log store) = (.ok (), w)) :
    w.log = (log.appendAll w.sent).deleteRecords (c.offsetsForDeletion live) ∧
      (∀ p m, (p, m) ∈ w.sent → Written t live (c.reads log) p m) ∧
      ∀ a ∈ recoverActions live c log, ∃ out, Outcome t a out ∧ ∀ pm, out = some pm → pm ∈ w.sent := by
  obtain ⟨outs, houts, hlog, hsent⟩ := recover_outcomes (cacheOk_empty t) h
  replace hsent : w.sent = outs.reduceOption := hsent
  refine ⟨hsent ▸ hlog, fun p m hmem => ?_, fun a ha => ?_⟩
  · exact written_cases (fun a ha => ha) houts (hsent ▸ hmem)
  obtain ⟨out, hmem, hout⟩ := forall₂_mem_left houts ha
  refine ⟨out, hout, ?_⟩
  rintro pm rfl
  rw [hsent]
  exact reduceOption_mem_iff.mpr hmem

/-- A recovery writes at most one request message for each id. -/
theorem nodup_sentIds (h : recover t live c cs (.start log store) = (.ok (), w)) :
    (sentIds w.sent).Nodup := by
  obtain ⟨outs, houts, -, hsent⟩ := recover_outcomes (cacheOk_empty t) h
  replace hsent : w.sent = outs.reduceOption := hsent
  rw [hsent]
  refine (sentIds_sublist houts).nodup ?_
  unfold recoverActions
  rw [resends_ids]
  exact nodup_resentIds live _

theorem sent_request_unique (h : recover t live c cs (.start log store) = (.ok (), w))
    (hv : (p, .request v) ∈ w.sent)
    (hu : (q, .request u) ∈ w.sent) (hid : v.requestID = u.requestID) : p = q ∧ v = u := by
  have heq := eq_of_nodup_filterMap (nodup_sentIds h) hv hu rfl (by simp [Message.request?, hid])
  simpa using heq

theorem mem_offsetsForDeletion :
    p ∈ c.offsetsForDeletion live ↔ p ∈ c.partitions ∧ live.mem p = false ∧ p ≠ 0 := by
  simp [Claims.offsetsForDeletion]

theorem not_mem_offsetsForDeletion (hp : live.mem p = true ∨ p = 0) :
    p ∉ c.offsetsForDeletion live := by
  rw [mem_offsetsForDeletion]
  rintro ⟨-, hdead, hne⟩
  rcases hp with hlive | hzero
  · simp [hlive] at hdead
  · exact hne hzero

/-- The messages after a recovery that completes: the old and the written ones,
outside the partitions that were emptied. -/
theorem mem_messages_recover (h : recover t live c cs (.start log store) = (.ok (), w))
    : m ∈ w.log.messages p ↔
      (m ∈ log.messages p ∨ (p, m) ∈ w.sent) ∧ p ∉ c.offsetsForDeletion live := by
  rw [(recover_written h).1, Log.messages_deleteRecords]
  split
  · simp_all
  · simp_all [Log.mem_messages_appendAll]

/-- An old message that survives a recovery is in a live partition or in
partition `0`. -/
theorem live_or_zero_of_kept (hc : c.Covers log)
    (hm : m ∈ log.messages p) (hp : p ∉ c.offsetsForDeletion live) :
    live.mem p = true ∨ p = 0 := by
  rw [mem_offsetsForDeletion] at hp
  by_contra hnot
  simp only [not_or, Bool.not_eq_true] at hnot
  exact hp ⟨hc.all p (ne_nil_of_mem hm), hnot⟩

end Log

/-! ## The live partitions that matter -/

theorem scan_congr
    (h : ∀ pm ∈ reads, live.mem pm.1 = live'.mem pm.1) : scan live reads = scan live' reads := by
  refine foldl_ext _ _ _ fun s pm hpm => ?_
  unfold scanMessage
  split
  · simp [scanRequest, h pm hpm]
  · simp [scanRecord, h pm hpm]

/-- A recovery only asks of the partitions that it reads whether they are live. -/
theorem recover_congr (h : ∀ p ∈ c.partitions, live.mem p = live'.mem p) (t : Tables)
    (cs : Nat → Chance) (w : World) : recoverActions live c w.log = recoverActions live' c w.log ∧
      recover t live c cs w = recover t live' c cs w := by
  have hactions : recoverActions live c w.log = recoverActions live' c w.log := by
    unfold recoverActions
    rw [scan_congr]
    rintro ⟨p, m⟩ hpm
    unfold Claims.reads at hpm
    simp only [mem_flatMap, mem_map, Prod.mk.injEq] at hpm
    obtain ⟨q, hq, _, _, rfl, _⟩ := hpm
    exact h q hq
  have hdeletion : c.offsetsForDeletion live = c.offsetsForDeletion live' := by
    exact filter_congr fun p hp => by rw [h p hp]
  refine ⟨hactions, ?_⟩
  unfold recover
  rw [hactions, hdeletion]

end Kar.Rpc
