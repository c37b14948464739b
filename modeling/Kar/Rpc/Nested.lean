import Kar.Rpc.Quiet

/-!
# Nested calls

What the history says about the nested calls of a request, in every run: a message
that names a parent is a nested call of that parent, and a nested call has one
parent.
-/

namespace Kar.Rpc

open Kar.Lib

theorem nestedOf_eq_some :
    nestedOf k (p, m) = some c ↔ ∃ v, m = .request v ∧ v.callParent = some k ∧ v.requestID = c := by
  cases m with
  | response => simp [nestedOf]
  | done => simp [nestedOf]
  | request v =>
    cases v with
    | tell => simp [nestedOf, Request.callParent]
    | call => simp [nestedOf, Request.callParent, Request.requestID]

/-- `k` is a nested call of a request without completion record. -/
def State.parentOpen (s : State) (k : String) : Bool :=
  match s.history.sent k with
  | some (.call v) => decide (v.parentID ≠ "") && !s.history.recorded v.parentID
  | _ => false

structure NestedOk (s : State) : Prop where
  noname : s.history.sent "" = none
  parents : ∀ p v k, Message.request v ∈ s.log.messages p → v.callParent = some k → k ≠ "" →
    v.requestID ∈ s.history.nested k
  /-- A nested call is a call of an actor or a service. -/
  sent : ∀ k c, k ≠ "" → c ∈ s.history.nested k →
    ∃ v, s.history.sent c = some (.call v) ∧ v.parentID = k ∧ v.target.service? ≠ none

namespace NestedOk

variable (hn : NestedOk s)

omit hn in
theorem init (placementCache : Bool) : NestedOk (.init placementCache) := by
  constructor <;> simp [State.init, Log.empty, Log.messages]

include hn

theorem sent_ne_none (hk : k ≠ "") (hc : c ∈ s.history.nested k) :
    s.history.sent c ≠ none := by
  obtain ⟨v, hv, -⟩ := hn.sent k c hk hc
  simp [hv]

/-- A nested call has one parent. -/
theorem unique (hk : k ≠ "") (hk' : k' ≠ "") (hc : c ∈ s.history.nested k)
    (hc' : c ∈ s.history.nested k') : k = k' := by
  obtain ⟨v, hv, hparent, -⟩ := hn.sent k c hk hc
  obtain ⟨v', hv', hparent', -⟩ := hn.sent k' c hk' hc'
  rw [hv, Option.some.injEq, Request.call.injEq] at hv'
  rw [← hparent, ← hparent', hv']

theorem ne_noname (hk : s.history.sent k ≠ none) : k ≠ "" := by
  rintro rfl
  exact hk hn.noname

theorem parentOpen (hk : k ≠ "") (hc : c ∈ s.history.nested k)
    (hopen : s.history.recorded k = false) : s.parentOpen c = true := by
  obtain ⟨v, hv, rfl, -⟩ := hn.sent k c hk hc
  simp [State.parentOpen, hv, hk, hopen]

/-- Nothing that names a parent is written. -/
theorem congr (hsent : s'.history.sent = s.history.sent)
    (hnested : s'.history.nested = s.history.nested)
    (hlog : ∀ p v k, .request v ∈ s'.log.messages p → v.callParent = some k → k ≠ "" →
      v.requestID ∈ s.history.nested k) : NestedOk s' where
  noname := by
    rw [hsent]
    exact hn.noname
  parents := by
    rw [hnested]
    exact hlog
  sent := by
    rw [hnested, hsent]
    exact hn.sent

theorem quiet (hq : Quiet s s') : NestedOk s' := by
  refine hn.congr hq.sent hq.nested ?_
  rw [hq.log]
  exact hn.parents

/-- A new request is written.  A nested call is remembered under its parent. -/
theorem request (hnew : s.NewRequest n v) :
    NestedOk (State.recordSend
      { s with
        log := s.log.append p (.request (v.wire n))
        store := store
        caches := caches } n v) := by
  obtain ⟨hfresh, hne, -, -, -, -, -, hparent⟩ := hnew
  cases v with
  | tell v =>
    refine ⟨?_, ?_, ?_⟩
    · simpa [State.recordSend, Ne.symm hne] using hn.noname
    · intro q u k hu hcall hk
      rcases mem_messages_append.mp hu with hold | ⟨-, hm⟩
      · exact hn.parents q u k hold hcall hk
      · rw [Message.request.inj hm, Request.callParent_wire] at hcall
        simp [Request.callParent] at hcall
    · intro k c hk hc
      have hne' : c ≠ v.requestID := fun heq => hn.sent_ne_none hk hc (heq ▸ hfresh)
      simpa [State.recordSend, Request.requestID, hne'] using hn.sent k c hk hc
  | call v =>
    have hold : ∀ k c, c ∈ (State.recordSend { s with
        log := s.log.append p (.request ((Request.call v).wire n))
        store := store
        caches := caches } n (.call v)).history.nested k →
        c ∈ s.history.nested k ∨ (k = v.parentID ∧ c = v.requestID) := by
      intro k c hc
      simp only [State.recordSend, Function.update_apply] at hc
      split at hc
      · rename_i heq
        rcases List.mem_append.mp hc with hold | hnew
        · exact .inl (heq ▸ hold)
        · exact .inr ⟨heq, List.mem_singleton.mp hnew⟩
      · exact .inl hc
    refine ⟨?_, ?_, ?_⟩
    · simpa [State.recordSend, Ne.symm hne] using hn.noname
    · intro q u k hu hcall hk
      simp only [State.recordSend, Function.update_apply]
      rcases mem_messages_append.mp hu with hu | ⟨-, hm⟩
      · have hmem := hn.parents q u k hu hcall hk
        split
        · rename_i heq
          exact List.mem_append_left _ (heq ▸ hmem)
        · exact hmem
      · rw [Message.request.inj hm, Request.callParent_wire] at hcall
        rw [Message.request.inj hm, Request.requestID_wire]
        simp only [Request.callParent, Option.some.injEq] at hcall
        simp [hcall, Request.requestID]
    · intro k c hk hc
      rcases hold k c hc with hc | ⟨rfl, rfl⟩
      · have hne' : c ≠ v.requestID := fun heq => hn.sent_ne_none hk hc (heq ▸ hfresh)
        simpa [State.recordSend, Request.requestID, hne'] using hn.sent k c hk hc
      refine ⟨v, by simp [State.recordSend, Request.requestID], rfl, ?_⟩
      rcases hparent with h | h | ⟨hservice, -⟩
      · simp [Request.callParent] at h
      · exact absurd (Option.some.inj h) hk
      · exact hservice

theorem step (h : Inv s) (heffect : Effect s l s') : NestedOk s' := by
  cases heffect with
  | request _ _ _ _ _ _ _ _ hnew => exact hn.request hnew
  | tail t target method value deferred c v p store caches ht hrunning hphase htarget hv hroute
      halt hdest =>
    refine hn.congr rfl rfl fun q u k hu hcall hk => ?_
    rcases mem_messages_append.mp hu with hold | ⟨-, hm⟩
    · exact hn.parents q u k hold hcall hk
    · rw [Message.request.inj hm, Request.callParent_wire, hv] at hcall
      unfold State.continuation at hcall
      cases hmsg : t.msg <;> simp [hmsg, Request.callParent] at hcall
      exact absurd hcall hk
  | record _ t _ _ _ _ _ _ _ _ _ hm =>
    refine hn.congr rfl rfl fun q u k hu hcall hk => ?_
    rcases mem_messages_append.mp hu with hold | ⟨-, hnew⟩
    · exact hn.parents q u k hold hcall hk
    · exact absurd hnew.symm (hm.not_request h t.node u)
  | recover _ _ _ _ _ _ hplan hrecover =>
    refine hn.congr rfl rfl fun q u k hu hcall hk => ?_
    have hrec := recover_plan h hplan hrecover
    rcases ((mem_messages_recover hrec).mp hu).1 with hold | hsent
    · exact hn.parents q u k hold hcall hk
    obtain ⟨qw, hlatest, hsource⟩ := ((recover_written hrec).2.1 q _ hsent).restarted.source
    have hread := (mem_requestsOf_reads h.covers).mp (latestRead_mem hlatest)
    rw [hsource, Request.callParent_wire, Request.callParent_restartAt] at hcall
    rw [← hread.2]
    exact hn.parents _ _ k hread.1 hcall hk
  | consume n m =>
    obtain ⟨hlog, -, -, -, hhistory⟩ := acceptMessage_frame (s.advance n) n m
    refine hn.congr (hhistory ▸ rfl) (hhistory ▸ rfl) ?_
    rw [hlog]
    exact hn.parents
  | start => exact hn.congr rfl rfl hn.parents
  | route _ _ store caches => exact hn.quiet (.route store caches)
  | drop _ t store caches done =>
    exact hn.quiet (.drop store caches done t.tid)
  | kill _ n store caches => exact hn.quiet (.kill store caches n)
  | expel _ _ hdead => exact hn.quiet (.expel h hdead)
  | join _ services _ hnew => exact hn.quiet (.join h services hnew)
  | rebalance => exact hn.quiet (.rebalance h)
  | newLeader => exact hn.quiet (.newLeader h)
  | grow => exact hn.quiet (.grow h)
  | setup _ _ hplan => exact hn.quiet (.setup h hplan)

end NestedOk

theorem nestedOk_reachable (hs : Reachable step ok (.init placementCache) s) : NestedOk s := by
  refine Reachable.invariant (.init placementCache) ?_ hs
  intro s l s' hs hn _ hstep
  have h := inv_reachable hs
  exact hn.step h (step_effect h hstep)

end Kar.Rpc
