import Kar.Rpc.Recovered

/-!
# No request is lost

A request that was sent and has no completion record has a message in the log, in
every state of every run.  A recovery leaves a message with the content of its
latest message, as long as partition `0` has no stale copy of the request.

A copy in partition `0` is stale when it has the sequence number of the latest
message and another content.  The copy stays when the service becomes available
again, and the chain that the request starts is restarted with the sequence number
of the copy.  When the service is then gone once more, the recovery takes the copy
for the request itself and drops the latest message.
-/

namespace Kar.Rpc

open Kar.Lib

/-- A request for a service or an actor that was sent and has no completion record. -/
def State.Waits (s : State) (k : String) : Prop :=
  s.history.recorded k = false ∧ ∃ v, s.history.sent k = some v ∧ v.target.service? ≠ none

/-- Every such request has a message, and its messages ask for a service. -/
def State.Kept (s : State) : Prop :=
  ∀ k, s.Waits k → (∃ p u, s.log.Holds k p u) ∧
    ∀ p u, s.log.Holds k p u → u.target.service? ≠ none

/-- The steps that do not touch the messages of the requests that wait. -/
theorem State.Kept.congr {s s' : State} (h : s.Kept) (hwaits : ∀ k, s'.Waits k → s.Waits k)
    (hlog : ∀ k, s'.Waits k → ∀ p u, s'.log.Holds k p u ↔ s.log.Holds k p u) : s'.Kept := by
  intro k hk
  simpa only [hlog k hk] using h k (hwaits k hk)

/-- A request is written. -/
theorem State.Kept.write {s s' : State} (h : s.Kept) {p : Nat} {v : Request}
    (hlog : s'.log = s.log.append p (.request v))
    (hwaits : ∀ k, k ≠ v.requestID → s'.Waits k → s.Waits k)
    (hnew : s'.Waits v.requestID → v.target.service? ≠ none ∧
      ∀ q u, s.log.Holds v.requestID q u → u.target.service? ≠ none) : s'.Kept := by
  intro k hk
  rw [hlog]
  by_cases hid : k = v.requestID
  · subst hid
    obtain ⟨hservice, hold⟩ := hnew hk
    refine ⟨⟨p, v, holds_append.mpr (Or.inr ⟨rfl, rfl, rfl⟩)⟩, fun q u hu => ?_⟩
    rcases holds_append.mp hu with hu | ⟨-, hm, -⟩
    · exact hold q u hu
    · rwa [← Message.request.inj hm]
  · have hne : ∀ u, Message.request v = .request u → u.requestID ≠ k := by
      intro u hu
      rw [← Message.request.inj hu]
      exact Ne.symm hid
    simpa only [holds_append_of_ne hne] using h k (hwaits k hid hk)

section Recovered

variable {s : State} (h : Inv s) {leader : String} {assign : String → Nat} {cs : Nat → Chance}
   (hplan : s.group.PlanOk s.log assign)
  (hrecover : recover
    (s.group.tables s.placementCache leader (s.group.planTable assign))
    (s.group.live s.group.table) (.ofPlan s.group.size s.log) cs (.start s.log s.store) = (.ok (), w))

include h hplan hrecover

/-- What a recovery leaves of a request that waits. -/
theorem State.Kept.recovered (hkept : s.Kept) (hk : (s.recovered assign w).Waits k) :
    ∃ qw, latestRead ((Claims.ofPlan s.group.size s.log).reads s.log) k = some qw ∧ ∃ p v,
      w.log.Holds k p v ∧ ((Idle (s.group.tables s.placementCache leader (s.group.planTable assign))
      qw.2 → ∀ pv, lastMax (fun pv => pv.2.sequence) (requestsIn isZero ((Claims.ofPlan s.group.size
      s.log).reads s.log) k) = some pv → pv.2.sequence = qw.2.sequence → pv.2.content =
      qw.2.content) → v.content = qw.2.content) := by
  have hopen := open_of_recovered hk.1
  have hnot := h.not_answered hopen
  obtain ⟨⟨p, u, hu⟩, hservice⟩ := hkept k ⟨hopen, hk.2⟩
  obtain ⟨qw, hlatest⟩ := exists_latestRead ((mem_requestsOf_reads h.covers).mpr hu)
  have hqw := (mem_requestsOf_reads h.covers).mp (latestRead_mem hlatest)
  exact ⟨qw, hlatest, kept_recover h.covers (attached_plan hplan leader)
    (recover_plan h hplan hrecover) hnot (h.opened k hopen).chain hlatest (hservice _ _ hqw)⟩

theorem State.Kept.recover (hkept : s.Kept) : (s.recovered assign w).Kept := by
  intro k hk
  obtain ⟨qw, -, p, v, hv, -⟩ := hkept.recovered h hplan hrecover hk
  refine ⟨⟨p, v, hv⟩, fun q u hu => ?_⟩
  have hrec := recover_plan h hplan hrecover
  rcases (holds_recover h.covers (attached_plan hplan leader) hrec).mp hu with ⟨hold, -⟩ | ⟨hsent, -⟩
  · exact (hkept k ⟨open_of_recovered hk.1, hk.2⟩).2 q u hold
  · obtain ⟨node, name, hname, -⟩ := ((recover_written hrec).2.1 q _ hsent).restarted.routed
    simp [hname]

end Recovered

theorem State.Kept.step {s s' : State} {l : Label} (hkept : s.Kept) (h : Inv s)
    (heffect : Effect s l s') : s'.Kept := by
  cases heffect with
  | request n v _ _ _ _ _ _ hnew =>
    refine hkept.write (v := v.wire n) rfl ?_ ?_
    · intro k hk hwaits
      simpa [State.Waits, State.recordSend, show k ≠ v.requestID by simpa using hk] using hwaits
    rintro ⟨-, v', hsent, hservice⟩
    simp only [State.recordSend, Request.requestID_wire, Function.update_self,
      Option.some.injEq] at hsent
    rw [Request.target_wire, Request.requestID_wire, hsent]
    exact ⟨hservice, fun q u hu => absurd (hsent ▸ hnew.1) (h.history.sent _ q u hu)⟩
  | tail t target method value deferred c v p store caches ht hrunning hphase htarget hv hroute
      halt hdest =>
    subst hv
    refine hkept.write (v := Request.wire t.node _) rfl (fun _ _ hwaits => hwaits) ?_
    intro hwaits
    rw [Request.target_wire, Request.requestID_wire, State.target_continuation,
      State.requestID_continuation]
    rw [Request.requestID_wire, State.requestID_continuation] at hwaits
    exact ⟨(State.tailTarget_spec htarget).2.1, (hkept _ hwaits).2⟩
  | record _ t _ _ _ _ _ _ _ _ _ hm =>
    refine hkept.congr ?_ ?_
    · rintro k ⟨hk, hsent⟩
      simp only [Function.update_apply] at hk
      split at hk
      · simp at hk
      exact ⟨hk, hsent⟩
    · exact fun k _ q u => holds_append_of_ne fun u' hu' => absurd hu' (hm.not_request h t.node u')
  | recover _ _ _ _ _ _ hplan hrecover =>
    exact hkept.recover h hplan hrecover
  | consume _ m =>
    cases m with
    | request => exact hkept
    | done => exact hkept
    | response =>
      simp only [State.acceptMessage, State.acceptResponse]
      split <;> exact hkept
  | route => exact hkept
  | start => exact hkept
  | drop => exact hkept
  | kill => exact hkept
  | expel => exact hkept
  | join => exact hkept
  | rebalance => exact hkept
  | newLeader => exact hkept
  | grow => exact hkept
  | setup => exact hkept

theorem kept_reachable (hs : Reachable step ok (.init placementCache) s) : s.Kept := by
  refine Reachable.invariant ?_ ?_ hs
  · rintro k ⟨-, v, hsent, -⟩
    simp [State.init] at hsent
  · intro s l s' hs hkept _ hstep
    have h := inv_reachable hs
    exact hkept.step h (step_effect h hstep)

/-! ## Stale copies -/

/-- The latest message of `k` asks for a service that no member offers, and the last
copy of `k` in partition `0` has its sequence number but another content. -/
def State.Stale (s : State) (k : String) : Prop :=
  match latestRead s.reads k,
      lastMax (fun pv => pv.2.sequence) (requestsIn isZero s.reads k) with
  | some qw, some pv =>
    Idle (s.group.tables s.placementCache "" s.group.table) qw.2 ∧
      pv.2.sequence = qw.2.sequence ∧ pv.2.content ≠ qw.2.content
  | _, _ => False

instance (s : State) (k : String) : Decidable (s.Stale k) :=
  match h : latestRead s.reads k,
      h' : lastMax (fun pv => pv.2.sequence) (requestsIn isZero s.reads k) with
  | some qw, some pv => decidable_of_iff
      (Idle (s.group.tables s.placementCache "" s.group.table) qw.2 ∧
        pv.2.sequence = qw.2.sequence ∧ pv.2.content ≠ qw.2.content) (by simp [State.Stale, h, h'])
  | none, _ => isFalse (by simp [State.Stale, h])
  | some _, none => isFalse (by simp [State.Stale, h, h'])

/-- No recovery meets a stale copy of a request without completion record. -/
def NoStale (s : State) : Label → Prop
  | .recover _ _ _ =>
    ∀ k ∈ s.reads.map (fun pm => pm.2.requestID), s.history.recorded k = false → ¬ s.Stale k
  | _ => True

instance (s : State) : (l : Label) → Decidable (NoStale s l)
  | .recover _ _ _ => inferInstanceAs (Decidable (∀ k ∈ s.reads.map _, _))
  | .send .. | .consume .. | .start .. | .finish .. | .reject .. | .tail .. | .die .. | .expel ..
  | .join .. | .rebalance | .newLeader | .grow | .setup .. => inferInstanceAs (Decidable True)

/-- The actor of request `k` is available, then its node dies and `n3` takes over. -/
def chainRun : List Label :=
  [.grow, .grow, .grow, .grow, .join "n1" [], .setup samplePlan,
    .send "n1" (newCall "k" "a" "x" "A" "") (calm 0), .rebalance, .join "n2" ["a"],
    .recover "n1" samplePlan calm, .setup samplePlan, .consume "n2", .start 0,
    .tail 0 (.session "a" "x" "flow" "l1") "B" [] true (calm 0), .die "n2", .rebalance,
    .expel "n2", .join "n3" ["a"]]

/-- Then `n3` dies as well, and no node offers the actor. -/
def lossRun : List Label :=
  chainRun ++ [.recover "n1" samplePlan calm, .setup samplePlan, .die "n3", .rebalance, .expel "n3"]

end Kar.Rpc
