import Kar.Rpc.Nested

/-!
# Where the messages come from

A request message in the log was sent by a client, or continues a request that a
task worked on, or was made from an earlier message by a recovery.  `Effect.message`
says so for one step.  What all of these keep holds of every message in every run:
here the caller of a call, which is a node that joined the group at some time.
-/

namespace Kar.Rpc

open Kar.Lib List

/-- A node that left the group.  It does not come back. -/
structure Group.Gone (g : Group) (n : String) : Prop where
  known : n ∈ g.known
  left : n ∉ g.members

namespace Request

theorem caller?_wire {v : Request} {a : String} (h : v.caller? = some a) (ha : a ≠ "") : (v.wire self).caller? = some a := by
  cases v with
  | tell => simp [caller?] at h
  | call =>
    simp only [caller?, Option.some.injEq] at h
    subst h
    simp [wire, caller?, ha]

theorem caller?_wire_eq_none {v : Request} (h : v.caller? = none) :
    (v.wire self).caller? = none := by
  cases v with
  | tell => rfl
  | call => simp [caller?] at h

@[simp] theorem caller?_restartAt (v : Request) (child : String) (i : Nat) :
    (v.restartAt child i).caller? = v.caller? := by
  cases v <;> rfl

@[simp] theorem caller?_continuation (v : Request) (target : Target) (method : String)
    (value : List UInt8) (deferred : Bool) :
    (State.continuation v target method value deferred).caller? = v.caller? := by
  cases v <;> rfl

end Request

section Effect

variable (heffect : Effect s l s')

include heffect

/-- Where a request message comes from. -/
theorem Effect.message (h : Inv s) (hu : .request u ∈ s'.log.messages p) :
    .request u ∈ s.log.messages p ∨ (∃ n v, s.group.alive n = true ∧ s.NewRequest n v ∧ u = v.wire n
      ∧ s'.history.sent v.requestID = some v) ∨ (∃ q v, s.log.Holds u.requestID q v ∧ ∃ (v' :
      Request) (self : String), v'.caller? = v.caller? ∧ u = v'.wire self) := by
  cases heffect with
  | request n v _ _ _ _ _ halive hnew =>
    rcases mem_messages_append.mp hu with hold | ⟨-, hm⟩
    · exact .inl hold
    · exact Or.inr (Or.inl ⟨n, v, halive, hnew, Message.request.inj hm, by simp [State.recordSend]⟩)
  | tail t target method value deferred c v p store caches ht hrunning hphase htarget hv hroute
      halt hdest =>
    rcases mem_messages_append.mp hu with hold | ⟨-, hm⟩
    · exact .inl hold
    · obtain rfl := Message.request.inj hm
      refine .inr (.inr ⟨_, t.msg, ⟨h.tasks.msg t ht, ?_⟩, v, t.node, ?_, rfl⟩)
      · simp [hv]
      · simp [hv]
  | record _ t _ _ _ _ _ _ _ _ _ hm =>
    rcases mem_messages_append.mp hu with hold | ⟨-, hnew⟩
    · exact .inl hold
    · exact absurd hnew.symm (hm.not_request h t.node u)
  | recover _ _ _ _ _ _ hplan hrecover =>
    have hrec := recover_plan h hplan hrecover
    rcases ((mem_messages_recover hrec).mp hu).1 with hold | hsent
    · exact .inl hold
    · obtain ⟨qw, hlatest, hsource⟩ := ((recover_written hrec).2.1 p _ hsent).restarted.source
      exact .inr (.inr ⟨qw.1, qw.2, (mem_requestsOf_reads h.covers).mp (latestRead_mem hlatest),
        _, _, by simp, hsource⟩)
  | consume n m =>
    rw [(acceptMessage_frame (s.advance n) n m).1] at hu
    exact .inl hu
  | _ => exact .inl hu

theorem Effect.gone (hn : s.group.Gone n) : s'.group.Gone n := by
  cases heffect with
  | consume n m =>
    rw [(acceptMessage_frame (s.advance n) n m).2.1]
    exact hn
  | expel =>
    exact ⟨hn.known, fun hmem => hn.left (mem_filter.mp hmem).1⟩
  | join _ _ _ hnew =>
    refine ⟨mem_cons_of_mem _ hn.known, fun hmem => ?_⟩
    rcases mem_append.mp hmem with hold | hnew'
    · exact hn.left hold
    · exact hnew (mem_singleton.mp hnew' ▸ hn.known)
  | _ => exact ⟨hn.known, hn.left⟩

theorem Effect.known (hn : n ∈ s.group.known) : n ∈ s'.group.known := by
  cases heffect with
  | consume n m =>
    rw [(acceptMessage_frame (s.advance n) n m).2.1]
    exact hn
  | join => exact mem_cons_of_mem _ hn
  | _ => exact hn

/-- What was sent under an id is not replaced. -/
theorem Effect.sent (hk : s.history.sent k ≠ none) :
    s'.history.sent k = s.history.sent k := by
  cases heffect with
  | consume n m =>
    rw [(acceptMessage_frame (s.advance n) n m).2.2.2.2]
    rfl
  | request _ v _ _ _ _ _ _ hnew =>
    have hne : k ≠ v.requestID := fun heq => hk (heq ▸ hnew.1)
    simp [State.recordSend, hne]
  | _ => rfl

end Effect

/-- Every message of a call names its caller, which is a node that joined the
group. -/
def CallersOk (s : State) : Prop :=
  ∀ p u, Message.request u ∈ s.log.messages p →
    ∃ v, s.history.sent u.requestID = some v ∧
      ((v.caller? = none ∧ u.caller? = none) ∨
        (v.caller? ≠ none ∧ ∃ a, u.caller? = some a ∧ a ≠ "" ∧ a ∈ s.group.known))

theorem CallersOk.step {s s' : State} {l : Label} (hc : CallersOk s) (h : Inv s)
    (heffect : Effect s l s') : CallersOk s' := by
  -- A message that comes from one of the log keeps its caller.
  have hkeep : ∀ (u : Request) q v, s.log.Holds u.requestID q v →
      (∀ a, v.caller? = some a → a ≠ "" → u.caller? = some a) →
      (v.caller? = none → u.caller? = none) →
      ∃ v, s'.history.sent u.requestID = some v ∧ ((v.caller? = none ∧ u.caller? = none) ∨
        (v.caller? ≠ none ∧ ∃ a, u.caller? = some a ∧ a ≠ "" ∧ a ∈ s'.group.known)) := by
    intro u q v hv hsome hnone
    obtain ⟨v₀, hsent, hcase⟩ := hc q v hv.1
    rw [hv.2] at hsent
    refine ⟨v₀, by rw [heffect.sent (by simp [hsent]), hsent], ?_⟩
    rcases hcase with ⟨hv₀, hcall⟩ | ⟨hv₀, a, hcall, ha, hknown⟩
    · exact .inl ⟨hv₀, hnone hcall⟩
    · exact .inr ⟨hv₀, a, hsome a hcall ha, ha, heffect.known hknown⟩
  intro p u hu
  rcases heffect.message h hu with hold | ⟨n, v, halive, hnew, rfl, hsent⟩ |
    ⟨q, v, hv, v', self, hcaller, rfl⟩
  · exact hkeep u p u ⟨hold, rfl⟩ (fun a ha _ => ha) fun hnone => hnone
  · refine ⟨v, by rw [Request.requestID_wire, hsent], ?_⟩
    have hmember := h.group.alive n halive
    obtain ⟨-, -, -, -, -, -, hcaller, -⟩ := hnew
    cases v with
    | tell => exact .inl ⟨rfl, rfl⟩
    | call =>
      refine .inr ⟨by simp [Request.caller?], n, ?_, ?_, heffect.known (h.group.known n hmember)⟩
      · simp only [Request.caller?, reduceCtorEq, Option.some.injEq, false_or] at hcaller
        simp [Request.wire, Request.caller?, hcaller]
      · rintro rfl
        exact h.group.noname hmember
  · refine hkeep _ q v hv (fun a ha hne => ?_) fun hnone => ?_
    · exact Request.caller?_wire (hcaller.trans ha) hne
    · exact Request.caller?_wire_eq_none (hcaller.trans hnone)

theorem callersOk_reachable (hs : Reachable step ok (.init placementCache) s) : CallersOk s := by
  refine Reachable.invariant ?_ ?_ hs
  · intro p u hu
    simp [State.init, Log.empty, Log.messages] at hu
  · intro s l s' hs hc _ hstep
    have h := inv_reachable hs
    exact hc.step h (step_effect h hstep)

/-- The callers of the messages of `c` do not change. -/
theorem CallersOk.caller (hc : CallersOk s) (h : Inv s)
    (heffect : Effect s l s') (hsent : s.history.sent c ≠ none) {p : Nat} {u : Request}
    (hu : s'.log.Holds c p u) : ∃ q v, s.log.Holds c q v ∧ u.caller? = v.caller? := by
  obtain ⟨hu, rfl⟩ := hu
  rcases heffect.message h hu with hold | ⟨n, v, -, hnew, rfl, -⟩ |
    ⟨q, v, hv, v', self, hcaller, rfl⟩
  · exact ⟨p, u, ⟨hold, rfl⟩, rfl⟩
  · rw [Request.requestID_wire] at hsent
    exact absurd hnew.1 hsent
  · refine ⟨q, v, hv, ?_⟩
    obtain ⟨-, -, ⟨-, hnone⟩ | ⟨-, a, ha, hne, -⟩⟩ := hc q v hv.1
    · rw [hnone, Request.caller?_wire_eq_none (hcaller.trans hnone)]
    · rw [ha, Request.caller?_wire (hcaller.trans ha) hne]

end Kar.Rpc
