import Kar.Rpc.Completed
import Kar.Rpc.Sessions

/-!
# Deadlines

The deadline of a request is the time by which it has to be started.  `accept` compares it with
the clock and cannot tell the first message of a request from a later one: a continuation, or a
message that a recovery sends again.  A request that has been started is then dropped for a
deadline that it had met.

`Clocked` is the system with a clock.  A task whose message was too late when it was read is
*overdue*: its handler is not called, and all it does is to answer `deadline expired`.  The field
`late` lists the messages that were dropped in this way after a handler of their request had been
called.

A tail call that keeps the lock clears the deadline, "we're holding the lock so the request is
considered to be already executing".  The other tail calls keep it, and so does `recover`.  With no
such tail call and no such retry of a request with a deadline, nothing is late (`Timely`).
-/

namespace Kar.Rpc

open Kar.Lib List

/-- `accept` of a request whose deadline has expired.  The goroutine that answers it waits for
nothing. -/
def State.refuse (s : State) (n : String) (v : Request) : State :=
  { s with
    tasks := s.tasks ++ [{ tid := s.nextTid, node := n, msg := v, phase := .ready }]
    nextTid := s.nextTid + 1 }

structure Clocked where
  sys : State
  now : Int
  /-- The ids whose handler has been called. -/
  started : String → Bool
  /-- The tasks whose deadline had expired, and when that was. -/
  overdue : Nat → Option Int
  late : List Request

inductive ClockedEvent
  | tick (elapsed : Nat)
  | sys (l : Label)

namespace Clocked

def init (placementCache : Bool) (now : Int) : Clocked where
  sys := .init placementCache
  now := now
  started := fun _ => false
  overdue := fun _ => none
  late := []

variable (c : Clocked)

/-- The next message of node `n` is read. -/
def consume (n : String) : Option Clocked :=
  match (c.sys.pending n).head? with
  | some (.request v) =>
    if v.expired c.now then
      if c.sys.group.running = true ∧ c.sys.group.alive n = true then
        some { c with
          sys := (c.sys.advance n).refuse n v
          overdue := Function.update c.overdue c.sys.nextTid (some c.now)
          late := if c.started v.requestID then c.late ++ [v] else c.late }
      else none
    else (Kar.Rpc.step c.sys (.consume n)).map fun s => { c with sys := s }
  | _ => (Kar.Rpc.step c.sys (.consume n)).map fun s => { c with sys := s }

/-- A handler is called. -/
def start (tid : Nat) : Option Clocked :=
  match c.sys.find tid, c.overdue tid with
  | some t, none => (Kar.Rpc.step c.sys (.start tid)).map fun s => { c with
      sys := s
      started := Function.update c.started t.msg.requestID true }
  | _, _ => none

/-- A task is turned down.  An overdue one answers that the deadline has expired. -/
def reject (tid : Nat) (errMsg : String) (chance : Chance) : Option Clocked :=
  match c.sys.find tid with
  | none => none
  | some t =>
    if ∀ w ∈ c.overdue tid, (State.final t.msg [] errMsg).toList = deadlineExpired t.msg w then
      (Kar.Rpc.step c.sys (.reject tid errMsg chance)).map fun s => { c with sys := s }
    else none

def step (c : Clocked) : ClockedEvent → Option Clocked
  | .tick elapsed => some { c with now := c.now + elapsed }
  | .sys (.consume n) => c.consume n
  | .sys (.start tid) => c.start tid
  | .sys (.reject tid errMsg chance) => c.reject tid errMsg chance
  | .sys l => (Kar.Rpc.step c.sys l).map fun s => { c with sys := s }

/-- A request with a deadline makes only tail calls that keep the lock, and no recovery sends it
again once it has been started.  No request makes more tail calls than the recovery can count. -/
def Timely (c : Clocked) : ClockedEvent → Prop
  | .tick _ => True
  | .sys l => WithinSentinel c.sys l ∧ match l with
    | .tail tid _ _ _ deferred _ =>
      deferred = false → ∀ t ∈ c.sys.tasks, t.tid = tid → t.msg.deadline = none
    | .recover _ _ _ => ∀ r ∈ resends (recoverActions (c.sys.group.live c.sys.group.table)
        (.ofPlan c.sys.group.size c.sys.log) c.sys.log),
      c.started r.1.requestID = true → r.1.deadline = none
    | _ => True

instance (c : Clocked) (e : ClockedEvent) : Decidable (c.Timely e) :=
  match e with
  | .tick _ => isTrue trivial
  | .sys l => @instDecidableAnd _ _ _ (match l with
    | .tail _ _ _ _ _ _ => inferInstanceAs (Decidable (_ → ∀ t ∈ c.sys.tasks, _))
    | .recover _ _ _ => inferInstanceAs (Decidable (∀ r ∈ resends _, _))
    | .send _ _ _ | .consume _ | .start _ | .finish _ _ _ _ | .reject _ _ _ | .die _ | .expel _
    | .join _ _ | .rebalance | .newLeader | .grow | .setup _ => isTrue trivial)

end Clocked

/-! ## What a step leaves to read -/

section Pending

variable {s s' : State}

/-- What a live node has yet to read after a step: a message that was there, a new request, a
continuation, or a request that is sent again. -/
inductive Unread (s : State) (n : String) (v : Request) : Label → Prop
  | old {l : Label} (halive : s.group.alive n = true) (hv : Message.request v ∈ s.pending n) :
      Unread s n v l
  | sent {l : Label} (hnew : s.history.sent v.requestID = none) : Unread s n v l
  | tail {t : Task} {target : Target} {method : String} {value : List UInt8} {deferred : Bool}
      {c : Chance} (ht : t ∈ s.tasks)
      (hdeadline : v.deadline = if deferred then none else Deadline.wire t.msg.deadline) :
      Unread s n v (.tail t.tid target method value deferred c)
  | resent {leader : String} {assign : String → Nat} {cs : Nat → Chance} {r : Request × Bool}
      (hr : r ∈ resends (recoverActions (s.group.live s.group.table)
        (.ofPlan s.group.size s.log) s.log))
      (hid : v.requestID = r.1.requestID) (hdeadline : v.deadline = Deadline.wire r.1.deadline) :
      Unread s n v (.recover leader assign cs)

theorem Request.deadline_wire (v : Request) (n : String) :
    (v.wire n).deadline = Deadline.wire v.deadline := by
  cases v <;> rfl

theorem Unread.of_quiet (hq : Quiet s s') (halive : s'.group.alive n = true)
    (hv : .request v ∈ s'.pending n) : Unread s n v l :=
  .old (hq.mem_pending halive hv).1 (hq.mem_pending halive hv).2

/-- A message is written. -/
theorem mem_pending_write (h : Inv s) (hgroup : s'.group = s.group)
    (hhead : s'.head = s.head) (hlog : s'.log = s.log.append p m)
    (hv : .request v ∈ s'.pending n) : .request v ∈ s.pending n ∨ m = .request v := by
  rw [pending_write h hgroup hhead hlog, mem_append] at hv
  rcases hv with hold | hnew
  · exact .inl hold
  · split at hnew
    · exact .inr (mem_singleton.mp hnew).symm
    · simp at hnew

theorem unread_of_effect (h : Inv s) (heffect : Effect s l s') (halive : s'.group.alive n = true)
    (hv : .request v ∈ s'.pending n) : Unread s n v l := by
  cases heffect with
  | request _ _ _ _ _ _ _ _ hnew =>
    rcases mem_pending_write h (by rfl) (by rfl) (by rfl) hv with hold | heq
    · exact .old halive hold
    · refine .sent ?_
      rw [← Message.request.inj heq, Request.requestID_wire]
      exact hnew.1
  | tail _ _ _ _ deferred _ _ _ _ _ ht _ _ _ hu =>
    rcases mem_pending_write h (by rfl) (by rfl) (by rfl) hv with hold | heq
    · exact .old halive hold
    · refine .tail ht ?_
      rw [← Message.request.inj heq, Request.deadline_wire, hu, State.deadline_continuation]
      cases deferred <;> rfl
  | record _ t _ _ _ _ _ _ _ _ _ hm =>
    rcases mem_pending_write h (by rfl) (by rfl) (by rfl) hv with hold | heq
    · exact .old halive hold
    · exact absurd heq (hm.not_request h t.node v)
  | recover _ _ _ _ _ _ hplan hrecover =>
    rw [pending_recovered h hplan hrecover (hplan.pos n (h.group.alive n halive)).1,
      mem_append] at hv
    rcases hv with hold | hnew
    · exact .old halive hold
    obtain ⟨⟨p, m⟩, hmem, rfl⟩ := mem_map.mp hnew
    have hwritten := (recover_written hrecover).2.1 p _ (mem_filter.mp hmem).1
    generalize hm : Message.request v = m at hwritten
    cases hwritten with
    | answered => simp [Message.wire] at hm
    | kept => simp [Message.wire] at hm
    | resent _ _ _ hr =>
      obtain rfl := Message.request.inj hm
      exact .resent hr (Request.requestID_wire ..) (Request.deadline_wire ..)
  | consume n' m _ _ _ hpending =>
    rw [pending_consume hpending] at hv
    rw [(acceptMessage_frame (s.advance n') n' m).2.1] at halive
    refine .old halive ?_
    split at hv
    · rename_i hn
      rw [hn, hpending]
      exact mem_cons_of_mem m hv
    · exact hv
  | start => exact .old halive hv
  | route _ _ store caches => exact .of_quiet (.route store caches) halive hv
  | drop _ t store caches done =>
    exact .of_quiet (.drop store caches done t.tid) halive hv
  | kill _ n' store caches => exact .of_quiet (.kill store caches n') halive hv
  | expel _ _ hdead => exact .of_quiet (.expel h hdead) halive hv
  | join _ services _ hnew => exact .of_quiet (.join h services hnew) halive hv
  | rebalance => exact .of_quiet (.rebalance h) halive hv
  | newLeader => exact .of_quiet (.newLeader h) halive hv
  | grow => exact .of_quiet (.grow h) halive hv
  | setup _ _ hplan => exact .of_quiet (.setup h hplan) halive hv

/-- What was sent stays so. -/
theorem Effect.sent_mono (heffect : Effect s l s') (hk : s.history.sent k ≠ none) :
    s'.history.sent k ≠ none := by
  cases heffect with
  | request _ u =>
    show Function.update s.history.sent u.requestID (some u) k ≠ none
    rw [Function.update_apply]
    split
    · simp
    · exact hk
  | consume n' m =>
    rw [(acceptMessage_frame (s.advance n') n' m).2.2.2.2]
    exact hk
  | _ => exact hk

/-- The message of an open request that has a task is not read again. -/
theorem Inv.not_pending_of_task (h : Inv s) (ht : t ∈ s.tasks)
    (hopen : s.history.recorded t.msg.requestID = false) (halive : s.group.alive n = true)
    (hv : Message.request v ∈ s.pending n) : v.requestID ≠ t.msg.requestID := by
  intro hid
  have hopened := h.opened _ hopen
  obtain rfl := hopened.single n t.node v t.msg (State.mem_active.mpr ⟨halive, .inl hv⟩) hid
    (h.task_active ht) rfl
  have hone := hopened.once t.node
  rw [State.countP_active halive] at hone
  have hpending : 0 < ((s.pending t.node).filterMap Message.request?).countP
      (fun v => decide (v.requestID = t.msg.requestID)) :=
    countP_pos_iff.mpr ⟨v, mem_filterMap.mpr ⟨_, hv, rfl⟩, by simpa using hid⟩
  have htask : 0 < s.tasks.countP (fun t' => decide (t'.msg.requestID = t.msg.requestID) && decide
      (t'.node = t.node)) := countP_pos_iff.mpr ⟨t, ht, by simp⟩
  omega

end Pending

/-! ## Nothing is late -/

namespace Clocked

/-- What a node has yet to read of a request that has been started has no deadline. -/
structure Punctual (c : Clocked) : Prop where
  inv : Inv c.sys
  settled : Settled c.sys
  sent : ∀ k, c.started k = true → c.sys.history.sent k ≠ none
  unhurried : ∀ n v, c.sys.group.alive n = true → Message.request v ∈ c.sys.pending n →
    c.started v.requestID = true → v.deadline = none
  late : c.late = []

namespace Punctual

variable {c c' : Clocked}

theorem init (placementCache : Bool) (now : Int) : Punctual (.init placementCache now) where
  inv := inv_init placementCache
  settled := .init placementCache
  sent := by simp [Clocked.init]
  unhurried := by simp [Clocked.init]
  late := rfl

theorem effect (h : Punctual c) (heffect : Effect c.sys l s)
    (hl : c.Timely (.sys l)) : Punctual { c with sys := s } where
  inv := h.inv.step heffect
  settled := h.settled.step h.inv hl.1 heffect
  sent := fun k hk => heffect.sent_mono (h.sent k hk)
  unhurried := by
    intro n v halive hv hstarted
    cases unread_of_effect h.inv heffect halive hv with
    | old halive hv => exact h.unhurried n v halive hv hstarted
    | sent hnew => exact absurd hnew (h.sent _ hstarted)
    | @tail t _ _ _ deferred _ ht hdeadline =>
      cases deferred with
      | true => exact hdeadline
      | false => rw [hdeadline, if_neg (by simp), hl.2 rfl t ht rfl, Deadline.wire, Option.map_none]
    | resent hr hid hdeadline =>
      have hnone := hl.2 _ hr (hid ▸ hstarted)
      rw [hdeadline, hnone, Deadline.wire, Option.map_none]
  late := h.late

/-- An event that the clock does not matter for. -/
theorem sys (h : Punctual c) (hl : c.Timely (.sys l))
    (hs : (Kar.Rpc.step c.sys l).map (fun s => { c with sys := s }) = some c') : Punctual c' := by
  obtain ⟨s, hstep, rfl⟩ := Option.map_eq_some_iff.mp hs
  exact h.effect (step_effect h.inv hstep) hl

/-- A message is read whose deadline has expired. -/
theorem refuse (h : Punctual c)
    (hrunning : c.sys.group.running = true) (halive : c.sys.group.alive n = true)
    (hpending : c.sys.pending n = .request v :: ms) (hexpired : v.expired c.now = true) :
    Punctual { c with
      sys := (c.sys.advance n).refuse n v
      overdue := Function.update c.overdue c.sys.nextTid (some c.now)
      late := if c.started v.requestID then c.late ++ [v] else c.late } := by
  have hmem : .request v ∈ c.sys.pending n := hpending ▸ mem_cons_self
  have hsub : ∀ {n' u}, .request u ∈ ((c.sys.advance n).refuse n v).pending n' →
      .request u ∈ c.sys.pending n' := by
    intro n' u hu
    have hu : .request u ∈ (c.sys.advance n).pending n' := hu
    by_cases hn : n' = n
    · subst hn
      rw [State.pending_advance hpending] at hu
      rw [hpending]
      exact mem_cons_of_mem _ hu
    · rwa [State.pending_advance_of_ne hn] at hu
  constructor
  case inv => exact h.inv.acceptTask .ready c.sys.requests hrunning halive hpending
  case settled =>
    refine h.settled.of_active rfl rfl fun n' u hu => ?_
    obtain ⟨halive', hu | ⟨t, ht, rfl, rfl⟩⟩ := State.mem_active.mp hu
    · exact State.mem_active.mpr ⟨halive', .inl (hsub hu)⟩
    · rcases mem_append.mp ht with hold | hnew
      · exact h.inv.task_active hold
      · obtain rfl := mem_singleton.mp hnew
        exact State.mem_active.mpr ⟨halive, .inl hmem⟩
  case sent => exact h.sent
  case unhurried => exact fun n' u halive' hu => h.unhurried n' u halive' (hsub hu)
  case late =>
    have hnot : c.started v.requestID ≠ true := by
      intro hstarted
      simp [Request.expired, h.unhurried n v halive hmem hstarted] at hexpired
    rw [if_neg hnot]
    exact h.late

theorem consume (h : Punctual c) (hl : c.Timely (.sys (.consume n)))
    (hs : c.consume n = some c') : Punctual c' := by
  unfold Clocked.consume at hs
  split at hs
  · rename_i v hhead
    split at hs
    · rename_i hexpired
      obtain ⟨hguard, rfl⟩ := of_guard hs
      obtain ⟨ms, hpending⟩ := head?_eq_some_iff.mp hhead
      exact h.refuse hguard.1 hguard.2 hpending hexpired
    · exact h.sys hl hs
  · exact h.sys hl hs

theorem start (h : Punctual c) (hl : c.Timely (.sys (.start tid)))
    (hs : c.start tid = some c') : Punctual c' := by
  unfold Clocked.start at hs
  split at hs
  · rename_i t hfind hoverdue
    obtain ⟨s, hstep, rfl⟩ := Option.map_eq_some_iff.mp hs
    obtain ⟨ht, -⟩ := State.find_mem hfind
    have heffect := step_effect h.inv hstep
    have hnext := h.effect heffect hl
    have hactive := h.inv.task_active ht
    refine { hnext with sent := ?_, unhurried := ?_ }
    · intro k hk
      simp only [Function.update_apply] at hk
      split at hk
      · rename_i hid
        rw [hid]
        exact heffect.sent_mono (h.inv.history.sent _ _ _ (h.inv.holds_of_active hactive).2)
      · exact hnext.sent k hk
    intro n v halive hv hstarted
    simp only [Function.update_apply] at hstarted
    split at hstarted
    · rename_i hid
      -- The task is all that is left of its request, so nothing of it is yet to be read.
      cases unread_of_effect h.inv heffect halive hv with
      | old halive hv =>
        exact absurd hid (h.inv.not_pending_of_task ht (h.settled.open_of_active hactive) halive hv)
      | sent hnew =>
        rw [hid] at hnew
        exact absurd hnew (h.inv.history.sent _ _ _ (h.inv.holds_of_active hactive).2)
    · exact hnext.unhurried n v halive hv hstarted
  · simp at hs

theorem step (h : Punctual c) (he : c.Timely e) (hs : Clocked.step c e = some c') : Punctual c' := by
  cases e with
  | tick =>
    cases hs
    exact { h with }
  | sys l =>
    cases l with
    | consume => exact h.consume he hs
    | start => exact h.start he hs
    | reject =>
      simp only [Clocked.step, reject] at hs
      split at hs
      · simp at hs
      obtain ⟨-, hs⟩ := Option.ite_none_right_eq_some.mp hs
      exact h.sys he hs
    | _ => exact h.sys he hs

end Punctual

/-- A call of the actor `x` that has to be started within five seconds. -/
def dueCall : Request :=
  .call {
    requestID := "k"
    value := []
    deadline := some 5000000000
    target := .session "a" "x" "flow" ""
    method := "A"
    caller := ""
    sequence := 0
    childID := ""
    parentID := ""
    isEdited := false }

/-- The call runs on `n2`, and six seconds pass. -/
def startedRun : List ClockedEvent :=
  ([.grow, .grow, .grow, .grow, .join "n1" [], .join "n2" ["a"], .setup samplePlan,
    .send "n1" dueCall (calm 0), .consume "n2", .start 0].map .sys) ++ [.tick 6000000000]

/-- The completion records that have been sent to the caller. -/
def errors (c : Clocked) : List String :=
  (c.sys.log.messages 1).filterMap fun
    | .response r => some r.errMsg
    | _ => none

end Clocked

end Kar.Rpc
