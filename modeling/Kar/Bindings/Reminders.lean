import Kar.Lib.Heap

/-!
# Reminders

`reminderQueue` of `core/internal/runtime/reminder_queue.go`, and `processReminders` of
`core/internal/runtime/reminders.go`.  The queue is a heap of entries, ordered by the time at which
they are due.  A cancelled entry stays in the queue until it is due.

A round pops the due reminders and tells their actors.  A periodic reminder is put back with a later
time, so that it is not due again in the same round, and a reminder that cannot be told is put back as
it is and ends the round.  `ExactlyDue` is what a round does to the reminders that are not cancelled.

Times and periods are in nanoseconds.  The position that an entry keeps of itself is never read and
left out, and so are the gauges.
-/

namespace Kar.Bindings

open Kar.Lib List

structure Actor where
  type : String
  id : String
  deriving DecidableEq, Repr

structure Reminder where
  actor : Actor
  id : String
  /-- The key of the reminder in the store. -/
  key : String
  path : String
  targetTime : Int
  /-- Not positive for one-shot reminders. -/
  period : Int
  encodedData : String
  deriving DecidableEq, Repr

structure ReminderEntry where
  r : Reminder
  cancelled : Bool
  deriving DecidableEq, Repr

/-- What `Less` compares. -/
def ReminderEntry.targetTime (e : ReminderEntry) : Int := e.r.targetTime

abbrev ReminderQueue : Type := List ReminderEntry

namespace ReminderQueue

/-- Whether `cancel` and `find` select an entry; no id stands for all ids. -/
def selects (actor : Actor) (id : String) (e : ReminderEntry) : Bool :=
  !e.cancelled && decide (e.r.actor = actor) && (decide (id = "") || decide (e.r.id = id))

def add (rq : ReminderQueue) (r : Reminder) : ReminderQueue :=
  Heap.push ReminderEntry.targetTime rq ⟨r, false⟩

def cancel (rq : ReminderQueue) (actor : Actor) (id : String) : ReminderQueue × List Reminder :=
  (rq.map fun e => if selects actor id e then { e with cancelled := true } else e,
    (rq.filter (selects actor id)).map ReminderEntry.r)

def find (rq : ReminderQueue) (actor : Actor) (id : String) : List Reminder :=
  (rq.filter (selects actor id)).map ReminderEntry.r

/-- At most `n` rounds of the loop of `nextReminderBefore`. -/
def nextLoop (t : Int) : Nat → ReminderQueue → Option Reminder × ReminderQueue
  | 0, rq => (none, rq)
  | n + 1, rq =>
    match Heap.pop ReminderEntry.targetTime rq with
    | none => (none, rq)
    | some (re, rest) =>
      if re.targetTime < t then
        if re.cancelled then nextLoop t n rest else (some re.r, rest)
      else (none, rq)

/-- `nextReminderBefore`: every round removes an entry from the queue. -/
def nextReminderBefore (rq : ReminderQueue) (t : Int) : Option Reminder × ReminderQueue :=
  nextLoop t rq.length rq

/-- The reminders that are not cancelled. -/
def active (rq : ReminderQueue) : List Reminder :=
  (rq.filter fun e => !e.cancelled).map ReminderEntry.r

end ReminderQueue

/-! ## Rounds -/

/-- The changes that a round makes in the store. -/
inductive StoreCommand where
  | persistTargetTime (key : String) (targetTime : Int)
  | del (key : String)
  deriving DecidableEq, Repr

/-- A round so far: the queue, the reminders that were told, and the commands to the store. -/
structure Round where
  queue : ReminderQueue
  told : List Reminder
  commands : List StoreCommand
  deriving DecidableEq, Repr

/-- A periodic reminder after it was told. -/
def Reminder.reschedule (fireTime : Int) (r : Reminder) : Reminder :=
  { r with targetTime := fireTime + r.period }

/-- What is sent to the store after a reminder was told. -/
def Reminder.command (fireTime : Int) (r : Reminder) : StoreCommand :=
  if r.period > 0 then .persistTargetTime r.key (fireTime + r.period) else .del r.key

/-- At most `n` turns of the loop of `processReminders`; `tell` says which calls of `TellActor`
succeed. -/
def processLoop (fireTime : Int) (tell : Nat → Bool) : Nat → Round → Option Round
  | 0, _ => none
  | n + 1, s =>
    match s.queue.nextReminderBefore fireTime with
    | (none, rq) => some { s with queue := rq }
    | (some r, rq) =>
      if tell s.told.length then
        processLoop fireTime tell n {
          queue := if r.period > 0 then rq.add (r.reschedule fireTime) else rq
          told := s.told ++ [r]
          commands := s.commands ++ [r.command fireTime] }
      else some { s with queue := rq.add r }

def processReminders (fireTime : Int) (tell : Nat → Bool) (n : Nat) (rq : ReminderQueue) :
    Option Round :=
  processLoop fireTime tell n ⟨rq, [], []⟩

/-- The reminder is due. -/
def Reminder.Due (fireTime : Int) (r : Reminder) : Prop := r.targetTime < fireTime

instance (fireTime : Int) (r : Reminder) : Decidable (r.Due fireTime) :=
  inferInstanceAs (Decidable (_ < _))

/-- What a round does: it tells the due reminders in the order of their times, up to a failure.  The
due reminders in `kept` are not told and stay as they are. -/
structure ExactlyDue (fireTime : Int) (tell : Nat → Bool) (rq : ReminderQueue) (s : Round)
    (kept : List Reminder) : Prop where
  due : (s.told ++ kept).Perm (rq.active.filter fun r => r.Due fireTime)
  sorted : s.told.Pairwise fun r r' => r.targetTime ≤ r'.targetTime
  earliest : ∀ r ∈ s.told, ∀ r' ∈ kept, r.targetTime ≤ r'.targetTime
  complete : (∀ n, tell n = true) → kept = []
  active : s.queue.active.Perm ((rq.active.filter fun r => ¬ r.Due fireTime) ++ kept ++
    (s.told.filter fun r => r.period > 0).map (Reminder.reschedule fireTime))
  commands : s.commands = s.told.map (Reminder.command fireTime)
  heap : Heap.IsHeap ReminderEntry.targetTime s.queue

namespace ReminderQueue

variable {rq rq' : ReminderQueue}

theorem active_perm (h : rq.Perm rq') : rq.active.Perm rq'.active := (h.filter _).map _

theorem active_cons_cancelled (rq : ReminderQueue) (he : e.cancelled = true) :
    active (e :: rq) = active rq := by
  rw [active, filter_cons_of_neg (by simp [he])]
  rfl

theorem active_cons (rq : ReminderQueue) (he : ¬ e.cancelled = true) :
    active (e :: rq) = e.r :: active rq := by
  rw [active, filter_cons_of_pos (by simp [he])]
  rfl

theorem active_add (rq : ReminderQueue) (r : Reminder) : (rq.add r).active.Perm (r :: rq.active) :=
  active_perm (Heap.push_perm rq _)

/-- The entries that a round may still pop. -/
def dueEntries (rq : ReminderQueue) (t : Int) : Nat := rq.countP fun e => e.targetTime < t

theorem dueEntries_perm (h : rq.Perm rq') : rq.dueEntries t = rq'.dueEntries t := h.countP_eq _

theorem dueEntries_add (rq : ReminderQueue) (hr : t ≤ r.targetTime) :
    (rq.add r).dueEntries t = rq.dueEntries t := by
  have hperm : (rq.add r).Perm (⟨r, false⟩ :: rq) := Heap.push_perm rq _
  rw [dueEntries_perm hperm, dueEntries, countP_cons_of_neg]
  · rfl
  · simp only [decide_eq_true_eq, not_lt]
    exact hr

/-- The loop ends without a reminder only if no reminder is due. -/
theorem nextLoop_none (hheap : Heap.IsHeap ReminderEntry.targetTime rq)
    (hn : rq.length ≤ n) (h : nextLoop t n rq = (none, rq')) :
    Heap.IsHeap ReminderEntry.targetTime rq' ∧ rq'.active.Perm rq.active ∧
      ∀ r ∈ rq.active, ¬ r.Due t := by
  induction n generalizing rq with
  | zero =>
    have hnil : rq = [] := eq_nil_of_length_eq_zero (by omega)
    subst hnil
    rw [nextLoop, Prod.mk.injEq] at h
    rw [← h.2]
    exact ⟨hheap, List.Perm.refl _, fun r hr => absurd hr not_mem_nil⟩
  | succ n ih =>
    cases rq with
    | nil =>
      rw [nextLoop, Heap.pop, Prod.mk.injEq] at h
      rw [← h.2]
      exact ⟨hheap, List.Perm.refl _, fun r hr => absurd hr not_mem_nil⟩
    | cons e rq =>
      rw [nextLoop] at h
      obtain ⟨rest, hpop⟩ : ∃ rest, Heap.pop ReminderEntry.targetTime (e :: rq) = some (e, rest) :=
        ⟨_, rfl⟩
      obtain ⟨-, hperm⟩ := Heap.pop_perm hpop
      rw [hpop] at h
      simp only at h
      split at h
      · split at h
        · rename_i hdue hcancelled
          have hlen : rest.length ≤ n := by
            rw [hperm.length_eq]
            simp only [length_cons] at hn
            omega
          obtain ⟨hheap', hactive, hnone⟩ := ih (Heap.pop_isHeap hheap hpop) hlen h
          rw [active_cons_cancelled rq hcancelled]
          refine ⟨hheap', hactive.trans (active_perm hperm), fun r hr => ?_⟩
          exact hnone r ((active_perm hperm).mem_iff.mpr hr)
        · simp at h
      · rename_i hdue
        rw [Prod.mk.injEq] at h
        rw [← h.2]
        refine ⟨hheap, List.Perm.refl _, fun r hr hr' => hdue ?_⟩
        obtain ⟨e', he', rfl⟩ := mem_map.mp hr
        exact lt_of_le_of_lt (hheap.root_le (mem_filter.mp he').1) hr'

/-- The loop ends with the earliest reminder, which is due. -/
theorem nextLoop_some (hheap : Heap.IsHeap ReminderEntry.targetTime rq)
    (h : nextLoop t n rq = (some r, rq')) :
    Heap.IsHeap ReminderEntry.targetTime rq' ∧ (r :: rq'.active).Perm rq.active ∧ r.Due t ∧
      (∀ r' ∈ rq'.active, r.targetTime ≤ r'.targetTime) ∧ rq'.dueEntries t < rq.dueEntries t := by
  induction n generalizing rq with
  | zero => simp [nextLoop] at h
  | succ n ih =>
    cases rq with
    | nil => simp [nextLoop, Heap.pop] at h
    | cons e rq =>
      rw [nextLoop] at h
      obtain ⟨rest, hpop⟩ : ∃ rest, Heap.pop ReminderEntry.targetTime (e :: rq) = some (e, rest) :=
        ⟨_, rfl⟩
      obtain ⟨-, hperm⟩ := Heap.pop_perm hpop
      rw [hpop] at h
      simp only at h
      split at h
      · rename_i hdue
        have hcount : dueEntries rest t < dueEntries (e :: rq) t := by
          rw [dueEntries_perm hperm, dueEntries, dueEntries, countP_cons_of_pos (by simpa using hdue)]
          omega
        split at h
        · rename_i hcancelled
          obtain ⟨hheap', hactive, hr, hle, hlt⟩ := ih (Heap.pop_isHeap hheap hpop) h
          rw [active_cons_cancelled rq hcancelled]
          exact ⟨hheap', hactive.trans (active_perm hperm), hr, hle, hlt.trans hcount⟩
        · rename_i hcancelled
          cases h
          refine ⟨Heap.pop_isHeap hheap hpop, ?_, hdue, fun r' hr' => ?_, hcount⟩
          · rw [active_cons rq hcancelled]
            exact (active_perm hperm).cons _
          · obtain ⟨e', he', rfl⟩ := mem_map.mp ((active_perm hperm).mem_iff.mp hr')
            exact hheap.root_le (mem_cons_of_mem e (mem_filter.mp he').1)
      · simp at h

end ReminderQueue

/-! ## What a round does -/

section Round

variable {tell : Nat → Bool} {s : Round}

/-- No reminder is due: the round ends. -/
theorem ExactlyDue.nothing {rq' : ReminderQueue} (hheap : Heap.IsHeap ReminderEntry.targetTime rq')
    (hactive : rq'.active.Perm rq.active) (hnone : ∀ r ∈ rq.active, ¬ r.Due fireTime) :
    ExactlyDue fireTime tell rq ⟨rq', [], []⟩ [] where
  due := by
    rw [filter_eq_nil_iff.mpr fun r hr => by simpa using hnone r hr]
    exact List.Perm.refl _
  sorted := List.Pairwise.nil
  earliest := by simp
  complete := fun _ => rfl
  active := by
    rw [filter_eq_self.mpr fun r hr => by simpa using hnone r hr]
    simpa using hactive
  commands := rfl
  heap := hheap

/-- The earliest reminder cannot be told: the round ends, and the due reminders are kept. -/
theorem ExactlyDue.failed {rq' : ReminderQueue} (hheap : Heap.IsHeap ReminderEntry.targetTime rq')
    (hactive : (r :: rq'.active).Perm rq.active) (htell : tell 0 = false) :
    ExactlyDue fireTime tell rq ⟨rq'.add r, [], []⟩ (rq.active.filter fun r => r.Due fireTime) where
  due := List.Perm.refl _
  sorted := List.Pairwise.nil
  earliest := by simp
  complete := fun h => absurd (h 0) (by simp [htell])
  active := by
    have hsplit : ((rq.active.filter fun r => ¬ r.Due fireTime) ++
        rq.active.filter fun r => r.Due fireTime).Perm rq.active := by
      refine perm_append_comm.trans ?_
      simpa using filter_append_perm (fun r : Reminder => decide (r.Due fireTime)) rq.active
    simpa using (rq'.active_add r).trans (hactive.trans hsplit.symm)
  commands := rfl
  heap := Heap.push_isHeap hheap _

/-- The queue after a reminder was told. -/
def Reminder.putBack (fireTime : Int) (r : Reminder) (rq : ReminderQueue) : ReminderQueue :=
  if r.period > 0 then rq.add (r.reschedule fireTime) else rq

/-- The earliest reminder is told, and the round goes on. -/
theorem ExactlyDue.cons (tell : Nat → Bool) (hactive : (r :: rq'.active).Perm rq.active)
    (hr : r.Due fireTime) (hle : ∀ r' ∈ rq'.active, r.targetTime ≤ r'.targetTime)
    (h : ExactlyDue fireTime (fun n => tell (n + 1)) (r.putBack fireTime rq') s' kept) :
    ExactlyDue fireTime tell rq
      ⟨s'.queue, r :: s'.told, (r :: s'.told).map (Reminder.command fireTime)⟩ kept := by
  have hback : ((r.putBack fireTime rq').active).Perm
      (([r].filter fun r => r.period > 0).map (Reminder.reschedule fireTime) ++ rq'.active) := by
    unfold Reminder.putBack
    split
    · rename_i hperiod
      simpa [hperiod] using rq'.active_add _
    · rename_i hperiod
      simp [hperiod]
  -- A reminder that is put back is not due.
  have hlater : ∀ r' ∈ ([r].filter fun r => r.period > 0).map (Reminder.reschedule fireTime),
      ¬ r'.Due fireTime := by
    intro r' hr'
    obtain ⟨r, hmem, rfl⟩ := mem_map.mp hr'
    have hperiod : r.period > 0 := by simpa using (mem_filter.mp hmem).2
    show ¬ fireTime + r.period < fireTime
    omega
  have hdue : ((r.putBack fireTime rq').active.filter fun r => r.Due fireTime).Perm
      (rq'.active.filter fun r => r.Due fireTime) := by
    refine (hback.filter _).trans ?_
    rw [filter_append, filter_eq_nil_iff.mpr fun r' hr' => by simpa using hlater r' hr']
    exact List.Perm.refl _
  have hnot : ((r.putBack fireTime rq').active.filter fun r => ¬ r.Due fireTime).Perm
      (([r].filter fun r => r.period > 0).map (Reminder.reschedule fireTime) ++
        rq'.active.filter fun r => ¬ r.Due fireTime) := by
    refine (hback.filter _).trans ?_
    rw [filter_append, filter_eq_self.mpr fun r' hr' => by simpa using hlater r' hr']
  have hearlier : ∀ r' ∈ s'.told ++ kept, r.targetTime ≤ r'.targetTime := by
    intro r' hr'
    exact hle r' (mem_filter.mp (hdue.mem_iff.mp (h.due.mem_iff.mp hr'))).1
  refine ⟨?_, ?_, ?_, ?_, ?_, rfl, h.heap⟩
  · refine List.Perm.trans ?_ (hactive.filter _)
    rw [filter_cons_of_pos (by simpa using hr)]
    exact (h.due.trans hdue).cons r
  · exact List.Pairwise.cons (fun r' hr' => hearlier r' (mem_append_left _ hr')) h.sorted
  · intro r' hr' k hk
    rcases mem_cons.mp hr' with rfl | hr'
    · exact hearlier k (mem_append_right _ hk)
    · exact h.earliest r' hr' k hk
  · intro htell
    exact h.complete fun n => htell (n + 1)
  have hrest : (rq.active.filter fun r => ¬ r.Due fireTime).Perm
      (rq'.active.filter fun r => ¬ r.Due fireTime) := by
    refine (hactive.filter _).symm.trans ?_
    rw [filter_cons_of_neg (by simpa using hr)]
  have hput : ((r :: s'.told).filter fun r => r.period > 0) = ([r].filter fun r => r.period > 0) ++
      s'.told.filter fun r => r.period > 0 := filter_append [r] s'.told
  rw [hput, map_append]
  refine h.active.trans (((hnot.append_right _).append_right _).trans ?_)
  refine List.Perm.trans ?_ ((hrest.symm.append_right _).append_right _)
  have hmove : ∀ l₁ l₂ l₃ l₄ : List Reminder,
      (l₁ ++ l₂ ++ l₃ ++ l₄).Perm (l₂ ++ l₃ ++ (l₁ ++ l₄)) := by
    intro l₁ l₂ l₃ l₄
    rw [append_assoc l₁, append_assoc l₁]
    exact perm_append_comm_assoc l₁ (l₂ ++ l₃) l₄
  exact hmove _ _ _ _

/-- Every turn of the loop tells the earliest of the due reminders, or ends the round. -/
theorem processLoop_spec (fireTime : Int) (tell : Nat → Bool) (s : Round) {d : Nat}
    (hheap : Heap.IsHeap ReminderEntry.targetTime s.queue) (hd : s.queue.dueEntries fireTime ≤ d) :
    ∃ q told kept, (∀ n, d < n → processLoop fireTime tell n s = some ⟨q, s.told ++ told, s.commands
        ++ told.map (Reminder.command fireTime)⟩) ∧ ExactlyDue fireTime (fun n => tell
        (s.told.length + n)) s.queue ⟨q, told, told.map (Reminder.command fireTime)⟩ kept := by
  induction d using Nat.strong_induction_on generalizing s with
  | _ d ih =>
    obtain ⟨next, rq', hnext⟩ : ∃ next rq', s.queue.nextReminderBefore fireTime = (next, rq') :=
      ⟨_, _, rfl⟩
    have hturn : ∀ n, d < n → ∃ n', n = n' + 1 ∧ d ≤ n' := fun n hn => ⟨n - 1, by omega, by omega⟩
    cases next with
    | none =>
      obtain ⟨hheap', hactive, hnone⟩ := ReminderQueue.nextLoop_none hheap le_rfl hnext
      refine ⟨rq', [], [], fun n hn => ?_, .nothing hheap' hactive hnone⟩
      obtain ⟨n', rfl, -⟩ := hturn n hn
      simp [processLoop, hnext]
    | some r =>
      obtain ⟨hheap', hactive, hr, hle, hlt⟩ := ReminderQueue.nextLoop_some hheap hnext
      by_cases htell : tell s.told.length = true
      · have hput : (r.putBack fireTime rq').dueEntries fireTime = rq'.dueEntries fireTime := by
          unfold Reminder.putBack
          split
          · refine ReminderQueue.dueEntries_add rq' ?_
            show fireTime ≤ fireTime + r.period
            omega
          · rfl
        have hheap'' : Heap.IsHeap ReminderEntry.targetTime (r.putBack fireTime rq') := by
          unfold Reminder.putBack
          split
          · exact Heap.push_isHeap hheap' _
          · exact hheap'
        obtain ⟨q, told, kept, hrun, hdue⟩ := ih (rq'.dueEntries fireTime) (by omega)
          ⟨r.putBack fireTime rq', s.told ++ [r], s.commands ++ [r.command fireTime]⟩ hheap'' hput.le
        refine ⟨q, r :: told, kept, fun n hn => ?_, ?_⟩
        · obtain ⟨n', rfl, hn'⟩ := hturn n hn
          have hloop := hrun n' (by omega)
          simp only [append_assoc, singleton_append] at hloop
          simp only [processLoop, hnext, if_pos htell, map_cons]
          exact hloop
        · have hshift : (fun n => tell ((s.told ++ [r]).length + n)) =
              fun n => tell (s.told.length + (n + 1)) := by
            funext n
            rw [length_append, length_singleton, Nat.add_assoc, Nat.add_comm 1 n]
          rw [hshift] at hdue
          exact ExactlyDue.cons (fun n => tell (s.told.length + n)) hactive hr hle hdue
      · refine ⟨rq'.add r, [], _, fun n hn => ?_, .failed hheap' hactive (by simpa using htell)⟩
        obtain ⟨n', rfl, -⟩ := hturn n hn
        simp [processLoop, hnext, htell]

/-- **A round fires exactly the due reminders.**  From a queue in heap order, the loop ends, and what it
does depends on no bound for its turns. -/
theorem processReminders_exactly_due (fireTime : Int) (tell : Nat → Bool) (rq : ReminderQueue)
    (hheap : Heap.IsHeap ReminderEntry.targetTime rq) :
    ∃ s kept, (∀ n, rq.length < n → processReminders fireTime tell n rq = some s) ∧
      ExactlyDue fireTime tell rq s kept := by
  have hle : rq.dueEntries fireTime ≤ rq.length := List.countP_le_length
  obtain ⟨q, told, kept, hrun, hdue⟩ :=
    processLoop_spec fireTime tell ⟨rq, [], []⟩ hheap hle
  refine ⟨⟨q, told, told.map (Reminder.command fireTime)⟩, kept, fun n hn => ?_, ?_⟩
  · exact hrun n hn
  · simpa using hdue

/-- A reminder of one actor. -/
private def ring (id : String) (targetTime period : Int) : Reminder :=
  ⟨⟨"Clock", "c"⟩, id, "binding_0_reminders_Clock_c_" ++ id, "/ring", targetTime, period, ""⟩

/-- A later reminder, a periodic one and an earlier one. -/
private def rings : ReminderQueue :=
  ((ReminderQueue.add [] (ring "late" 30 0)).add (ring "tick" 20 5)).add (ring "once" 10 0)

/-- Two of three reminders are due: the periodic one is put back, the other one is deleted. -/
theorem rings_fired :
    (processReminders 25 (fun _ => true) 4 rings).map (fun s => (s.told, s.commands)) =
        some ([ring "once" 10 0, ring "tick" 20 5], [.del "binding_0_reminders_Clock_c_once",
          .persistTargetTime "binding_0_reminders_Clock_c_tick" 30]) ∧
      ∃ s kept, (∀ n, rings.length < n → processReminders 25 (fun _ => true) n rings = some s) ∧
        ExactlyDue 25 (fun _ => true) rings s kept :=
  ⟨by decide +kernel, processReminders_exactly_due 25 (fun _ => true) rings
    (Heap.push_isHeap (Heap.push_isHeap (Heap.push_isHeap Heap.isHeap_nil _) _) _)⟩

end Round

end Kar.Bindings
