import Kar.Rpc.TailCalls

/-!
# How a request is served

A goroutine of `handleSessionRequest` is at work until its request is answered or goes on with a
tail call: by the timeout, at the call of the handler, or when the handler returns.  A step is
taken by one goroutine, which goes on to another place, and with a request that is not answered
to a later one (`Steps`).  `Serving` says what follows for every goroutine: a request that is not
answered was not answered before, it stays unanswered until one of these steps, and a handler
executes until it returns.
-/

namespace Kar.Rpc

open Kar.Lib

/-- How far a goroutine has come with its request. -/
def Place.stage : Place → Nat
  | waiting => 0
  | arrived => 1
  | awaiting => 2
  | resumed => 3
  | acquired => 4
  | running => 5
  | _ => 6

theorem Place.unanswered_iff {p : Place} : p.unanswered = true ↔ p.stage < 6 := by
  cases p <;> simp [Place.unanswered, Place.stage]

/-- The goroutine that takes a step. -/
def SchedulerEvent.thread? : SchedulerEvent → Option Nat
  | .receive t | .timeout t | .awaitChild t | .childDone t | .acquire t | .enter t _ _
  | .finish t _ _ _ _ | .pass t | .claim t _ | .probe t | .beginCallback t | .callbackDone t _
  | .settle t | .remove t | .close t => some t
  | .accept _ _ | .schedule | .collect _ _ => none

namespace Scheduler

/-- The request of `u` is answered, or ends with a tail call. -/
def answers (s' : Scheduler) (u : Nat) : SchedulerEvent → Bool
  | .timeout t => t == u
  | .enter t _ _ => t == u && (s'.threads t).place != .running
  | .finish t _ _ _ _ => t == u
  | _ => false

variable {s s' : Scheduler} {e : SchedulerEvent}

theorem not_unanswered_endPlace (s : Scheduler) (t : Nat) :
    (s.endPlace t).unanswered = false := by
  unfold endPlace
  split <;> rfl

/-- What a step does to the goroutine `u`. -/
structure Serving (s s' : Scheduler) (e : SchedulerEvent) (u : Nat) : Prop where
  unanswered : (s'.threads u).place.unanswered = true →
    (s.threads u).place.unanswered = true ∧ s'.answers u e = false
  kept : (s.threads u).job ≠ .deactivation → (s.threads u).place.unanswered = true →
    s'.answers u e = false → (s'.threads u).place.unanswered = true
  running : (s.threads u).place = .running →
    (∃ r delete activated now, e = .finish u r delete activated now) ∨
      (s'.threads u).place = .running

/-- The goroutine `t` takes the step `e` and goes on to `p`. -/
structure Advance (s s' : Scheduler) (e : SchedulerEvent) (t : Nat) (p : Place) : Prop where
  thread : e.thread? = some t
  place : ∀ u, (s'.threads u).place = if u = t then p else (s.threads u).place
  unanswered : p.unanswered = true → (s.threads t).place.unanswered = true
  answers : s'.answers t e = true → p.unanswered = false
  kept : (s.threads t).job ≠ .deactivation → (s.threads t).place.unanswered = true →
    s'.answers t e = false → p.unanswered = true
  forward : (s.threads t).job ≠ .deactivation → (s.threads t).place.unanswered = true →
    (s.threads t).place.stage < p.stage
  running : (s.threads t).place = .running →
    ∃ r delete activated now, e = .finish t r delete activated now

/-- A step is taken by one goroutine, or the others stay where they are. -/
def Steps (s s' : Scheduler) (e : SchedulerEvent) : Prop :=
  (∃ t p, Advance s s' e t p) ∨
    e.thread? = none ∧ ∀ u, u < s.numThreads → (s'.threads u).place = (s.threads u).place

theorem answers_of_ne (ht : e.thread? = some t) (hu : u ≠ t) :
    s'.answers u e = false := by
  cases e <;> simp_all [SchedulerEvent.thread?, answers, Ne.symm hu]

theorem answers_of_thread?_eq_none (he : e.thread? = none) :
    s'.answers u e = false := by
  cases e <;> simp_all [SchedulerEvent.thread?, answers]

section Goto

variable (hp₀ : (s.threads t).place = p₀)
  (hplace : ∀ u, (s'.threads u).place = if u = t then p else (s.threads u).place)
include hp₀ hplace

/-- The goroutine `t` works on its request. -/
theorem advance_works (hanswers : s'.answers t e = false := by rfl)
    (hthread : e.thread? = some t := by rfl)
    (hp : p₀.stage < p.stage ∧ p.stage < 6 ∧ p₀ ≠ .running := by simp [Place.stage]) :
    Steps s s' e := by
  have hlt := hp.1
  refine .inl ⟨t, p, hthread, hplace, ?_, ?_, ?_, ?_, ?_⟩
  · intro _
    rw [hp₀, Place.unanswered_iff]
    omega
  · simp [hanswers]
  · intro _ _ _
    rw [Place.unanswered_iff]
    exact hp.2.1
  · intro _ _
    rw [hp₀]
    exact hlt
  · intro hrunning
    exact absurd (hp₀.symm.trans hrunning) hp.2.2

/-- The goroutine `t` answers its request. -/
theorem advance_answers (hp : p.unanswered = false)
    (hrunning : p₀ ≠ .running ∨ ∃ r delete activated now, e = .finish t r delete activated now)
    (hanswers : s'.answers t e = true := by simp [answers])
    (hthread : e.thread? = some t := by rfl) : Steps s s' e := by
  refine .inl ⟨t, p, hthread, hplace, by simp [hp], fun _ => hp, by simp [hanswers], ?_, ?_⟩
  · intro _ hu
    rw [Place.unanswered_iff] at hu
    rw [← Bool.not_eq_true, Place.unanswered_iff] at hp
    omega
  · intro hu
    exact hrunning.resolve_left fun hne => hne (hp₀.symm.trans hu)

/-- The goroutine `t` has answered its request, or has none. -/
theorem advance_rests (hp : p.unanswered = false := by rfl)
    (hrests : (p₀.unanswered = false ∨ (s.threads t).job = .deactivation) ∧ p₀ ≠ .running := by
      simp [Place.unanswered]) (hthread : e.thread? = some t := by rfl) : Steps s s' e := by
  have hno : (s.threads t).job ≠ .deactivation → (s.threads t).place.unanswered = true → False := by
    intro hjob hu
    rw [hp₀, hrests.1.resolve_right hjob] at hu
    simp at hu
  refine .inl ⟨t, p, hthread, hplace, by simp [hp], fun _ => hp, ?_, ?_, ?_⟩
  · exact fun hjob hu _ => (hno hjob hu).elim
  · exact fun hjob hu => (hno hjob hu).elim
  · exact fun hu => absurd (hp₀.symm.trans hu) hrests.2

end Goto

/-- The goroutine `t` answers its request instead of calling the handler. -/
theorem advance_enter (s₀ : Scheduler)
    (hp₀ : (s.threads t).place = .acquired) (hs₀ : s₀.threads = s.threads) :
    Steps s (s₀.endTask t) (.enter t callerDead now) := by
  have hplace : ∀ u, ((s₀.endTask t).threads u).place =
      if u = t then s.endPlace t else (s.threads u).place := by
    intro u
    rw [endTask, goto_place, hs₀]
    rfl
  have hne : s.endPlace t ≠ .running := by
    unfold endPlace
    split <;> simp
  exact advance_answers hp₀ hplace (not_unanswered_endPlace s t) (.inl (by simp))
    (by simp [answers, hplace t, hne])

theorem steps_of_outcome (h : Wf s) (ho : Outcome cfg s e s') : Steps s s' e := by
  have hgoto : ∀ {s₀ : Scheduler} t p, s₀.threads = s.threads →
      ∀ v, ((s₀.goto t p).threads v).place = if v = t then p else (s.threads v).place := by
    intro s₀ t p hs₀ v
    rw [goto_place, hs₀]
  have hend := not_unanswered_endPlace s
  cases ho with
  | expired => exact .inr ⟨rfl, fun _ _ => rfl⟩
  | accepted => exact .inr ⟨rfl, fun _ _ => rfl⟩
  | scheduled hs =>
    refine .inr ⟨rfl, fun u hu => ?_⟩
    obtain ⟨l, -, ⟨i, -, -, ha⟩ | ⟨-, ha⟩⟩ := h.schedule_cases hs <;> cases ha <;>
      exact congrArg Thread.place ((spawn_threads _ _ u).trans (if_neg (Nat.ne_of_lt hu)))
  | @collected =>
    exact .inr ⟨rfl, fun u hu =>
      congrArg Thread.place ((spawn_threads _ _ u).trans (if_neg (Nat.ne_of_lt hu)))⟩
  -- The request is worked on.
  | @received t _ _ _ _ hplace =>
    rcases hplace with ⟨hp₀, rfl⟩ | ⟨hp₀, rfl⟩
    · exact advance_works hp₀ (hgoto t _ rfl)
    · exact advance_rests hp₀ (hgoto t _ rfl)
  | @awaits t _ _ _ _ hp₀ => exact advance_works hp₀ (hgoto t _ rfl)
  | @childDone t hp₀ => exact advance_works hp₀ (hgoto t _ rfl)
  | @goesOn t _ _ _ _ hplace =>
    rcases hplace with hp₀ | ⟨hp₀, -⟩ <;>
      exact advance_works hp₀ (hgoto t _ rfl)
  | @acquired t _ _ _ _ hplace =>
    rcases hplace with hp₀ | ⟨hp₀, -⟩ <;>
      exact advance_works hp₀ (hgoto t _ rfl)
  | @entered t _ _ _ _ _ _ _ hp₀ =>
    exact advance_works hp₀ (hgoto t _ rfl) (by simp [answers])
  -- It is answered.
  | @timedOut t _ _ _ _ hp₀ =>
    exact advance_answers hp₀ (hgoto t _ rfl) rfl (.inl (by simp))
  | @omitted t callerDead now _ _ clear o _ hp₀ =>
    refine advance_enter ((s.passOver t o).clearFlow (s.threads t).inst clear) hp₀ ?_
    cases clear <;> rfl
  | @mismatched t callerDead now _ _ clear _ hp₀ =>
    refine advance_enter (((s.entering t).log .entry t true).clearFlow (s.threads t).inst clear)
      hp₀ ?_
    cases clear <;> rfl
  | @answered t _ _ _ _ _ _ clear _ hp₀ =>
    refine advance_answers hp₀ (p := s.endPlace t) ?_ (hend t) (.inr ⟨_, _, _, _, rfl⟩)
    cases clear <;> exact hgoto t _ rfl
  | @forwarded t _ _ _ _ _ _ clear _ _ _ hp₀ =>
    refine advance_answers hp₀ (p := s.endPlace t) ?_ (hend t) (.inr ⟨_, _, _, _, rfl⟩)
    cases clear <;> exact hgoto t _ rfl
  | @deferred t _ _ _ _ _ _ _ _ _ _ _ _ hp₀ =>
    exact advance_answers hp₀ (hgoto t .ended (by simp [continuing, deferring, log]))
      rfl (.inr ⟨_, _, _, _, rfl⟩)
  -- There is no request, or it has been answered.
  | @released t _ _ _ _ _ _ hp₀ => exact advance_rests hp₀ (hgoto t _ rfl)
  | @relayed t _ _ hsends =>
    refine advance_rests rfl (hgoto t _ rfl) rfl ?_
    cases hp₀ : (s.threads t).place <;> simp_all [Place.unanswered, Place.sends]
  | @claimed t _ hjob hp₀ => exact advance_rests hp₀ (hgoto t _ rfl) rfl (by simp [hjob])
  | @probed t _ hp₀ => exact advance_rests hp₀ (hgoto t _ rfl)
  | @began t _ _ hp₀ hp =>
    refine advance_rests hp₀ (hgoto t _ rfl) ?_
    rcases hp with ⟨rfl, -⟩ | rfl <;> rfl
  | @calledBack t _ hp₀ => exact advance_rests hp₀ (hgoto t _ rfl)
  | @retired t hp₀ => exact advance_rests hp₀ (hgoto t _ rfl)
  | @aborted t hp₀ => exact advance_rests hp₀ (hgoto t _ rfl)
  | @removed t hp₀ => exact advance_rests hp₀ (hgoto t _ rfl)
  | @closed t _ hp₀ => exact advance_rests hp₀ (hgoto t _ rfl)

theorem steps_of_step (h : Wf s) (hs : step cfg s e = some s') : Steps s s' e := by
  obtain ⟨s₁, ho, hsame⟩ := step_outcome hs
  have hanswers : ∀ u, s₁.answers u e = s'.answers u e := by
    intro u
    cases e <;> simp [answers, hsame.threads]
  rcases steps_of_outcome h ho with ⟨t, p, ha⟩ | ⟨hnone, hplace⟩
  · refine .inl ⟨t, p, { ha with place := ?_, answers := ?_, kept := ?_ }⟩
    · rw [hsame.threads]
      exact ha.place
    · rw [← hanswers]
      exact ha.answers
    · rw [← hanswers]
      exact ha.kept
  · refine .inr ⟨hnone, fun u hu => ?_⟩
    rw [hsame.threads]
    exact hplace u hu

theorem serving_of_step (h : Wf s) (hs : step cfg s e = some s')
    (hu : u < s.numThreads) : Serving s s' e u := by
  have hsame : (s'.threads u).place = (s.threads u).place → s'.answers u e = false →
      Serving s s' e u := fun hplace hanswers =>
    ⟨fun hp => ⟨hplace ▸ hp, hanswers⟩, fun _ hp _ => hplace ▸ hp, fun hp => .inr (hplace.trans hp)⟩
  rcases steps_of_step h hs with ⟨t, p, ha⟩ | ⟨hnone, hplace⟩
  · by_cases hut : u = t
    · subst hut
      have hp : (s'.threads u).place = p := by rw [ha.place, if_pos rfl]
      refine ⟨fun hunanswered => ?_, fun hjob h₀ hno => ?_, fun hrunning => .inl (ha.running hrunning)⟩
      · rw [hp] at hunanswered
        refine ⟨ha.unanswered hunanswered, ?_⟩
        rw [← Bool.not_eq_true]
        intro hyes
        simp [ha.answers hyes] at hunanswered
      · rw [hp]
        exact ha.kept hjob h₀ hno
    · exact hsame (by rw [ha.place, if_neg hut]) (answers_of_ne ha.thread hut)
  · exact hsame (hplace u hu) (answers_of_thread?_eq_none hnone)

/-- How a task ends: with a tail call, or with an answer. -/
theorem finish_cases (hs : step cfg s (.finish t r delete activated now) = some s') :
    ∃ target m clear, (s.threads t).job = .request target m clear ∧ (s.threads t).place = .running ∧
      (s.tailCalled s' = none ∧ s'.inFlight = s.inFlight ∨ ∃ dest method deferred, r.dest = some
      (dest, method) ∧ s.tailCalled s' = some (State.continuation m dest method r.value deferred) ∧
      s'.inFlight = s.inFlight ++ [State.continuation m dest method r.value deferred]) := by
  obtain ⟨s₁, ho, hsame⟩ := step_outcome hs
  have hnone : s'.inFlight = s.inFlight → s.tailCalled s' = none := by
    intro hin
    rw [tailCalled, hin, List.drop_length, List.head?_nil]
  have hsome : ∀ v, s'.inFlight = s.inFlight ++ [v] → s.tailCalled s' = some v := by
    intro v hin
    rw [tailCalled, hin, List.drop_left, List.head?_cons]
  cases ho with
  | @answered _ _ _ _ _ target m clear hjob hplace =>
    have hin : s'.inFlight = s.inFlight := by
      rw [hsame.inFlight]
      cases clear <;> rfl
    exact ⟨target, m, clear, hjob, hplace, .inl ⟨hnone hin, hin⟩⟩
  | @forwarded _ _ _ _ _ target m clear dest method hjob hplace _ hdest =>
    have hin : s'.inFlight = s.inFlight ++ [State.continuation m dest method r.value false] := by
      rw [hsame.inFlight]
      cases clear <;> rfl
    exact ⟨target, m, clear, hjob, hplace, .inr ⟨dest, method, false, hdest, hsome _ hin, hin⟩⟩
  | @deferred _ _ _ _ _ target m clear dest method _ _ hjob hplace _ hdest =>
    have hin : s'.inFlight = s.inFlight ++ [State.continuation m dest method r.value true] := by
      rw [hsame.inFlight]
      simp [goto, continuing, deferring, log]
    exact ⟨target, m, clear, hjob, hplace, .inr ⟨dest, method, true, hdest, hsome _ hin, hin⟩⟩

end Scheduler

end Kar.Rpc
