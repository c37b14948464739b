import Kar.Rpc.SessionSteps

/-!
# The session table

What holds of the scheduler without a look at the turns: goroutines and instances are
numbered without gaps, the channels of a goroutine belong to its instance, the table holds
the valid instances, and an instance is locked while it is removed.  `Wf` collects this.

All steps but two keep `Wf`.  The goroutine that removes an instance must be the only one
that does, for the deletion of the entry and for the release of the lock; that is a matter of
the turn.
-/

namespace Kar.Rpc

open Kar.Lib Function

namespace Place

/-- What a goroutine at the place does with the turn, if it takes part in the chain. -/
def phase : Place → TurnPhase
  | waiting | timedOut => .waits
  | ended => .gone
  | _ => .holds

/-- The places of a deactivation that has taken the instance over. -/
def deactivates : Place → Bool
  | claimed | probed _ | callback | settling | removing | closing | aborting => true
  | _ => false

end Place

namespace Scheduler

/-! ## The shapes of the steps -/

/-- The goroutine `t` goes from one place to another without receiving or giving away a
turn. -/
structure Quiet (s s' : Scheduler) (t : Nat) (p : Place) : Prop where
  silent : Silent (s.goto t p) s'
  /-- The goroutine may end if it has nothing to send on. -/
  phase : p.phase = (s.threads t).place.phase ∨
    p = .ended ∧ (s.threads t).after = none ∧ (s.threads t).place.phase = .holds
  place : (s.threads t).place ≠ .ended ∧ (s.threads t).place ≠ .removing ∧
    (s.threads t).place ≠ .closing
  kept : p ≠ .removing ∧ p ≠ .closing
  sends : p = .relaying ∨ p = .releasing → (s.threads t).after ≠ none
  deactivates : p.deactivates = true →
    (s.threads t).job = .deactivation ∨ (s.threads t).place.deactivates = true

/-- What a step can do to the turns, the instances and the table. -/
inductive Change (s : Scheduler) (e : SchedulerEvent) (s' : Scheduler) : Prop
  | silent (h : Silent s s')
  | quiet {t : Nat} {p : Place} (h : Quiet s s' t p)
  | loads {target : Session} {m : Request} (htarget : m.target.session? = some target)
      (h : Silent { s with loading := some {
        target := target, m := m, entry := s.sessionTable target.key } } s')
  | schedules {s₁ : Scheduler} (h : s.schedule = some s₁) (hs : Silent s₁ s')
  | receives {t : Nat} {c : Chan} {p : Place} (hbefore : (s.threads t).before = some c)
      (hfull : s.full c = true ∨ s.closed c = true)
      (hplace : (s.threads t).place = .waiting ∧ p = .arrived ∨
        (s.threads t).place = .timedOut ∧ p = .relaying)
      (h : Silent ((s.setFull c false).goto t p) s')
  | passes {t : Nat} {c : Chan} (hafter : (s.threads t).after = some c)
      (hsends : (s.threads t).place.sends = true) (h : Silent ((s.setFull c true).goto t .ended) s')
  | parks {t : Nat} {r : HandlerResult} {delete activated : Bool} {now : Int} {next : Session}
      {c : Chan} (he : e = .finish t r delete activated now)
      (hunder : s.parksUnder t r = some (next, c)) (hplace : (s.threads t).place = .running)
      (h : Silent ((s.deferring next.deferredLockID c).goto t .ended) s')
  | enqueues {i : Nat} (hi : i < s.numInstances) (hvalid : (s.instances i).valid = true)
      (h : Silent (s.enqueue i .deactivation) s')
  | retires {t : Nat} (hplace : (s.threads t).place = .settling) (hlast : s.last t = true)
      (h : Silent (s.retired t) s')
  | removes {t : Nat} (hplace : (s.threads t).place = .removing)
      (h : Silent ({ s with sessionTable := s.tableWithout t }.goto t .closing) s')
  | closes {t : Nat} {c : Chan} (hplace : (s.threads t).place = .closing)
      (hafter : (s.threads t).after = some c) (h : Silent ((s.closing t c).goto t .ended) s')

section Shapes

theorem quiet_goto (hs : Silent (s₀.goto t p) s') (h : Silent s s₀) (hplace : (s.threads t).place = p₀)
    (hdeactivates : p.deactivates = true →
      (s.threads t).job = .deactivation ∨ p₀.deactivates = true := by simp [Place.deactivates])
    (hphase : p.phase = p₀.phase := by rfl)
    (hp₀ : p₀ ≠ .ended ∧ p₀ ≠ .removing ∧ p₀ ≠ .closing := by simp)
    (hp : p ≠ .removing ∧ p ≠ .closing ∧ p ≠ .relaying ∧ p ≠ .releasing := by simp) :
    Change s e s' := by
  subst hplace
  exact .quiet ⟨(h.goto t p).trans hs, .inl hphase, hp₀, ⟨hp.1, hp.2.1⟩,
    fun hsends => hsends.elim (absurd · hp.2.2.1) (absurd · hp.2.2.2), hdeactivates⟩

/-- The end of a request that has the turn of `t`, or none. -/
theorem quiet_endTask (hs : Silent (s₀.endTask t) s') (h : Silent s s₀)
    (hplace : (s.threads t).place = .acquired ∨ (s.threads t).place = .running) :
    Change s e s' := by
  refine .quiet ⟨(h.endTask t).trans hs, ?_, ?_, ?_, ?_, ?_⟩
  · split
    · rename_i hnone
      refine .inr ⟨rfl, hnone, ?_⟩
      rcases hplace with hplace | hplace <;> rw [hplace] <;> rfl
    · refine .inl ?_
      rcases hplace with hplace | hplace <;> rw [hplace] <;> rfl
  · rcases hplace with hplace | hplace <;> simp [hplace]
  · split <;> simp
  · split
    · simp
    · exact fun _ => ‹_›
  · split <;> simp [Place.deactivates]

theorem outcome_change (ho : Outcome cfg s e s₁) (hsame : Same s₁ s') :
    Change s e s' := by
  have hs := hsame.toSilent
  have hrefl := Silent.refl s
  cases ho with
  | expired => exact .silent { hs with }
  | accepted _ htarget => exact .loads htarget { hs with }
  | scheduled h => exact .schedules h hs
  | received hbefore hfull hplace => exact .receives hbefore hfull hplace hs
  | timedOut _ hplace =>
    exact quiet_goto hs ((hrefl.passOver _ _).send _) hplace
  | awaits _ hplace =>
    exact quiet_goto hs (hrefl.log ..) hplace
  | childDone hplace =>
    exact quiet_goto hs (hrefl.setFlow _ _) hplace
  | goesOn _ hplace =>
    rcases hplace with hplace | ⟨hplace, -⟩ <;>
      exact quiet_goto hs hrefl hplace
  | acquired _ hplace =>
    rcases hplace with hplace | ⟨hplace, -⟩ <;> exact quiet_goto hs ((hrefl.log ..).setFlow _ _)
      hplace
  | omitted _ hplace =>
    exact quiet_endTask hs ((hrefl.passOver _ _).clearFlow _ _) (.inl hplace)
  | mismatched _ hplace =>
    exact quiet_endTask hs (((hrefl.entering _).log ..).clearFlow _ _) (.inl hplace)
  | entered _ hplace =>
    exact quiet_goto hs (hrefl.entering _) hplace
  | answered _ hplace =>
    exact quiet_endTask hs ((hrefl.log ..).clearFlow _ _) (.inr hplace)
  | forwarded _ hplace =>
    exact quiet_endTask hs (((hrefl.log ..).clearFlow _ _).continuing _) (.inr hplace)
  | deferred _ hplace herr hdest hdeferral =>
    exact .parks rfl (by simp [parksUnder, herr, hdest, hdeferral]) hplace
      ((((((hrefl.log ..).log ..).deferring _ _).continuing _).goto _ _).trans hs)
  | released _ hafter hplace =>
    exact .passes hafter (hplace ▸ rfl)
      (((((Silent.refl _).releasing _).log ..).goto _ _).trans hs)
  | relayed hafter hsends => exact .passes hafter hsends hs
  | collected hi _ hvalid => exact .enqueues hi hvalid hs
  | claimed hjob hplace =>
    exact quiet_goto hs ((hrefl.log ..).setFlow _ _) hplace fun _ => .inl hjob
  | probed hjob hplace =>
    exact quiet_goto hs hrefl hplace fun _ => .inl hjob
  | began hplace hp =>
    rcases hp with ⟨rfl, -⟩ | rfl <;>
      exact quiet_goto hs hrefl hplace fun _ => .inr rfl
  | calledBack hplace =>
    exact quiet_goto hs hrefl hplace fun _ => .inr rfl
  | retired hplace hlast => exact .retires hplace hlast hs
  | aborted hplace =>
    exact quiet_goto hs (hrefl.setFlow _ _) hplace fun _ => .inr rfl
  | removed hplace => exact .removes hplace hs
  | closed hplace hafter => exact .closes hplace hafter hs

theorem step_change (h : step cfg s e = some s') : Change s e s' := by
  obtain ⟨s₁, ho, hsame⟩ := step_outcome h
  exact outcome_change ho hsame

end Shapes

/-! ## What the chains rest on -/

/-- What the goroutines keep: their channels and their instance. -/
structure Goroutines (s : Scheduler) : Prop where
  fresh : ∀ t, s.numThreads ≤ t → (s.threads t).before = none ∧ (s.threads t).after = none ∧
    (s.threads t).place = .ended
  before : ∀ t c, (s.threads t).before = some c → c.owner = (s.threads t).inst ∧
    (s.threads t).after = some ⟨c.owner, c.num + 1⟩
  after : ∀ t c, (s.threads t).after = some c → c.owner < s.numInstances
  inst : ∀ t, t < s.numThreads → (s.threads t).inst < s.numInstances
  waits : ∀ t, (s.threads t).place.waits = true → (s.threads t).before ≠ none
  deactivation : ∀ t, t < s.numThreads → (s.threads t).job = .deactivation →
    (s.threads t).before ≠ none
  deactivates : ∀ t, (s.threads t).place.deactivates = true → (s.threads t).before ≠ none
  sends : ∀ t, (s.threads t).place = .relaying ∨ (s.threads t).place = .releasing →
    (s.threads t).after ≠ none

structure Wf (s : Scheduler) : Prop extends Goroutines s where
  parked : ∀ id c, s.deferredLocks.get? id = some c → c.owner < s.numInstances
  full : ∀ c, s.full c = true → c.owner < s.numInstances
  valid : ∀ i, (s.instances i).valid = true → i < s.numInstances
  closed : ∀ c, s.closed c = true → (s.instances c.owner).valid = false ∧
    c.owner < s.numInstances
  removing : ∀ t, (s.threads t).place = .removing →
    s.sessionTable (s.instances (s.threads t).inst).key = some (s.threads t).inst
  locked : ∀ t, (s.threads t).place = .removing ∨ (s.threads t).place = .closing →
    (s.instances (s.threads t).inst).valid = false ∧
      (s.instances (s.threads t).inst).locked = true
  table : ∀ k i, s.sessionTable k = some i → (s.instances i).key = k ∧ i < s.numInstances ∧
    ((s.instances i).valid = true ∨ ∃ t, (s.threads t).inst = i ∧ (s.threads t).place = .removing)
  tabled : ∀ i, (s.instances i).valid = true → s.sessionTable (s.instances i).key = some i
  loaded : ∀ l, s.loading = some l →
    (l.entry = none → s.sessionTable l.target.key = none) ∧
    ∀ e, l.entry = some e → (s.instances e).key = l.target.key ∧ e < s.numInstances ∧
      (s.sessionTable l.target.key = some e ∨
        s.sessionTable l.target.key = none ∧ (s.instances e).valid = false)

namespace Goroutines

variable {s s' : Scheduler}

/-- Only the goroutines matter, and the number of instances, which may grow. -/
theorem of_eq (h : Goroutines s) (hthreads : s'.threads = s.threads)
    (hnum : s'.numThreads = s.numThreads) (hinstances : s.numInstances ≤ s'.numInstances) :
    Goroutines s' := by
  constructor <;> rw [hthreads]
  case fresh =>
    rw [hnum]
    exact h.fresh
  case before => exact h.before
  case after => exact fun t c hc => Nat.lt_of_lt_of_le (h.after t c hc) hinstances
  case inst =>
    rw [hnum]
    exact fun t ht => Nat.lt_of_lt_of_le (h.inst t ht) hinstances
  case waits => exact h.waits
  case deactivation =>
    rw [hnum]
    exact h.deactivation
  case deactivates => exact h.deactivates
  case sends => exact h.sends

/-- A goroutine that has not ended is one of those that were started. -/
theorem lt_of_place (h : Goroutines s) (ht : (s.threads t).place ≠ .ended) :
    t < s.numThreads :=
  Nat.lt_of_not_le fun hle => ht (h.fresh t hle).2.2

theorem lt (h : Goroutines s) (hplace : (s.threads t).place = p) (hp : p ≠ .ended := by decide) :
    t < s.numThreads := h.lt_of_place (hplace ▸ hp)

theorem after_ne_none (h : Goroutines s) (hbefore : (s.threads t).before ≠ none) :
    (s.threads t).after ≠ none := by
  obtain ⟨b, hb⟩ := Option.ne_none_iff_exists'.mp hbefore
  simp [(h.before t b hb).2]

theorem goto (h : Goroutines s) (ht : (s.threads t).place ≠ .ended)
    (hdeactivates : p.deactivates = true → (s.threads t).before ≠ none)
    (hwaits : p.waits = true → (s.threads t).before ≠ none := by simp [Place.waits])
    (hsends : p = .relaying ∨ p = .releasing → (s.threads t).after ≠ none := by simp) :
    Goroutines (s.goto t p) where
  fresh := by
    intro u hu
    have hlt : t < (s.goto t p).numThreads := h.lt_of_place ht
    have hne : u ≠ t := by omega
    rw [goto_before, goto_after, goto_place_of_ne s t p hne]
    exact h.fresh u hu
  before := by
    intro u
    rw [goto_before, goto_inst, goto_after]
    exact h.before u
  after := by
    intro u
    rw [goto_after]
    exact h.after u
  inst := by
    intro u
    rw [goto_inst]
    exact h.inst u
  waits := by
    intro u
    rw [goto_place, goto_before]
    split
    · subst u
      exact hwaits
    · exact h.waits u
  deactivation := by
    intro u
    rw [goto_job, goto_before]
    exact h.deactivation u
  deactivates := by
    intro u
    rw [goto_place, goto_before]
    split
    · subst u
      exact hdeactivates
    · exact h.deactivates u
  sends := by
    intro u
    rw [goto_place, goto_after]
    split
    · subst u
      exact hsends
    · exact h.sends u

theorem spawn (h : Goroutines s)
    (hbefore : ∀ c, u.before = some c → c.owner = u.inst ∧ u.after = some ⟨c.owner, c.num + 1⟩)
    (hafter : ∀ c, u.after = some c → c.owner < s.numInstances) (hinst : u.inst < s.numInstances)
    (hwaits : u.place.waits = true → u.before ≠ none) (hjob : u.job = .deactivation → u.before ≠ none)
    (hdeactivates : u.place.deactivates = true → u.before ≠ none)
    (hsends : u.place ≠ .relaying ∧ u.place ≠ .releasing) : Goroutines (s.spawn u) where
  fresh := by
    intro t ht
    have ht : s.numThreads + 1 ≤ t := ht
    rw [spawn_threads, if_neg (by omega)]
    exact h.fresh t (by omega)
  before := by
    intro t
    rw [spawn_threads]
    split
    · exact hbefore
    · exact h.before t
  after := by
    intro t
    rw [spawn_threads]
    split
    · exact hafter
    · exact h.after t
  inst := by
    intro t ht
    have ht : t < s.numThreads + 1 := ht
    rw [spawn_threads]
    split
    · exact hinst
    · exact h.inst t (by omega)
  waits := by
    intro t
    rw [spawn_threads]
    split
    · exact hwaits
    · exact h.waits t
  deactivation := by
    intro t ht
    have ht : t < s.numThreads + 1 := ht
    rw [spawn_threads]
    split
    · exact hjob
    · exact h.deactivation t (by omega)
  deactivates := by
    intro t
    rw [spawn_threads]
    split
    · exact hdeactivates
    · exact h.deactivates t
  sends := by
    intro t
    rw [spawn_threads]
    split
    · exact fun hu => hu.elim (absurd · hsends.1) (absurd · hsends.2)
    · exact h.sends t

end Goroutines

namespace Wf

theorem init : Wf init := by
  refine { toGoroutines := ?_, parked := ?_, full := ?_, valid := ?_, closed := ?_, removing := ?_,
           locked := ?_, table := ?_, tabled := ?_, loaded := ?_ }
  · constructor <;> simp [Scheduler.init, Place.waits, Place.deactivates]
  all_goals simp [Scheduler.init, GoMap.get?, GoMap.empty]

theorem silent (h : Wf s) (hs : Silent s s') : Wf s' := by
  constructor
  case toGoroutines =>
    exact h.toGoroutines.of_eq hs.threads hs.numThreads (Nat.le_of_eq hs.numInstances.symm)
  case parked => rw [hs.deferredLocks, hs.numInstances]; exact h.parked
  case full => rw [hs.full, hs.numInstances]; exact h.full
  case valid =>
    intro i
    rw [hs.valid, hs.numInstances]
    exact h.valid i
  case closed =>
    intro c
    rw [hs.closed, hs.valid, hs.numInstances]
    exact h.closed c
  case removing =>
    intro t
    rw [hs.threads, hs.sessionTable, hs.key]
    exact h.removing t
  case locked =>
    intro t
    rw [hs.threads, hs.valid, hs.locked]
    exact h.locked t
  case table =>
    intro k i
    rw [hs.sessionTable, hs.key, hs.numInstances, hs.valid, hs.threads]
    exact h.table k i
  case tabled =>
    intro i
    rw [hs.valid, hs.sessionTable, hs.key]
    exact h.tabled i
  case loaded =>
    intro l hl
    rw [hs.loading] at hl
    rw [hs.sessionTable]
    refine ⟨(h.loaded l hl).1, fun e he => ?_⟩
    rw [hs.key, hs.numInstances, hs.valid]
    exact (h.loaded l hl).2 e he

/-- A goroutine moves to a place outside the removal of an instance. -/
theorem goto (h : Wf s) (ht : (s.threads t).place ≠ .ended ∧ (s.threads t).place ≠ .removing)
    (hsends : p = .relaying ∨ p = .releasing → (s.threads t).after ≠ none := by simp)
    (hp : p ≠ .removing ∧ p ≠ .closing := by simp)
    (hwaits : p.waits = true → (s.threads t).before ≠ none := by simp [Place.waits])
    (hdeactivates : p.deactivates = true → (s.threads t).before ≠ none := by
      simp [Place.deactivates]) : Wf (s.goto t p) where
  toGoroutines := h.toGoroutines.goto ht.1 hdeactivates hwaits hsends
  parked := h.parked
  full := h.full
  valid := h.valid
  closed := h.closed
  removing := by
    intro u
    rw [goto_place, goto_inst]
    split
    · exact fun heq => absurd heq hp.1
    · exact h.removing u
  locked := by
    intro u
    rw [goto_place, goto_inst]
    split
    · rintro (heq | heq)
      · exact absurd heq hp.1
      · exact absurd heq hp.2
    · exact h.locked u
  table := by
    intro k i hk
    obtain ⟨hkey, hlt, hvalid | ⟨u, hinst, hplace⟩⟩ := h.table k i hk
    · exact ⟨hkey, hlt, .inl hvalid⟩
    · refine ⟨hkey, hlt, .inr ⟨u, by rw [goto_inst, hinst], ?_⟩⟩
      have hne : u ≠ t := fun heq => ht.2 (heq ▸ hplace)
      rw [goto_place_of_ne s t p hne, hplace]
  tabled := h.tabled
  loaded := h.loaded

theorem quiet (h : Wf s) (hq : Quiet s s' t p) : Wf s' := by
  have hlt := h.lt_of_place hq.place.1
  refine (h.goto (hq.place.imp id (·.1)) hq.sends hq.kept ?_ ?_).silent hq.silent
  · intro hwaits
    refine h.waits t ?_
    rcases hq.phase with hphase | ⟨rfl, -⟩
    · cases p <;> cases hplace : (s.threads t).place <;> simp_all [Place.phase, Place.waits]
    · simp [Place.waits] at hwaits
  · intro hdeactivates
    rcases hq.deactivates hdeactivates with hjob | hplace
    · exact h.deactivation t hlt hjob
    · exact h.deactivates t hplace

/-- The channel `c` of an instance is filled or emptied. -/
theorem setFull (h : Wf s) (b : Bool) (hc : c.owner < s.numInstances) :
    Wf (s.setFull c b) := by
  refine { h with full := fun c' hc' => ?_ }
  by_cases hcc : c' = c
  · rw [hcc]
    exact hc
  · exact h.full c' (by simpa [Scheduler.setFull, hcc] using hc')

theorem parks (h : Wf s) {id : String} {c : Chan}
    (hafter : (s.threads t).after = some c) (hplace : (s.threads t).place = .running) :
    Wf ((s.deferring id c).goto t .ended) := by
  have hparked : Wf (s.deferring id c) := by
    refine { h with parked := fun id' c' hget => ?_ }
    have hget : (s.deferredLocks.set id c).get? id' = some c' := hget
    rw [GoMap.get?_set] at hget
    split at hget
    · cases hget
      exact h.after t c hafter
    · exact h.parked id' c' hget
  have hplace : ((s.deferring id c).threads t).place = .running := hplace
  exact hparked.goto (by simp [hplace])

theorem loads (h : Wf s) (target : Session) (m : Request) :
    Wf { s with loading := some { target := target, m := m, entry := s.sessionTable target.key } } := by
  refine { h with loaded := fun l hl => ?_ }
  cases hl
  refine ⟨fun hnone => hnone, fun e he => ?_⟩
  obtain ⟨hkey, hlt, -⟩ := h.table _ e he
  exact ⟨hkey, hlt, .inl he⟩

theorem receives (h : Wf s) (hbefore : (s.threads t).before = some c)
    (hplace : (s.threads t).place = .waiting ∧ p = .arrived ∨
      (s.threads t).place = .timedOut ∧ p = .relaying) : Wf ((s.setFull c false).goto t p) := by
  have hafter := (h.before t c hbefore).2
  have howner : c.owner < s.numInstances := h.after t ⟨c.owner, c.num + 1⟩ hafter
  have hfull := h.setFull false howner
  have hthread : (s.setFull c false).threads t = s.threads t := rfl
  rcases hplace with ⟨hplace, rfl⟩ | ⟨hplace, rfl⟩
  · exact hfull.goto (by simp [hthread, hplace])
  · exact hfull.goto (by simp [hthread, hplace]) (by simp [hthread, hafter])

theorem passes (h : Wf s) (hafter : (s.threads t).after = some c)
    (hsends : (s.threads t).place.sends = true) : Wf ((s.setFull c true).goto t .ended) := by
  have hthread : (s.setFull c true).threads t = s.threads t := rfl
  refine (h.setFull true (h.after t c hafter)).goto ⟨?_, ?_⟩
  · intro hended
    simp [← hthread, hended, Place.sends] at hsends
  · intro hremoving
    simp [← hthread, hremoving, Place.sends] at hsends

/-- A new goroutine outside the removal of an instance. -/
theorem spawn (h : Wf s)
    (hbefore : ∀ c, u.before = some c → c.owner = u.inst ∧ u.after = some ⟨c.owner, c.num + 1⟩)
    (hafter : ∀ c, u.after = some c → c.owner < s.numInstances) (hinst : u.inst < s.numInstances)
    (hwaits : u.place.waits = true → u.before ≠ none)
    (hjob : u.job = .deactivation → u.before ≠ none) (hplace : u.place.deactivates = false)
    (hsends : u.place ≠ .relaying ∧ u.place ≠ .releasing) : Wf (s.spawn u) := by
  have hne : ∀ p : Place, p.deactivates = true → u.place ≠ p := by
    rintro p hp rfl
    simp [hplace] at hp
  refine { h with toGoroutines := ?_, removing := ?_, locked := ?_, table := ?_ }
  · exact h.toGoroutines.spawn hbefore hafter hinst hwaits hjob (by simp [hplace]) hsends
  · intro t
    rw [spawn_threads]
    split
    · exact fun heq => absurd heq (hne _ rfl)
    · exact h.removing t
  · intro t
    rw [spawn_threads]
    split
    · rintro (heq | heq)
      · exact absurd heq (hne _ rfl)
      · exact absurd heq (hne _ rfl)
    · exact h.locked t
  · intro k i hk
    obtain ⟨hkey, hlt, hvalid | ⟨t, hinst, hremoving⟩⟩ := h.table k i hk
    · exact ⟨hkey, hlt, .inl hvalid⟩
    · have hlive : t < s.numThreads := h.lt hremoving
      refine ⟨hkey, hlt, .inr ⟨t, ?_⟩⟩
      rw [spawn_threads, if_neg (by omega)]
      exact ⟨hinst, hremoving⟩

/-- The instances may change in what is neither key nor validity, except that the lock is kept
while an instance is removed. -/
theorem setInstance (h : Wf s)
    (hkey : a.key = (s.instances i).key) (hvalid : a.valid = (s.instances i).valid)
    (hlocked : ∀ t, (s.threads t).place = .removing ∨ (s.threads t).place = .closing →
      (s.threads t).inst = i → a.locked = true) : Wf (s.setInstance i a) := by
  have hupdate : ∀ j, (s.setInstance i a).instances j = if j = i then a else s.instances j :=
    fun j => update_apply s.instances i a j
  have hkeys : ∀ j, ((s.setInstance i a).instances j).key = (s.instances j).key := by
    intro j
    rw [hupdate]
    split
    · rw [hkey, ‹j = i›]
    · rfl
  have hvalids : ∀ j, ((s.setInstance i a).instances j).valid = (s.instances j).valid := by
    intro j
    rw [hupdate]
    split
    · rw [hvalid, ‹j = i›]
    · rfl
  refine { h with valid := ?_, closed := ?_, removing := ?_, locked := ?_, table := ?_,
                  tabled := ?_, loaded := ?_ }
  all_goals simp [hkeys, hvalids]
  · exact h.valid
  · exact h.closed
  · exact h.removing
  · intro t ht
    refine ⟨(h.locked t ht).1, ?_⟩
    rw [hupdate]
    split
    · exact hlocked t ht ‹_›
    · exact (h.locked t ht).2
  · exact h.table
  · exact h.tabled
  · exact h.loaded

theorem enqueue (h : Wf s) (hi : i < s.numInstances) :
    Wf (s.enqueue i job) := by
  have hset : Wf (s.setInstance i { s.instances i with next := (s.instances i).next + 1 }) :=
    h.setInstance rfl rfl fun t ht hi => hi ▸ (h.locked t ht).2
  refine hset.spawn ?_ ?_ hi ?_ ?_ ?_ (by simp)
  · intro c hc
    cases hc
    exact ⟨rfl, rfl⟩
  · intro c hc
    cases hc
    exact hi
  · simp
  · simp
  · rfl

theorem bypass (h : Wf s) (hi : i < s.numInstances) :
    Wf (s.bypass i target m) :=
  h.spawn (by simp) (by simp) hi (by simp [Place.waits]) (by simp) rfl (by simp)

theorem resume (h : Wf s)
    (hi : i < s.numInstances) (hc : c.owner < s.numInstances) : Wf (s.resume i target m c) := by
  have hdeleted : Wf { s with deferredLocks := s.deferredLocks.delete target.deferredLockID } := by
    refine { h with parked := fun id c hget => h.parked id c ?_ }
    rw [GoMap.get?_delete] at hget
    split at hget
    · simp at hget
    exact hget
  refine hdeleted.spawn (by simp) ?_ hi (by simp [Place.waits]) (by simp) rfl (by simp)
  intro c' hc'
  cases hc'
  exact hc

/-- A new instance of an actor that is not in the table. -/
theorem newInstance (h : Wf s) (hloading : s.loading = none)
    (htable : s.sessionTable target.key = none) : Wf (s.newInstance target m) := by
  have hold : ∀ i, i < s.numInstances → (s.newInstance target m).instances i = s.instances i :=
    fun i hi => update_of_ne (Nat.ne_of_lt hi) _ _
  have hnew : (s.newInstance target m).sessionTable target.key = some s.numInstances :=
    update_self ..
  have hother : ∀ k, k ≠ target.key → (s.newInstance target m).sessionTable k = s.sessionTable k :=
      fun k hk => update_of_ne hk _ _
  have hlt : ∀ i, i < s.numInstances → i < (s.newInstance target m).numInstances :=
    fun i hi => Nat.lt_succ_of_lt hi
  have hlive : ∀ t, (s.threads t).place ≠ .ended → (s.threads t).inst < s.numInstances :=
    fun t ht => h.inst t (h.lt_of_place ht)
  constructor
  case toGoroutines => exact h.toGoroutines.of_eq rfl rfl (Nat.le_succ _)
  case parked => exact fun id c hc => hlt _ (h.parked id c hc)
  case full =>
    intro c hc
    by_cases hcc : c = ⟨s.numInstances, 0⟩
    · rw [hcc]
      exact Nat.lt_succ_self _
    · exact hlt _ (h.full c (by simpa [Scheduler.newInstance, hcc] using hc))
  case valid =>
    intro i hi
    by_cases hii : i = s.numInstances
    · rw [hii]
      exact Nat.lt_succ_self _
    · exact hlt i (h.valid i (by simpa [Scheduler.newInstance, hii] using hi))
  case closed =>
    intro c hc
    obtain ⟨hvalid, howner⟩ := h.closed c hc
    rw [hold c.owner howner]
    exact ⟨hvalid, hlt _ howner⟩
  case removing =>
    intro t ht
    have ht : (s.threads t).place = .removing := ht
    have hi := hlive t (by simp [ht])
    have hentry := h.removing t ht
    show (s.newInstance target m).sessionTable
      ((s.newInstance target m).instances (s.threads t).inst).key = some (s.threads t).inst
    rw [hold _ hi, hother _ (fun hk => by simp [hk, htable] at hentry)]
    exact hentry
  case locked =>
    intro t ht
    have ht : (s.threads t).place = .removing ∨ (s.threads t).place = .closing := ht
    have hi := hlive t (by rcases ht with ht | ht <;> simp [ht])
    show ((s.newInstance target m).instances (s.threads t).inst).valid = false ∧
      ((s.newInstance target m).instances (s.threads t).inst).locked = true
    rw [hold _ hi]
    exact h.locked t ht
  case table =>
    intro k i hk
    by_cases hkk : k = target.key
    · rw [hkk, hnew] at hk
      rw [← Option.some.inj hk, hkk]
      exact ⟨by simp [Scheduler.newInstance], Nat.lt_succ_self _,
        .inl (by simp [Scheduler.newInstance])⟩
    · rw [hother k hkk] at hk
      obtain ⟨hkey, hi, hvalid⟩ := h.table k i hk
      rw [hold i hi]
      exact ⟨hkey, hlt i hi, hvalid⟩
  case tabled =>
    intro i hi
    by_cases hii : i = s.numInstances
    · rw [hii]
      have hkey : ((s.newInstance target m).instances s.numInstances).key = target.key := by
        simp [Scheduler.newInstance]
      rw [hkey, hnew]
    · have hvalid : (s.instances i).valid = true := by
        simpa [Scheduler.newInstance, hii] using hi
      have hentry := h.tabled i hvalid
      rw [hold i (h.valid i hvalid), hother _ (fun hk => by simp [hk, htable] at hentry)]
      exact hentry
  case loaded =>
    intro l hl
    have hl : s.loading = some l := hl
    simp [hloading] at hl

theorem retired (h : Wf s) (hplace : (s.threads t).place = .settling)
    (hlast : s.last t = true) : Wf (s.retired t) := by
  have hvalid := (last_iff.mp hlast).1
  have hthreads : ∀ u, (s.retired t).threads u = (s.goto t .removing).threads u := fun _ => rfl
  have hkey : ∀ i, ((s.retired t).instances i).key = (s.instances i).key := by
    intro i
    rw [retired_instances]
    split <;> rfl
  have hvalids : ∀ i, ((s.retired t).instances i).valid = true →
      i ≠ (s.threads t).inst ∧ (s.instances i).valid = true := by
    intro i hi
    rw [retired_instances] at hi
    split at hi
    · simp at hi
    exact ⟨‹_›, hi⟩
  have hinvalid : ∀ i, (s.instances i).valid = false →
      ((s.retired t).instances i).valid = false := by
    intro i hi
    rw [retired_instances]
    split
    · rfl
    · exact hi
  constructor
  case toGoroutines =>
    have hgoto : Goroutines (s.goto t .removing) := h.toGoroutines.goto (by simp [hplace])
      fun _ => h.deactivates t (by simp [hplace, Place.deactivates])
    exact hgoto.of_eq rfl rfl (Nat.le_refl _)
  case parked => exact h.parked
  case full => exact h.full
  case valid => exact fun i hi => h.valid i (hvalids i hi).2
  case closed => exact fun c hc => ⟨hinvalid _ (h.closed c hc).1, (h.closed c hc).2⟩
  case removing =>
    intro u
    rw [hthreads, goto_place, goto_inst, hkey]
    split
    · rw [‹u = t›]
      exact fun _ => h.tabled _ hvalid
    · exact h.removing u
  case locked =>
    intro u
    rw [hthreads, goto_place, goto_inst, retired_instances]
    split
    · rw [‹u = t›, if_pos rfl]
      exact fun _ => ⟨rfl, rfl⟩
    · intro hu
      split
      · exact ⟨rfl, rfl⟩
      · exact h.locked u hu
  case table =>
    intro k i hk
    obtain ⟨hki, hi, hcases⟩ := h.table k i hk
    rw [hkey]
    refine ⟨hki, hi, ?_⟩
    by_cases hit : i = (s.threads t).inst
    · refine .inr ⟨t, ?_⟩
      rw [hthreads, goto_inst, goto_place_self]
      exact ⟨hit.symm, rfl⟩
    rcases hcases with hv | ⟨u, hu, hremoving⟩
    · left
      rw [retired_instances, if_neg hit]
      exact hv
    · refine .inr ⟨u, ?_⟩
      have hut : u ≠ t := fun heq => hit (heq ▸ hu.symm)
      rw [hthreads, goto_inst, goto_place_of_ne s t _ hut]
      exact ⟨hu, hremoving⟩
  case tabled =>
    intro i hi
    rw [hkey]
    exact h.tabled i (hvalids i hi).2
  case loaded =>
    intro l hl
    obtain ⟨hnone, hsome⟩ := h.loaded l hl
    refine ⟨hnone, fun e he => ?_⟩
    obtain ⟨hek, helt, hcases⟩ := hsome e he
    rw [hkey]
    exact ⟨hek, helt, hcases.imp id fun hc => ⟨hc.1, hinvalid e hc.2⟩⟩

/-- The entry of an instance is deleted by the only goroutine that removes the instance. -/
theorem removes (h : Wf s) (hplace : (s.threads t).place = .removing)
    (hunique : ∀ u, (s.threads u).place = .removing → (s.threads u).inst = (s.threads t).inst →
      u = t) : Wf ({ s with sessionTable := s.tableWithout t }.goto t .closing) := by
  have hentry := h.removing t hplace
  have hinvalid := (h.locked t (.inl hplace)).1
  refine { h with toGoroutines := ?_, removing := ?_, locked := ?_, table := ?_, tabled := ?_,
                  loaded := ?_ }
  · have hgoto : Goroutines (s.goto t .closing) := h.toGoroutines.goto (by simp [hplace])
      fun _ => h.deactivates t (by simp [hplace, Place.deactivates])
    exact hgoto.of_eq rfl rfl (Nat.le_refl _)
  · intro u
    rw [goto_place, goto_inst]
    split
    · simp
    intro hu
    have hother := h.removing u hu
    show s.tableWithout t (s.instances (s.threads u).inst).key = some (s.threads u).inst
    rw [tableWithout_apply, if_neg, hother]
    intro heq
    rw [heq, hentry] at hother
    exact ‹u ≠ t› (hunique u hu (Option.some.inj hother).symm)
  · intro u
    rw [goto_place, goto_inst]
    split
    · rw [‹u = t›]
      exact fun _ => h.locked t (.inl hplace)
    · exact h.locked u
  · intro k i hk
    have hk : s.tableWithout t k = some i := hk
    rw [tableWithout_apply] at hk
    have hkk : k ≠ (s.instances (s.threads t).inst).key := by
      intro heq
      simp [heq] at hk
    rw [if_neg hkk] at hk
    obtain ⟨hkey, hi, hcases⟩ := h.table k i hk
    refine ⟨hkey, hi, hcases.imp id fun ⟨u, hu, hremoving⟩ => ⟨u, ?_⟩⟩
    have hut : u ≠ t := by
      rintro rfl
      exact hkk (by rw [hu, hkey])
    rw [goto_inst, goto_place_of_ne _ t _ hut]
    exact ⟨hu, hremoving⟩
  · intro i hi
    have hi : (s.instances i).valid = true := hi
    have hold := h.tabled i hi
    show s.tableWithout t (s.instances i).key = some i
    rw [tableWithout_apply, if_neg, hold]
    intro heq
    rw [heq, hentry] at hold
    rw [← Option.some.inj hold, hinvalid] at hi
    simp at hi
  · intro l hl
    obtain ⟨hnone, hsome⟩ := h.loaded l hl
    refine ⟨fun he => ?_, fun e he => ?_⟩
    · show s.tableWithout t l.target.key = none
      rw [tableWithout_apply]
      split
      · rfl
      · exact hnone he
    obtain ⟨hek, helt, hcases⟩ := hsome e he
    refine ⟨hek, helt, ?_⟩
    show s.tableWithout t l.target.key = some e ∨
      s.tableWithout t l.target.key = none ∧ (s.instances e).valid = false
    rw [tableWithout_apply]
    split
    · rename_i hk
      refine .inr ⟨rfl, ?_⟩
      rcases hcases with he | ⟨-, he⟩
      · rw [hk, hentry] at he
        cases he
        exact hinvalid
      · exact he
    · exact hcases

/-- The lock is released by the only goroutine that removes the instance. -/
theorem closes (h : Wf s) (hplace : (s.threads t).place = .closing) (hc : (s.threads t).after = some c)
    (hunique : ∀ u, (s.threads u).place = .removing ∨ (s.threads u).place = .closing →
      (s.threads u).inst = (s.threads t).inst → u = t) : Wf ((s.closing t c).goto t .ended) := by
  obtain ⟨b, hb⟩ : ∃ b, (s.threads t).before = some b :=
    Option.ne_none_iff_exists'.mp (h.deactivates t (by simp [hplace, Place.deactivates]))
  have howner : c.owner = (s.threads t).inst := by
    obtain ⟨hinst, hafter⟩ := h.before t b hb
    rw [← hinst, Option.some.inj (hc.symm.trans hafter)]
  have hclosed : Wf { s with closed := update s.closed c true } := by
    refine { h with closed := fun c' hc' => ?_ }
    by_cases hcc : c' = c
    · rw [hcc, howner]
      exact ⟨(h.locked t (.inr hplace)).1, h.inst t (h.lt hplace)⟩
    · exact h.closed c' (by simpa [hcc] using hc')
  have hgoto : Wf ({ s with closed := update s.closed c true }.goto t .ended) := 
    hclosed.goto (by simp [hplace])
  refine hgoto.setInstance rfl rfl fun u hu hinst => ?_
  by_cases hut : u = t
  · simp [hut] at hu
  · rw [goto_place_of_ne _ t _ hut] at hu
    rw [goto_inst] at hinst
    exact absurd (hunique u hu hinst) hut

theorem unloaded (h : Wf s) : Wf s.unloaded :=
  { h with loaded := by simp [Scheduler.unloaded] }

theorem arrival (h : Wf s) (hs : Arrival s i fresh target m s') (hi : i < s.numInstances) : Wf s' := by
  cases hs with
  | resume _ _ hc =>
    refine h.resume hi ?_
    obtain ⟨-, hc⟩ := Option.ite_none_right_eq_some.mp hc
    exact h.parked _ _ hc
  | reentrant => exact h.bypass hi
  | nonexclusive => exact h.bypass hi
  | queued => exact h.enqueue hi

/-- `acceptSession` schedules the request on the valid instance of the table, or on a new one
if the table has none. -/
theorem schedule_cases (h : Wf s) (hs : s.schedule = some s') :
    ∃ l, s.loading = some l ∧ ((∃ i, s.sessionTable l.target.key = some i ∧ (s.instances i).valid =
      true ∧ Arrival s.unloaded i false l.target l.m s') ∨ s.sessionTable l.target.key = none ∧
      Arrival (s.unloaded.newInstance l.target l.m) s.numInstances true l.target l.m s') := by
  unfold Scheduler.schedule at hs
  split at hs
  · simp at hs
  · rename_i target m hloading
    cases hs
    exact ⟨_, hloading, .inr ⟨(h.loaded _ hloading).1 rfl,
      scheduleOn_arrival (s.newInstance target m) _ ..⟩⟩
  rename_i target m e hloading
  obtain ⟨-, -, hentry⟩ := (h.loaded _ hloading).2 e rfl
  refine ⟨_, hloading, ?_⟩
  split at hs
  · simp at hs
  rename_i hlocked
  split at hs
  · rename_i hvalid
    cases hs
    rcases hentry with hentry | ⟨-, hinvalid⟩
    · exact .inl ⟨e, hentry, hvalid, scheduleOn_arrival s e ..⟩
    · simp [hvalid] at hinvalid
  rename_i hinvalid
  cases hs
  refine .inr ⟨?_, scheduleOn_arrival (s.newInstance target m) _ ..⟩
  rcases hentry with hentry | ⟨hnone, -⟩
  · -- An invalid instance in the table is locked by the goroutine that removes it.
    obtain ⟨-, -, hvalid | ⟨t, hinst, hremoving⟩⟩ := h.table _ e hentry
    · exact absurd hvalid hinvalid
    · exact absurd (hinst ▸ (h.locked t (.inl hremoving)).2) hlocked
  · exact hnone

theorem schedule (h : Wf s) (hs : s.schedule = some s') : Wf s' := by
  obtain ⟨l, -, ⟨i, hentry, -, harrival⟩ | ⟨hnone, harrival⟩⟩ := h.schedule_cases hs
  · exact h.unloaded.arrival harrival (h.table _ i hentry).2.1
  · exact (h.unloaded.newInstance rfl hnone).arrival harrival (Nat.lt_succ_self _)

end Wf

/-! ## What a step keeps -/

/-- The goroutines that were started keep their channels, their instance and their request, and
the instances keep their keys. -/
structure Kept (s s' : Scheduler) : Prop where
  numThreads : s.numThreads ≤ s'.numThreads
  numInstances : s.numInstances ≤ s'.numInstances
  inst : ∀ t, t < s.numThreads → (s'.threads t).inst = (s.threads t).inst
  before : ∀ t, t < s.numThreads → (s'.threads t).before = (s.threads t).before
  after : ∀ t, t < s.numThreads → (s'.threads t).after = (s.threads t).after
  job : ∀ t, t < s.numThreads → (s'.threads t).job = (s.threads t).job
  key : ∀ i, i < s.numInstances → (s'.instances i).key = (s.instances i).key

namespace Kept

variable {s s' : Scheduler}

theorem refl (s : Scheduler) : Kept s s := by
  constructor <;> intros <;> simp

theorem trans (h : Kept s s') (h' : Kept s' s'') : Kept s s'' where
  numThreads := Nat.le_trans h.numThreads h'.numThreads
  numInstances := Nat.le_trans h.numInstances h'.numInstances
  inst := fun t ht => (h'.inst t (Nat.lt_of_lt_of_le ht h.numThreads)).trans (h.inst t ht)
  before := fun t ht => (h'.before t (Nat.lt_of_lt_of_le ht h.numThreads)).trans (h.before t ht)
  after := fun t ht => (h'.after t (Nat.lt_of_lt_of_le ht h.numThreads)).trans (h.after t ht)
  job := fun t ht => (h'.job t (Nat.lt_of_lt_of_le ht h.numThreads)).trans (h.job t ht)
  key := fun i hi => (h'.key i (Nat.lt_of_lt_of_le hi h.numInstances)).trans (h.key i hi)

theorem silent (h : Kept s s') (hs : Silent s' s'') : Kept s s'' := by
  refine h.trans ?_
  constructor
  case key => exact fun i _ => hs.key i
  case numThreads => exact Nat.le_of_eq hs.numThreads.symm
  case numInstances => exact Nat.le_of_eq hs.numInstances.symm
  all_goals
    intro t _
    rw [hs.threads]

theorem goto (h : Kept s s') (t : Nat) (p : Place) : Kept s (s'.goto t p) :=
  { h with
    inst := fun u hu => (goto_inst s' t p u).trans (h.inst u hu)
    before := fun u hu => (goto_before s' t p u).trans (h.before u hu)
    after := fun u hu => (goto_after s' t p u).trans (h.after u hu)
    job := fun u hu => (goto_job s' t p u).trans (h.job u hu) }

theorem spawn (h : Kept s s') (u : Thread) : Kept s (s'.spawn u) := by
  have hold : ∀ t, t < s.numThreads → (s'.spawn u).threads t = s'.threads t := by
    intro t ht
    rw [spawn_threads, if_neg]
    exact Nat.ne_of_lt (Nat.lt_of_lt_of_le ht h.numThreads)
  exact { h with
    numThreads := Nat.le_succ_of_le h.numThreads
    inst := fun t ht => by rw [hold t ht, h.inst t ht]
    before := fun t ht => by rw [hold t ht, h.before t ht]
    after := fun t ht => by rw [hold t ht, h.after t ht]
    job := fun t ht => by rw [hold t ht, h.job t ht] }

theorem setInstance (h : Kept s s')
    (hkey : a.key = (s'.instances i).key) : Kept s (s'.setInstance i a) := by
  refine { h with key := fun j hj => ?_ }
  rw [← h.key j hj]
  by_cases hji : j = i
  · simp [Scheduler.setInstance, hji, hkey]
  · simp [Scheduler.setInstance, hji]

theorem newInstance (h : Kept s s') (target : Session) (m : Request) :
    Kept s (s'.newInstance target m) := by
  refine { h with numInstances := Nat.le_succ_of_le h.numInstances, key := fun j hj => ?_ }
  have hne : j ≠ s'.numInstances := Nat.ne_of_lt (Nat.lt_of_lt_of_le hj h.numInstances)
  simpa [Scheduler.newInstance, hne] using h.key j hj

theorem enqueue (h : Kept s s') (i : Nat) (job : Job) : Kept s (s'.enqueue i job) := by
  refine Kept.spawn (h.setInstance ?_) _
  rfl

theorem arrival (h : Kept s s') (ha : Arrival s' i fresh target m s'') : Kept s s'' := by
  cases ha with
  | resume =>
    refine Kept.spawn ?_ _
    exact { h with }
  | reentrant => exact h.spawn _
  | nonexclusive => exact h.spawn _
  | queued => exact h.enqueue _ _

theorem step (h : Wf s) (hs : Scheduler.step cfg s e = some s') : Kept s s' := by
  have hrefl := Kept.refl s
  cases step_change hs with
  | silent h' => exact hrefl.silent h'
  | quiet hq => exact (hrefl.goto _ _).silent hq.silent
  | loads _ h' =>
    refine Kept.silent ?_ h'
    exact { hrefl with }
  | schedules hsch h' =>
    refine Kept.silent ?_ h'
    have hunloaded : Kept s s.unloaded := { hrefl with }
    obtain ⟨l, -, ⟨i, -, -, ha⟩ | ⟨-, ha⟩⟩ := h.schedule_cases hsch
    · exact hunloaded.arrival ha
    · exact (hunloaded.newInstance _ _).arrival ha
  | receives _ _ _ h' =>
    refine Kept.silent (Kept.goto ?_ _ _) h'
    exact { hrefl with }
  | passes _ _ h' =>
    refine Kept.silent (Kept.goto ?_ _ _) h'
    exact { hrefl with }
  | parks _ _ _ h' =>
    refine Kept.silent (Kept.goto ?_ _ _) h'
    exact { hrefl with }
  | enqueues _ _ h' => exact (hrefl.enqueue _ _).silent h'
  | retires _ _ h' =>
    refine Kept.silent (Kept.goto (Kept.setInstance hrefl ?_) _ _) h'
    rfl
  | removes _ h' =>
    refine Kept.silent (Kept.goto ?_ _ _) h'
    exact { hrefl with }
  | closes _ _ h' =>
    refine Kept.silent (Kept.goto (Kept.setInstance ?_ ?_) _ _) h'
    · exact { hrefl with }
    · rfl

end Kept

section Loading

theorem arrival_loading (ha : Arrival s i fresh target m s') : s'.loading = s.loading := by
  cases ha <;> rfl

/-- Only the acceptance and the start of a request change what is looked up. -/
theorem loading_eq_of_outcome (ho : Outcome cfg s e s') (haccept : ∀ m now, e ≠ .accept m now)
    (hne : e ≠ .schedule) : s'.loading = s.loading := by
  cases ho with
  | accepted => exact absurd rfl (haccept _ _)
  | scheduled => exact absurd rfl hne
  | @omitted _ _ _ _ _ clear => cases clear <;> rfl
  | @mismatched _ _ _ _ _ clear => cases clear <;> rfl
  | @answered _ _ _ _ _ _ _ clear => cases clear <;> rfl
  | @forwarded _ _ _ _ _ _ _ clear => cases clear <;> rfl
  | deferred => simp [goto, continuing, deferring, log]
  | _ => rfl

/-- The request that is looked up has been there, or it has just been accepted. -/
theorem loading_of_outcome (h : Wf s) (ho : Outcome cfg s e s')
    (hl : s'.loading = some l) : s.loading = some l ∨
      ∃ now, e = .accept l.m now ∧ l.m.target.session? = some l.target := by
  cases e with
  | accept m now =>
    cases ho with
    | accepted _ htarget =>
      cases hl
      exact .inr ⟨now, rfl, htarget⟩
    | _ => exact .inl hl
  | schedule =>
    cases ho with
    | scheduled hs =>
      have hnone : s'.loading = none := by
        obtain ⟨l, -, ⟨i, -, -, ha⟩ | ⟨-, ha⟩⟩ := h.schedule_cases hs <;> exact arrival_loading ha
      simp [hnone] at hl
  | _ => exact .inl ((loading_eq_of_outcome ho (by simp) (by simp)).symm.trans hl)

/-- A goroutine starts for the request that was looked up, or for a deactivation. -/
theorem started_of_outcome (h : Wf s) (ho : Outcome cfg s e s')
    (hge : s.numThreads ≤ t) (hlt : t < s'.numThreads) : t = s.numThreads ∧
      ((s'.threads t).job = .deactivation ∨ e = .schedule ∧ s.schedule = some s') := by
  cases ho with
  | scheduled hs =>
    have hnum : s'.numThreads = s.numThreads + 1 := by
      obtain ⟨l, -, ⟨i, -, -, ha⟩ | ⟨-, ha⟩⟩ := h.schedule_cases hs <;> cases ha <;> rfl
    exact ⟨by omega, .inr ⟨rfl, hs⟩⟩
  | @collected =>
    have hlt : t < s.numThreads + 1 := hlt
    obtain rfl : t = s.numThreads := by omega
    exact ⟨rfl, .inl (by simp [enqueue, spawn, setInstance])⟩
  | @omitted _ _ _ _ _ clear => cases clear <;> exact absurd hlt (Nat.not_lt.mpr hge)
  | @mismatched _ _ _ _ _ clear => cases clear <;> exact absurd hlt (Nat.not_lt.mpr hge)
  | @answered _ _ _ _ _ _ _ clear => cases clear <;> exact absurd hlt (Nat.not_lt.mpr hge)
  | @forwarded _ _ _ _ _ _ _ clear => cases clear <;> exact absurd hlt (Nat.not_lt.mpr hge)
  | deferred =>
    exact absurd hlt (Nat.not_lt.mpr hge)
  | _ => exact absurd hlt (Nat.not_lt.mpr hge)

end Loading

section Ended

variable {s s' : Scheduler} {cfg : SchedulerConfig} {e : SchedulerEvent}

theorem ended_goto (ht : (s.threads t).place ≠ .ended)
    (hu : (s.threads u).place = .ended) : ((s.goto t p).threads u).place = .ended := by
  have hut : u ≠ t := by
    rintro rfl
    exact ht hu
  rw [goto_place_of_ne s t p hut, hu]

theorem ended_spawn (hlt : u < s.numThreads)
    (hu : (s.threads u).place = .ended) : ((s.spawn v).threads u).place = .ended := by
  rw [spawn_threads, if_neg (Nat.ne_of_lt hlt), hu]

/-- A goroutine that has ended does not go on. -/
theorem ended_of_step (h : Wf s) (hs : step cfg s e = some s') (hlt : u < s.numThreads)
    (hu : (s.threads u).place = .ended) : (s'.threads u).place = .ended := by
  cases step_change hs with
  | silent h' => rw [h'.threads, hu]
  | quiet hq =>
    rw [hq.silent.threads]
    exact ended_goto hq.place.1 hu
  | loads _ h' => rw [h'.threads, hu]
  | schedules hsch h' =>
    rw [h'.threads]
    obtain ⟨l, -, ⟨i, -, -, ha⟩ | ⟨-, ha⟩⟩ := h.schedule_cases hsch <;> cases ha <;>
      exact ended_spawn hlt hu
  | @receives t _ _ _ _ hplace h' =>
    rw [h'.threads]
    refine ended_goto (s := s.setFull _ false) ?_ hu
    show (s.threads t).place ≠ .ended
    rcases hplace with ⟨hplace, -⟩ | ⟨hplace, -⟩ <;> simp [hplace]
  | @passes t _ _ hsends h' =>
    rw [h'.threads]
    refine ended_goto (s := s.setFull _ true) ?_ hu
    show (s.threads t).place ≠ .ended
    rintro hended
    simp [hended, Place.sends] at hsends
  | parks _ _ hplace h' =>
    rw [h'.threads]
    exact ended_goto (s := s.deferring _ _) (by simp [deferring, hplace]) hu
  | enqueues _ _ h' =>
    rw [h'.threads]
    exact ended_spawn hlt hu
  | retires hplace _ h' =>
    rw [h'.threads]
    exact ended_goto (s := s.setInstance _ _) (by simp [setInstance, hplace]) hu
  | removes hplace h' =>
    rw [h'.threads]
    exact ended_goto (s := { s with sessionTable := s.tableWithout _ }) (by simp [hplace]) hu
  | closes hplace _ h' =>
    rw [h'.threads]
    exact ended_goto (s := s.closing _ _) (by simp [closing, setInstance, hplace]) hu

end Ended

/-- The target of a goroutine is the one of its request. -/
structure Targets (s : Scheduler) : Prop where
  thread : ∀ t target m clear, t < s.numThreads → (s.threads t).job = .request target m clear →
    m.target.session? = some target
  loading : ∀ l, s.loading = some l → l.m.target.session? = some l.target

namespace Targets

theorem init : Targets init := by
  constructor <;> simp [Scheduler.init]

/-- No goroutine starts, and the message that is loaded is the same. -/
theorem kept (h : Targets s) (hkept : Kept s s') (hnum : s'.numThreads = s.numThreads)
    (hloading : s'.loading = s.loading) : Targets s' where
  thread := by
    intro t target m clear ht hjob
    rw [hnum] at ht
    rw [hkept.job t ht] at hjob
    exact h.thread t target m clear ht hjob
  loading := by
    rw [hloading]
    exact h.loading

/-- The goroutine of the request `m` starts. -/
theorem spawned (h : Targets s) (hkept : Kept s s')
    (hnum : s'.numThreads = s.numThreads + 1) (hloading : s'.loading = none)
    (hjob : ∃ clear, (s'.threads s.numThreads).job = .request target m clear)
    (htarget : m.target.session? = some target) : Targets s' where
  thread := by
    intro t target' m' clear' ht hjob'
    rw [hnum] at ht
    by_cases hlt : t < s.numThreads
    · rw [hkept.job t hlt] at hjob'
      exact h.thread t target' m' clear' hlt hjob'
    obtain ⟨clear, hjob⟩ := hjob
    obtain rfl : t = s.numThreads := by omega
    rw [hjob'] at hjob
    obtain ⟨rfl, rfl, -⟩ := Job.request.inj hjob
    exact htarget
  loading := by simp [hloading]

theorem arrival_spawned (ha : Arrival s i fresh target m s') : s'.numThreads = s.numThreads + 1 ∧
      s'.loading = s.loading ∧ ∃ clear, (s'.threads s.numThreads).job = .request target m clear := by
  cases ha with
  | resume => exact ⟨rfl, rfl, true, by simp [resume, Scheduler.spawn]⟩
  | reentrant => exact ⟨rfl, rfl, false, by simp [bypass, Scheduler.spawn]⟩
  | nonexclusive => exact ⟨rfl, rfl, false, by simp [bypass, Scheduler.spawn]⟩
  | queued => exact ⟨rfl, rfl, true, by simp [enqueue, Scheduler.spawn, Scheduler.setInstance]⟩

theorem step (h : Targets s) (hwf : Wf s) (hs : Scheduler.step cfg s e = some s') : Targets s' := by
  have hkept := Kept.step hwf hs
  cases step_change hs with
  | silent h' => exact h.kept hkept h'.numThreads h'.loading
  | quiet hq => exact h.kept hkept hq.silent.numThreads hq.silent.loading
  | @loads _ _ htarget h' =>
    have hthread : Targets { s' with loading := s.loading } :=
      h.kept { hkept with } h'.numThreads rfl
    refine ⟨hthread.thread, fun l hl => ?_⟩
    rw [h'.loading] at hl
    cases hl
    exact htarget
  | @schedules s₁ hsch h' =>
    obtain ⟨l, hl, hcases⟩ := hwf.schedule_cases hsch
    have hspawned : s₁.numThreads = s.numThreads + 1 ∧ s₁.loading = none ∧
        ∃ clear, (s₁.threads s.numThreads).job = .request l.target l.m clear := by
      rcases hcases with ⟨i, -, -, ha⟩ | ⟨-, ha⟩
      · exact arrival_spawned ha
      · exact arrival_spawned ha
    obtain ⟨hnum, hloading, hjob⟩ := hspawned
    refine h.spawned hkept (h'.numThreads.trans hnum) (h'.loading.trans hloading) ?_ (h.loading l hl)
    rw [h'.threads]
    exact hjob
  | receives _ _ _ h' => exact h.kept hkept h'.numThreads h'.loading
  | passes _ _ h' => exact h.kept hkept h'.numThreads h'.loading
  | parks _ _ _ h' => exact h.kept hkept h'.numThreads h'.loading
  | @enqueues _ _ _ h' =>
    refine ⟨fun t target m clear ht hjob => ?_, ?_⟩
    · rw [h'.numThreads] at ht
      have ht : t < s.numThreads + 1 := ht
      by_cases hlt : t < s.numThreads
      · rw [hkept.job t hlt] at hjob
        exact h.thread t target m clear hlt hjob
      · obtain rfl : t = s.numThreads := by omega
        rw [h'.threads] at hjob
        simp [enqueue, Scheduler.spawn, Scheduler.setInstance] at hjob
    · rw [h'.loading]
      exact h.loading
  | retires _ _ h' => exact h.kept hkept h'.numThreads h'.loading
  | removes _ h' => exact h.kept hkept h'.numThreads h'.loading
  | closes _ _ h' => exact h.kept hkept h'.numThreads h'.loading

end Targets

end Scheduler

end Kar.Rpc
